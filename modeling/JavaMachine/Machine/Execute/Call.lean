import JavaMachine.Machine.Execute.Field
import JavaMachine.Machine.Instruction
import JavaMachine.Machine.Services

/-!
Calls. A call puts a frame for the chosen method on the frame stack and moves the arguments from the
caller's stack to its local variables. A native method runs its implementation as its first instruction.
-/

namespace JavaMachine

/-- Puts slots into a vector from the start on. -/
def Slots.fill (slots : Slots) (start : Nat) : List Slot → Slots
  | [] => slots
  | v :: rest => fill (slots.setIfInBounds start v) (start + 1) rest

namespace Execute

open M Throwing

/-- Moves `n` slots from the stack of the second frame to the local variables of the innermost. -/
def moveArguments (n : Nat) : M Unit := fun m =>
  match m.frames with
  | .active callee :: caller :: rest =>
    match OperandStack.popMany n caller.stack with
    | .ok args stack =>
      let callee := { callee with locals := callee.locals.fill 0 args }
      .ok () { m with frames := .active callee :: caller.withStack stack :: rest }
    | .error e _ => .error (.fatal e.message) m
  | _ => .error .null m

/-- Starts a method with the arguments on the stack of the innermost frame. -/
def enter (s : Context) (method : Method) : M Unit := do
  if method.isAbstract then
    let owner := (← classAt method.owner).javaName
    s.throwNew Throwables.abstractMethod s!"{owner}.{method.name}{method.desc}"
  else if ← pushFrame (Frame.ofMethod method) then moveArguments method.argSlots
  else s.throwStackOverflow

/-- Starts a method for an instruction that calls it. -/
def enterCalled (s : Context) (method : Method) : M Unit := do
  recordCall method
  enter s method

/-- Goes on if a method is no static one. -/
def ifInstance (s : Context) (method : Method) (next : M Unit) : M Unit := do
  if method.isStatic then
    s.throwNew Throwables.incompatibleChange s!"Expected non-static method {← methodText method}"
  else next

/-- The receiver below the arguments of a method. -/
def peekReceiver (method : Method) : M (Option Ref) := do
  return (← onStack (OperandStack.peek (method.argSlots - 1))).ref?

/-- Starts a method if there is one; otherwise the method is abstract in the given class. -/
def enterSelected (s : Context) (selected : Option Method) (owner : ClassId) (method : Method) : M Unit := do
  match selected with
  | some target => enterCalled s target
  | none =>
    let text := (← classAt owner).javaName
    s.throwNew Throwables.abstractMethod s!"{text}.{method.name}{method.desc}"

/-- Calls a static method of an initialized class. -/
def callStatic (s : Context) (method : Method) : M Unit := do
  if !method.isStatic then
    s.throwNew Throwables.incompatibleChange s!"Expected static method {← methodText method}"
  else if ← Initialization.ensure s method.owner then enterCalled s method

/-- Calls a constructor, a private method or a method of a superclass. A caller with the flag `super` looks a
method of its superclasses up anew from its direct superclass. -/
def callSpecial (s : Context) (resolved : ClassId) (method : Method) : M Unit :=
  ifInstance s method do
    if method.isInit && method.owner != resolved then
      let text := (← classAt resolved).javaName
      s.throwNew Throwables.noSuchMethod s!"{text}.{method.name}{method.desc}"
    else
      let receiver ← peekReceiver method
      withReceiver s method.owner method.flags receiver fun _ => do
        let caller := (← activation).method.owner
        let m ← get
        if !method.isInit && !(m.classAt resolved).isInterface && (m.classAt caller).flags.isSuper
            && m.isSubclassOf caller resolved then
          let super ← some! (m.classAt caller).super
          match m.lookupMethod super method.name method.desc with
          | some target => enterCalled s target
          | none => s.throwNew Throwables.abstractMethod (← methodText method)
        else enterCalled s method

/-- Calls the method that the class of the receiver has for a name and a descriptor. -/
def callVirtual (s : Context) (method : Method) : M Unit :=
  ifInstance s method do
    let receiver ← peekReceiver method
    withReceiver s method.owner method.flags receiver fun r => do
      if method.isPrivate then enterCalled s method
      else
        let m ← get
        let owner := m.classOf r
        enterSelected s (m.lookupMethod owner method.name method.desc) owner method

/-- Calls the method that the class of the receiver has for a method of an interface, which it has to
implement. -/
def callInterface (s : Context) (resolved : ClassId) (method : Method) : M Unit :=
  ifInstance s method do
    match ← peekReceiver method with
    | none => s.throwNew Throwables.nullPointer ""
    | some r =>
      let m ← get
      let owner := m.classOf r
      if !(← assignable resolved owner) then
        let held := (m.classAt owner).javaName
        let wanted := (m.classAt resolved).javaName
        s.throwNew Throwables.incompatibleChange
          s!"Class {held} does not implement the requested interface {wanted}"
      else if method.isPrivate then enterCalled s method
      else
        let selected := m.lookupMethod owner method.name method.desc
        match selected with
        | some target =>
          if target.isPublic then enterCalled s target
          else s.throwNew Throwables.illegalAccess (← methodText target)
        | none => enterSelected s none owner method

/-- Resolves a method and calls it. -/
def call (s : Context) (kind : CallKind) (index : Nat) : M Unit := do
  let holder := (← activation).method.owner
  s.orThrow (Resolution.methodEntry s.toServices holder index) fun (resolved, method) =>
    match kind with
    | .static => callStatic s method
    | .special => callSpecial s resolved method
    | .virtual => callVirtual s method
    | .interface => callInterface s resolved method

/-- Runs the implementation of the native method that runs. -/
def native (natives : Natives) (s : Context) : M Unit := do
  let method := (← activation).method
  let owner ← classAt method.owner
  match natives.find? owner.name method.name method.desc with
  | some act => act s.toServices
  | none =>
    if !Natives.isRegistration method.name method.desc then
      s.throwNew Throwables.unsatisfiedLink s!"{owner.javaName}.{method.name}{method.desc}"

end Execute

end JavaMachine
