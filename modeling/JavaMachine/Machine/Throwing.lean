import JavaMachine.Machine.Resolution

/-!
Exceptions: building those of the machine, delivering them to handlers, and stack traces. A frame without
a matching handler is taken away. Where a barrier or a shim is reached the exception is left pending for
the caller outside. The initializer of a class that is taken away leaves its class erroneous.
-/

namespace JavaMachine.Throwing

open M Text

/-- A new throwable of a class. It is built within the reserve of the frame stack, so that one raised at
the limit can be built too; one that cannot be built is a broken invariant. -/
def newThrowable (s : Services) (name message : String) (cause : Option Ref) : M Ref := do
  let before := (← get).overflowing
  modify fun m => { m with overflowing := true }
  ensuring build fun m => { m with overflowing := before }
where
  build : M Ref := do
    let quoted := Quoted.encode message
    match ← (s.loadBoot name).run with
    | .error f => fatal s!"cannot load {name} to report {quoted}: {f.message (← get)}"
    | .ok c =>
      match ← (s.initClass c).run with
      | .error f => fatal s!"cannot initialize {name} to report {quoted}: {f.message (← get)}"
      | .ok () =>
        let object ← newObject c
        let k ← classAt c
        let withMessage :=
          if message = "" then none else k.findMethod Method.initName "(Ljava/lang/String;)V"
        match withMessage with
        | some constructor =>
          let text ← newString message
          finish object constructor [.ref object, .ref text]
        | none =>
          if message ≠ "" then
            let _ ← newString message
          match k.findMethod Method.initName "()V" with
          | some constructor => finish object constructor [.ref object]
          | none => fatal s!"{name} has no usable constructor"
  finish (object : Ref) (constructor : Method) (args : List Slot) : M Ref := do
    match ← (s.invoke constructor args).run with
    | .error f =>
      match f.thrown? with
      | some r => some! r
      | none => fatal s!"constructing {name}: {f.message (← get)}"
    | .ok _ =>
      if message ≠ "" && constructor.desc == "()V" then setMessage object
      setCause object
      return object
  setMessage (object : Ref) : M Unit := do
    if ← hasField object "detailMessage" Machine.stringDesc then
      setRefField object "detailMessage" Machine.stringDesc (some (← newString message))
  setCause (object : Ref) : M Unit := do
    if let some c := cause then setRefIfPresent object "cause" Machine.throwableDesc (some c)

/-- The handler of an activation for an exception: the first row that covers the instruction and whose
class the exception is of. A row whose class cannot be resolved is passed over. -/
def findHandler (s : Services) (a : Activation) (exception : Ref) : List Handler → M (Option Nat)
  | [] => return none
  | h :: rest => do
    if !h.covers a.pc then findHandler s a exception rest
    else if h.catchType = 0 then return some h.entry
    else
      match ← (Resolution.classEntry s a.method.owner h.catchType.toNat).run with
      | .error _ => findHandler s a exception rest
      | .ok c => if ← isInstance exception c then return some h.entry else findHandler s a exception rest

/-- Ends the initialization of a class in a state. -/
def finishInit (c : ClassId) (state : ClassState) : M Unit := setState c state

/-- Whether the thread that runs is initializing a class. -/
def isInitializing (c : ClassId) : M Bool := do
  let m ← get
  return (m.classAt c).state == .initializing m.current

/-- An exception that escapes from an initializer: one that is no `Error` goes on inside an
`ExceptionInInitializerError`, where that can be built. -/
def escaping (s : Services) (exception : Ref) : M Ref := do
  match ← (s.loadBoot "java/lang/Error").run with
  | .error _ => return exception
  | .ok error =>
    if ← isInstance exception error then return exception
    else
      match ← (s.loadBoot Throwables.inInitializer).run with
      | .error _ => return exception
      | .ok wrapper =>
        match (← classAt wrapper).findMethod Method.initName "(Ljava/lang/Throwable;)V" with
        | none => return exception
        | some constructor =>
          match ← (s.initClass wrapper).run with
          | .error _ => return exception
          | .ok () =>
            let object ← newObject wrapper
            match ← (s.invoke constructor [.ref object, .ref exception]).run with
            | .error f =>
              match f.thrown? with
              | some r => some! r
              | none => return exception
            | .ok _ => return object

/-- Marks a class as erroneous whose initializer an exception escapes from. -/
def failInitialization (s : Services) (c : ClassId) (exception : Ref) : M Ref := do
  finishInit c .erroneous
  escaping s exception

/-- Takes the innermost frame away for an exception that it does not handle. If its method is the initializer
of a class in progress, the initialization fails. The result is the exception that goes on. -/
def leave (s : Services) (method : Method) (exception : Ref) : M Ref := do
  let _ ← popFrame
  if method.isClinit && (← isInitializing method.owner) then failInitialization s method.owner exception
  else return exception

/-- Takes frames away until one handles the exception; there are at most `n` frames to look at. -/
def unwind (s : Services) : Nat → Ref → M Unit
  | 0, _ => throw .stuck
  | n + 1, exception => do
    match ← topFrame with
    | some (.active a) =>
      let handler ← if 0 ≤ a.pc then findHandler s a exception a.method.handlers else pure none
      match handler with
      | some entry =>
        onStack do
          OperandStack.clear
          OperandStack.pushRef (some exception)
        updateActivation fun a => { a with nextPc := entry }
      | none =>
        let exception ← leave s a.method exception
        unwind s n exception
    | _ => modify fun m => { m with pending := some exception }

/-- Throws an exception; null stands for a `NullPointerException`. -/
def throwObject (s : Services) (exception : Option Ref) : M Unit := do
  let exception ←
    match exception with
    | some r => pure r
    | none => newThrowable s Throwables.nullPointer "" none
  unwind s ((← depth) + 1) exception

/-- Throws a new exception of a class. -/
def throwNew (s : Services) (name message : String) : M Unit := do
  throwObject s (some (← newThrowable s name message none))

/-- Throws what a failure stands for: its exception, a new one of its class, or an `InternalError`. -/
def throwFailure (s : Services) (f : Failure) : M Unit := do
  match f with
  | .thrown r => throwObject s r
  | .halted h => throw h
  | _ =>
    match f.java? with
    | some (name, message, cause) =>
      let below := (cause.bind Failure.thrown?).join
      throwObject s (some (← newThrowable s name message below))
    | none => throwNew s Throwables.internal (f.message (← get))

/-- Throws a `NullPointerException`. -/
def throwNull (s : Services) : M Unit := throwNew s Throwables.nullPointer ""

/-- Runs an attempt and goes on with its value; a failure is thrown. -/
def orThrow (s : Services) (act : Attempt α) (next : α → M Unit) : M Unit := do
  match ← act.run with
  | .ok a => next a
  | .error f => throwFailure s f

/-- What is raised: an exception, where null stands for a `NullPointerException`, a new exception of a class, or
what a failure stands for. -/
inductive Raise where
  | object (exception : Option Ref)
  | new (name message : String)
  | failure (f : Failure)

/-- Throws what is raised. -/
def raise (s : Services) : Raise → M Unit
  | .object exception => throwObject s exception
  | .new name message => throwNew s name message
  | .failure f => throwFailure s f

/-! ## Stack traces -/

/-- The activations of a frame stack, innermost first. -/
def activations (frames : List Frame) : List Activation := frames.filterMap Frame.activation?

/-- How a stack trace shows an activation. -/
def traceElement (m : Machine) (a : Activation) : TraceElement :=
  let k := m.classAt a.method.owner
  ⟨k.javaName, a.method.name, k.sourceFile, a.method.line a.pc⟩

/-- The stack trace for a throwable: all activations but those that fill it in and the constructors of the
throwable itself. -/
def stackTrace (m : Machine) (exception : Ref) : List TraceElement :=
  let outer := (activations m.frames).dropWhile fun a => a.method.name == "fillInStackTrace"
  let outer := outer.dropWhile fun a =>
    a.method.isInit && (a.locals[0]?.bind Slot.ref?) == some exception
  outer.map (traceElement m)

/-- The lines of a throwable and its stack trace. -/
def traceLines (m : Machine) (r : Ref) : List String :=
  m.describe r :: (m.objectAt r).trace.map fun e => s!"\tat {e.text}"

/-- The lines of the causes of a throwable, each once. -/
def causeLines (m : Machine) : Nat → List Ref → Option Ref → List String
  | 0, _, _ => []
  | _, _, none => []
  | n + 1, seen, some r =>
    if seen.contains r then []
    else
      match traceLines m r with
      | [] => []
      | first :: rest => s!"Caused by: {first}" :: rest ++ causeLines m n (r :: seen) (m.causeOf r)

/-- The text of a throwable with its stack trace and its causes. -/
def traceText (m : Machine) (r : Ref) : String :=
  String.join ((traceLines m r ++ causeLines m m.heap.size [r] (m.causeOf r)).map (· ++ "\n"))

end JavaMachine.Throwing

namespace JavaMachine

/-- What an instruction works with: the operations of the machine, and what becomes of what it raises. -/
structure Context extends Services where
  raise : Throwing.Raise → M Unit

/-- What is raised is thrown. -/
def Throwing.context (s : Services) : Context := { s with raise := raise s }

instance : Coe Services Context := ⟨Throwing.context⟩

namespace Context

/-- Raises a new exception of a class. -/
def throwNew (s : Context) (name message : String) : M Unit := s.raise (.new name message)

/-- Raises a `StackOverflowError`. -/
def throwStackOverflow (s : Context) : M Unit := s.throwNew Throwables.stackOverflow ""

/-- Runs an attempt and goes on with its value; a failure is raised. -/
def orThrow (s : Context) (act : Attempt α) (next : α → M Unit) : M Unit := do
  match ← act.run with
  | .ok a => next a
  | .error f => s.raise (.failure f)

end Context

end JavaMachine
