import JavaMachine.Code.Disassembly
import JavaMachine.Machine.Execute.Arithmetic
import JavaMachine.Machine.Execute.Call
import JavaMachine.Machine.Execute.Control
import JavaMachine.Machine.Execute.Object
import JavaMachine.Machine.Execute.Stack

/-!
The interpreter: one step executes the instruction at the next position of the innermost frame, and a run
makes steps until the innermost frame is none that runs code. A call from outside is a run above a barrier.

The operations that need each other without end are tied together by `services`, level by level: at level
`n + 1` each of them uses level `n`, and a run makes at most `n` steps.
-/

namespace JavaMachine.Interpreter

open M Throwing

/-- Executes an instruction. -/
def execute (natives : Natives) (s : Context) : Instruction → M Unit
  | .nop => return ()
  | .push slots => onStack (OperandStack.pushAll slots)
  | .constant index => Execute.constant s index
  | .wideConstant index => Execute.wideConstant index
  | .load wide index => Execute.load wide index
  | .store wide index => Execute.store wide index
  | .increment index delta => Execute.increment index delta
  | .arrayLoad kind => Execute.arrayLoad s kind
  | .arrayStore kind => Execute.arrayStore s kind
  | .stack op => onStack (Execute.rearrange op)
  | .int op => Execute.int s op
  | .long op => Execute.long s op
  | .shiftInt op => do
    let distance ← popInt
    pushInt (Execute.shiftInt op (← popInt) distance)
  | .shiftLong op => do
    let distance ← popInt
    pushLong (Execute.shiftLong op (← popLong) distance)
  | .float op => do
    let b ← popFloat
    pushFloat (Execute.singleResult op (← popFloat) b)
  | .double op => do
    let b ← popDouble
    pushDouble (Execute.doubleResult op (← popDouble) b)
  | .negate kind => Execute.negate kind
  | .convert c => Execute.convert c
  | .compareLongs => do
    let b ← popLong
    pushInt (Execute.compareLongs (← popLong) b)
  | .compareFloats nan => do
    let b ← popFloat
    let a ← popFloat
    pushInt (Double.compare (Single.toDouble a) (Single.toDouble b) nan)
  | .compareDoubles nan => do
    let b ← popDouble
    let a ← popDouble
    pushInt (Double.compare a b nan)
  | .branch condition offset => Execute.branch condition offset
  | .callSubroutine offset => Execute.callSubroutine offset
  | .endSubroutine index => Execute.endSubroutine index
  | .select table => Execute.select table
  | .finish width => Execute.finish width
  | .getStatic index => Execute.getStatic s index
  | .putStatic index => Execute.putStatic s index
  | .getField index => Execute.getField s index
  | .putField index => Execute.putField s index
  | .call kind index => Execute.call s kind index
  | .callDynamic _ => s.throwNew Throwables.internal "invokedynamic is not supported"
  | .new index => Execute.new s index
  | .newArray code => Execute.newNumberArray s code
  | .newRefArray index => Execute.newRefArray s index
  | .newMultiArray index dimensions => Execute.newArrays s index dimensions
  | .arrayLength => Execute.pushLength s
  | .raise => do s.raise (.object (← popRef))
  | .checkCast index => Execute.checkCast s index
  | .instanceOf index => Execute.instanceOf s index
  | .monitor => Execute.monitor s
  | .native => Execute.native natives s

/-- Moves the innermost frame on to its next instruction. -/
def advance : M Activation := do
  let a ← activation
  recordRun a.method
  updateActivation fun a => { a with pc := a.nextPc }
  return a

/-- Executes the instruction at the next position of the innermost frame. -/
def step (natives : Natives) (s : Services) : M Unit := do
  let a ← advance
  match Instruction.read { code := a.method.code, pos := a.nextPc } with
  | .error (.outside pc) c => outside pc c.code.size
  | .error fault _ => throw (.code fault)
  | .ok (.undefined byte) _ => do
    let method ← methodText a.method
    let digits := Text.Hex.lower 2 byte.toNat
    fatal s!"{method}: undefined opcode 0x{digits} at pc {a.nextPc}"
  | .ok (.noWideForm byte) _ => fatal s!"wide applied to {Disassembly.nameOf byte}"
  | .ok (.instruction i) c => do
    updateActivation fun a => { a with nextPc := c.pos }
    execute natives s i

/-- Whether the innermost frame runs code. -/
def isRunning : M Bool := return ((← topFrame).bind Frame.activation?).isSome

/-- Makes steps until the innermost frame is none that runs code, at most `n`. -/
def run (natives : Natives) (s : Services) : Nat → M Unit
  | 0 => throw .stuck
  | n + 1 => do
    if ← isRunning then
      step natives s
      run natives s n

/-- The frame that carries the arguments of a call from outside and takes its result. -/
def shim (args : List Slot) : Frame :=
  let empty := OperandStack.ofCapacity (max args.length 2)
  match OperandStack.pushAll args empty with
  | .ok _ stack => .shim stack
  | .error _ stack => .shim stack

/-- Puts a barrier and the arguments of a call from outside on the frame stack, if they fit. -/
def pushCall (args : List Slot) : M Bool := do
  if ← pushFrame .barrier then pushFrame (shim args) else return false

/-- The result of a call from outside that was started above `depth` frames. -/
def callResult (method : Method) (depth : Nat) : M (Except Failure (List Slot)) := do
  match (← get).pending with
  | some exception =>
    modify fun m => { m with pending := none }
    return .error (.thrown (some exception))
  | none =>
    match (← get).frames with
    | .shim stack :: rest =>
      if rest.length = depth + 1 then return .ok stack.toList else lost
    | _ => lost
where
  lost : M (Except Failure (List Slot)) := do
    fatal s!"embedded call to {← methodText method} returned to the wrong frame"

/-- Runs a method above a barrier with argument slots, the receiver first. The frame stack is afterwards as
it was. -/
def embedded (natives : Natives) (s : Services) (fuel : Nat) (method : Method) (args : List Slot) :
    Attempt (List Slot) := do
  if args.length = method.argSlots then
    let depth ← M.depth
    ExceptT.mk (ensuring (body depth) (popTo depth))
  else
    throw (.plain
      s!"invoke {← methodText method}: got {args.length} argument slots, want {method.argSlots}")
where
  body (depth : Nat) : M (Except Failure (List Slot)) := do
    if ← pushCall args then
      Execute.enter s method
      run natives s fuel
      callResult method depth
    else return .error (.java Throwables.stackOverflow "" none)

/-- Calls a method from outside. -/
def invoke (natives : Natives) (s : Services) (fuel : Nat) (method : Method) (args : List Slot) :
    Attempt (List Slot) := do
  recordCall method
  embedded natives s fuel method args

/-- The operations at a level. -/
def services (natives : Natives) : Nat → Services
  | 0 => .silent
  | n + 1 => {
    load := fun l name => Linking.loadClass (services natives n) l name
    initClass := fun c => Initialization.initializeClass (services natives n) c
    invoke := fun method args => invoke natives (services natives n) n method args
    runInitializer := fun method => discard (embedded natives (services natives n) n method []) }

/-- A level beyond what any run reaches. -/
def levels : Nat := 0x1000000000000000

/-- The operations of the machine. -/
def full (natives : Natives) : Services := services natives levels

end JavaMachine.Interpreter

namespace JavaMachine.Services

/-- Calls the method that the class of a receiver has for a name and a descriptor. -/
def invokeVirtual (s : Services) (receiver : Option Ref) (name desc : String) (args : List Slot) :
    Attempt (List Slot) := do
  match receiver with
  | none => Attempt.fail Throwables.nullPointer ""
  | some r =>
    let m ← get
    let owner := m.classOf r
    match m.lookupMethod owner name desc with
    | some method =>
      if method.isStatic then missing (m.classAt owner) else s.invoke method (.ref r :: args)
    | none => missing (m.classAt owner)
where
  missing (k : Class) : Attempt (List Slot) :=
    Attempt.fail Throwables.noSuchMethod s!"{k.javaName}.{name}{desc}"

/-- Initializes a class and calls a static method that it declares. -/
def invokeStatic (s : Services) (c : ClassId) (name desc : String) (args : List Slot) :
    Attempt (List Slot) := do
  let k ← M.classAt c
  match k.findMethod name desc with
  | some method =>
    if method.isStatic then
      s.initClass c
      s.invoke method args
    else invokeVirtual.missing name desc k
  | none => invokeVirtual.missing name desc k

end JavaMachine.Services
