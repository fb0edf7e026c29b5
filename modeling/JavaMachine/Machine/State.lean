import JavaMachine.ClassPath.Entry
import JavaMachine.Code.Cursor
import JavaMachine.Machine.Class
import JavaMachine.Machine.Memory
import JavaMachine.Machine.Object
import JavaMachine.Machine.OperandStack
import Std.Data.TreeMap

/-!
The state of the machine, and the actions on it. An action ends with a value or halts the machine; what it
did before it halted stays done. Failures that Java code can see are values, not halts.

The journal of class initialization is a part of the state: what became of each class, the latest first. So is a note
that a reference was stored by direct access, where nothing tests its class. The machine writes both and never reads them.
-/

/-! ## The journal -/

namespace JavaMachine

/-- What is noted of a class: a state that it enters, that it is given up as erroneous because the
initialization of its superclass failed, that its initializer is put on the frame stack to initialize it,
that an initializer is called like any other method, and that an initializer executes instructions. -/
inductive Event where
  | state (c : ClassId) (s : ClassState)
  | abandoned (c : ClassId)
  | pushed (c : ClassId)
  | called (c : ClassId)
  | ran (c : ClassId)
deriving DecidableEq, Repr

/-- Events, the latest first. -/
abbrev Journal := List Event

namespace Journal

/-- The state that a class entered last; one that entered none is not linked. -/
def stateOf : Journal → ClassId → ClassState
  | [], _ => .unlinked
  | .state k s :: older, c => if k = c then s else stateOf older c
  | .abandoned k :: older, c => if k = c then .erroneous else stateOf older c
  | _ :: older, c => stateOf older c

end Journal

/-! ## The state -/

/-- The activation of a method. Its `pc` is -1 until its first instruction, and one that never started
cannot catch exceptions. -/
structure Activation where
  method : Method
  locals : Slots
  stack : OperandStack
  pc : Int := -1
  nextPc : Int := 0
deriving Repr, Inhabited

/-- A frame of a thread. A call from outside is bounded by a barrier, and a shim above the barrier carries
its arguments and takes its result. -/
inductive Frame where
  | barrier
  | shim (stack : OperandStack)
  | active (a : Activation)
deriving Repr, Inhabited

namespace Frame

/-- A frame that is about to start a method. -/
def ofMethod (m : Method) : Frame :=
  .active { method := m, locals := Slots.ofSize m.maxLocals, stack := OperandStack.ofCapacity m.maxStack }

/-- The operand stack of a frame. -/
def stack : Frame → OperandStack
  | .barrier => OperandStack.ofCapacity 0
  | .shim s => s
  | .active a => a.stack

/-- A frame with another operand stack. -/
def withStack (f : Frame) (s : OperandStack) : Frame :=
  match f with
  | .barrier => .barrier
  | .shim _ => .shim s
  | .active a => .active { a with stack := s }

/-- The activation of a frame that runs code. -/
def activation? : Frame → Option Activation
  | .active a => some a
  | _ => none

end Frame

/-- How a machine is set up. -/
structure Options where
  classPath : Entry
  userClassPath : String := ""
  javaHome : String := ""
  maxDepth : Nat := 1024
  verbose : Bool := false
  systemLoader : Bool := false
  properties : List (String × String) := []
deriving Inhabited

/-- The classes that a loader knows, the latest first, and those it is defining. -/
structure Loader where
  mirror : Option Ref := none
  classes : List (String × ClassId) := []
  defining : List String := []
deriving Inhabited

/-- A thread of the program. -/
structure Thread where
  name : String
  mirror : Option Ref := none
  alive : Bool := true
  interrupted : Bool := false
deriving Inhabited

/-- Why the machine stops: a broken invariant, an access that the machine's own data cannot serve, the
program's wish, code that cannot be read, or no hope of an end. -/
inductive Halt where
  | fatal (message : String)
  | crash (text : String)
  | exit (status : Int32)
  | code (fault : CodeFault)
  | stuck
deriving DecidableEq, Repr

/-- An access through null. -/
def Halt.null : Halt := .crash "runtime error: invalid memory address or nil pointer dereference"

/-- An access outside a vector. -/
def Halt.index (i : Int) (length : Nat) : Halt :=
  .crash (if i < 0 then s!"runtime error: index out of range [{i}]"
    else s!"runtime error: index out of range [{i}] with length {length}")

/-- The state of the machine. The frames, the pending exception and the overflow mark are those of the
thread that runs; the innermost frame is the first. -/
structure Machine where
  options : Options
  storage : Storage := {}
  classes : Array Class := #[]
  heap : Array Object := #[]
  loaders : Array Loader := #[{}]
  primitives : List (String × ClassId) := []
  interned : Std.TreeMap (List UInt8) Ref compare := {}
  threads : Array Thread := #[]
  waiting : List Nat := []
  current : Nat := 0
  frames : List Frame := []
  pending : Option Ref := none
  overflowing : Bool := false
  classClass : Option ClassId := none
  stringClass : Option ClassId := none
  charArrayClass : Option ClassId := none
  stdout : Array UInt8 := #[]
  stderr : Array UInt8 := #[]
  stdin : List UInt8 := []
  classesLoaded : Nat := 0
  classBytes : Nat := 0
  started : Bool := false
  systemLoader : Option Ref := none
  memory : NativeMemory := {}
  threadHalt : Option Halt := none
  hashSeed : Int32 := 0
  journal : Journal := []
  unchecked : Bool := false

/-- An action of the machine. -/
abbrev M := EStateM Halt Machine

/-- The class of a number. -/
def Machine.classAt (m : Machine) (c : ClassId) : Class := m.classes.getD c.index default

/-- The object of a reference. -/
def Machine.objectAt (m : Machine) (r : Ref) : Object := m.heap.getD r.index default

/-- The loader of a number. -/
def Machine.loaderAt (m : Machine) (l : Nat) : Loader := m.loaders.getD l default

/-- The machine with an event noted. -/
def Machine.note (m : Machine) (e : Event) : Machine := { m with journal := e :: m.journal }

/-- The machine in which a class has entered a state, noted as an event. -/
def Machine.enter (m : Machine) (c : ClassId) (state : ClassState) (e : Event) : Machine :=
  { m with
    classes := m.classes.modify c.index fun k => { k with state }
    journal := e :: m.journal }

/-- The class of an object. -/
def Machine.classOf (m : Machine) (r : Ref) : ClassId := (m.objectAt r).owner

namespace M

/-- Stops at a broken invariant. -/
def fatal (message : String) : M α := throw (.fatal message)

/-- Stops at an access through null. -/
def crash : M α := throw .null

/-- Stops at an access outside a vector. -/
def outside (i : Int) (length : Nat) : M α := throw (.index i length)

/-- The value, where there has to be one. -/
def some! (v : Option α) : M α :=
  match v with
  | some a => pure a
  | none => crash

/-- Stops for a reason, if there is one. -/
def haltFor : Option Halt → M Unit
  | none => pure ()
  | some h => throw h

/-- Runs an action, and a last change whether it halts or not. -/
def ensuring (act : M α) (last : Machine → Machine) : M α := fun m =>
  match act m with
  | .ok a m => .ok a (last m)
  | .error h m => .error h (last m)

/-- A class of the machine. -/
def classAt (c : ClassId) : M Class := fun m => .ok (m.classAt c) m

/-- Changes a class. -/
def updateClass (c : ClassId) (f : Class → Class) : M Unit :=
  modify fun m => { m with classes := m.classes.modify c.index f }

/-- Notes an event. -/
def record (e : Event) : M Unit := modify fun m => m.note e

/-- Notes that an initializer executes instructions, once for instructions in a row. -/
def recordRun (method : Method) : M Unit := modify fun m =>
  if method.isClinit && m.journal.head? != some (.ran method.owner) then m.note (.ran method.owner) else m

/-- Notes the call of an initializer. -/
def recordCall (method : Method) : M Unit := do
  if method.isClinit then record (.called method.owner)

/-- Lets a class enter a state. -/
def setState (c : ClassId) (state : ClassState) : M Unit := modify fun m => m.enter c state (.state c state)

/-- An object of the heap. -/
def objectAt (r : Ref) : M Object := fun m => .ok (m.objectAt r) m

/-- Changes an object. -/
def updateObject (r : Ref) (f : Object → Object) : M Unit :=
  modify fun m => { m with heap := m.heap.modify r.index f }

/-- The number of the class of an object. -/
def classIdOf (r : Ref) : M ClassId := fun m => .ok (m.classOf r) m

/-- The class of an object. -/
def classOf (r : Ref) : M Class := fun m => .ok (m.classAt (m.classOf r)) m

/-! ## Frames -/

/-- How many frames there are. -/
def depth : M Nat := fun m => .ok m.frames.length m

/-- The innermost frame. -/
def topFrame : M (Option Frame) := fun m => .ok m.frames.head? m

/-- How many frames a thread may have beyond its limit while an exception of the machine is built. -/
def reserve : Nat := 64

/-- How many frames a thread may have now. -/
def frameLimit (m : Machine) : Nat := m.options.maxDepth + if m.overflowing then reserve else 0

/-- Adds a frame unless the limit is reached. -/
def pushFrame (f : Frame) : M Bool := do
  let m ← get
  if frameLimit m ≤ m.frames.length then
    if m.overflowing then fatal "stack overflow while constructing a runtime exception" else return false
  else
    modify fun m => { m with frames := f :: m.frames }
    return true

/-- Takes away the innermost frame. -/
def popFrame : M Frame := do
  match (← get).frames with
  | [] => fatal "pop from empty frame stack"
  | f :: rest =>
    modify fun m => { m with frames := rest }
    return f

/-- The frames that remain when all but the outermost `depth` are taken away. -/
def popTo (depth : Nat) (m : Machine) : Machine :=
  { m with frames := m.frames.drop (m.frames.length - depth) }

/-- The activation of the innermost frame. -/
def activation : M Activation := fun m =>
  match m.frames with
  | .active a :: _ => .ok a m
  | _ => .error .null m

/-- Changes the activation of the innermost frame. -/
def updateActivation (f : Activation → Activation) : M Unit := modify fun m =>
  match m.frames with
  | .active a :: rest => { m with frames := .active (f a) :: rest }
  | _ => m

/-- Acts on the operand stack of the innermost frame. -/
def onStack (act : OperandStack.Action α) : M α := fun m =>
  match m.frames with
  | [] => .error .null m
  | f :: rest =>
    match act f.stack with
    | .ok v s => .ok v { m with frames := f.withStack s :: rest }
    | .error e s => .error (.fatal e.message) { m with frames := f.withStack s :: rest }

/-- Acts on the local variables of the innermost frame. -/
def onLocals (act : Slots.Action α) : M α := fun m =>
  match m.frames with
  | .active a :: rest =>
    match act a.locals with
    | .ok v ls => .ok v { m with frames := .active { a with locals := ls } :: rest }
    | .error e ls =>
      .error (.index e.index ls.size) { m with frames := .active { a with locals := ls } :: rest }
  | _ => .error .null m

def push (v : Slot) : M Unit := onStack (OperandStack.push v)
def pop : M Slot := onStack OperandStack.pop
def pushInt (v : Int32) : M Unit := onStack (OperandStack.pushInt v)
def popInt : M Int32 := onStack OperandStack.popInt
def pushLong (v : Int64) : M Unit := onStack (OperandStack.pushLong v)
def popLong : M Int64 := onStack OperandStack.popLong
def pushFloat (v : UInt32) : M Unit := onStack (OperandStack.pushFloat v)
def popFloat : M UInt32 := onStack OperandStack.popFloat
def pushDouble (v : UInt64) : M Unit := onStack (OperandStack.pushDouble v)
def popDouble : M UInt64 := onStack OperandStack.popDouble
def pushRef (r : Option Ref) : M Unit := onStack (OperandStack.pushRef r)
def popRef : M (Option Ref) := onStack OperandStack.popRef
def pushBool (b : Bool) : M Unit := onStack (OperandStack.pushBool b)

/-- A local variable as a number. -/
def localInt (i : Nat) : M Int32 := return (← onLocals (Slots.read i)).int

/-- A local variable as a reference. -/
def localRef (i : Nat) : M (Option Ref) := return (← onLocals (Slots.read i)).ref?

/-- Two local variables as a long. -/
def localLong (i : Nat) : M Int64 := onLocals (Slots.readLong i)

/-- Two local variables as a double. -/
def localDouble (i : Nat) : M UInt64 := return (← localLong i).toUInt64

/-- The receiver of the method that runs, which has to be there. -/
def receiver : M Ref := do some! (← localRef 0)

/-! ## Streams -/

/-- Writes bytes to the standard output. -/
def writeOut (bytes : List UInt8) : M Unit := modify fun m => { m with stdout := m.stdout ++ bytes }

/-- Writes bytes to the error output. -/
def writeErr (bytes : List UInt8) : M Unit := modify fun m => { m with stderr := m.stderr ++ bytes }

/-- Acts on storage. A failure is a value, so that the machine goes on. -/
def onStorage (act : Storage.Action α) : M (Except ReadFault α) := fun m =>
  match act m.storage with
  | .ok a s => .ok (.ok a) { m with storage := s }
  | .error f s => .ok (.error f) { m with storage := s }

end M

end JavaMachine
