import JavaMachine.Inspect.Machine
import JavaMachine.Machine.Interpreter

/-!
Tracing a call step by step: a row for each instruction with the frame stack before and after.
-/

namespace JavaMachine.Trace

open M Interpreter

/-- A slot of an operand stack: the class of an object, or a number. -/
def slotReport (m : Machine) : Slot → Report
  | .ref r => .text ("@" ++ (m.classAt (m.classOf r)).name)
  | .num v => .int v.toInt

/-- The name of the instruction at a position of a method. -/
def mnemonicAt (method : Method) (pc : Int) : String :=
  match if pc < 0 then none else method.code[pc.toNat]? with
  | some b => Disassembly.nameOf b
  | none => "?"

/-- Makes a step and reports it. -/
def row (natives : Natives) (s : Services) (a : Activation) : M Report := do
  let before := (← get).frames.length
  step natives s
  let m ← get
  let stack := (m.frames.head?.map (·.stack.toList)).getD []
  return .list [.int ((before : Int) - 2), .text a.method.name, .int a.nextPc,
    .text (mnemonicAt a.method a.nextPc), .int ((m.frames.length : Int) - 2),
    .list (stack.map (slotReport m))]

/-- Makes at most `n` steps with a row for each; says whether the call has ended. -/
def rows (natives : Natives) (s : Services) : Nat → M (List Report × Bool)
  | 0 => return ([], !(← isRunning))
  | n + 1 => do
    match (← topFrame).bind Frame.activation? with
    | none => return ([], true)
    | some a =>
      let r ← row natives s a
      let (rest, done) ← rows natives s n
      return (r :: rest, done)

/-- Traces a call from outside: its rows, and its result or exception if it ended. -/
def call (natives : Natives) (s : Services) (limit : Nat) (method : Method) (args : List Slot) :
    Attempt (List Report × Option (Except Failure (List Slot))) := do
  let depth ← M.depth
  ExceptT.mk (ensuring (body depth) (popTo depth))
where
  body (depth : Nat) : M (Except Failure (List Report × Option (Except Failure (List Slot)))) := do
    if ← pushCall args then
      Execute.enter s method
      let (log, done) ← rows natives s limit
      if done then return .ok (log, some (← callResult method depth)) else return .ok (log, none)
    else return .error (.java Throwables.stackOverflow "" none)

end JavaMachine.Trace
