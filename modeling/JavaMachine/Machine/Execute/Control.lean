import JavaMachine.Machine.Instruction
import JavaMachine.Machine.Throwing

/-!
Branches, subroutines, switches and returns. A return address is an int with the position behind the call
of the subroutine.
-/

namespace JavaMachine.Execute

open M Throwing

/-- Whether a comparison of ints holds. -/
def holds : Comparison → Int32 → Int32 → Bool
  | .eq, a, b => a == b
  | .ne, a, b => a != b
  | .lt, a, b => a < b
  | .ge, a, b => b ≤ a
  | .gt, a, b => b < a
  | .le, a, b => a ≤ b

/-- Pops the operands of a condition and decides it. -/
def decideCondition : Condition → M Bool
  | .zero c => do return holds c (← popInt) 0
  | .ints c => do
    let b ← popInt
    let a ← popInt
    return holds c a b
  | .sameRef wanted => do
    let b ← popRef
    let a ← popRef
    return (a == b) == wanted
  | .isNull wanted => do return (← popRef).isNone == wanted
  | .always => return true

/-- Goes on at an offset from the instruction. -/
def jump (offset : Int32) : M Unit := updateActivation fun a => { a with nextPc := a.pc + offset.toInt }

/-- Branches if a condition holds. -/
def branch (condition : Condition) (offset : Int32) : M Unit := do
  if ← decideCondition condition then jump offset

/-- Pushes the return address and branches. -/
def callSubroutine (offset : Int32) : M Unit := do
  pushInt (Int32.ofInt (← activation).nextPc)
  jump offset

/-- Goes on at a return address. -/
def endSubroutine (index : Nat) : M Unit := do
  let address ← localInt index
  updateActivation fun a => { a with nextPc := address.toInt }

/-- Branches by a key. -/
def select (table : SwitchTable) : M Unit := do
  let key ← popInt
  match table.target? key with
  | some offset => jump offset
  | none => outside 0 0

/-- Pops the slots of a result, the low half first in the list. -/
def popResult : Nat → OperandStack.Action (List Slot)
  | 0 => return []
  | n + 1 => do
    let v ← OperandStack.pop
    return (← popResult n) ++ [v]

/-- Takes the innermost frame away at a return. The initializer of a class leaves it initialized. -/
def conclude (method : Method) : M Unit := do
  let _ ← popFrame
  if method.isClinit && (← isInitializing method.owner) then finishInit method.owner .initialized

/-- Ends the method that runs, and pushes its result on the frame below. -/
def finish (width : Nat) : M Unit := do
  let result ← onStack (popResult width)
  let a ← activation
  conclude a.method
  if (← topFrame).isSome then onStack (OperandStack.pushAll result)

end JavaMachine.Execute
