import JavaMachine.Machine.Instruction
import JavaMachine.Machine.State

/-!
Instructions that only move slots: rearrangements of the operand stack, and loads and stores of local
variables. A long or a double is moved as its two halves.
-/

namespace JavaMachine.Execute

open M

/-- Rearranges the operand stack. -/
def rearrange : StackOp → OperandStack.Action Unit
  | .pop => discard OperandStack.pop
  | .pop2 => do
    let _ ← OperandStack.pop
    let _ ← OperandStack.pop
  | .dup => do OperandStack.push (← OperandStack.peek 0)
  | .dupX1 => do
    let a ← OperandStack.pop
    let b ← OperandStack.pop
    OperandStack.pushAll [a, b, a]
  | .dupX2 => do
    let a ← OperandStack.pop
    let b ← OperandStack.pop
    let c ← OperandStack.pop
    OperandStack.pushAll [a, c, b, a]
  | .dup2 => do
    let a ← OperandStack.peek 0
    let b ← OperandStack.peek 1
    OperandStack.pushAll [b, a]
  | .dup2X1 => do
    let a ← OperandStack.pop
    let b ← OperandStack.pop
    let c ← OperandStack.pop
    OperandStack.pushAll [b, a, c, b, a]
  | .dup2X2 => do
    let a ← OperandStack.pop
    let b ← OperandStack.pop
    let c ← OperandStack.pop
    let d ← OperandStack.pop
    OperandStack.pushAll [b, a, d, c, b, a]
  | .swap => do
    let a ← OperandStack.pop
    let b ← OperandStack.pop
    OperandStack.pushAll [a, b]

/-- Pushes a local variable. -/
def load (wide : Bool) (index : Nat) : M Unit := do
  push (← onLocals (Slots.read index))
  if wide then push (← onLocals (Slots.read (index + 1)))

/-- Pops a local variable, the low half of a wide one first. -/
def store (wide : Bool) (index : Nat) : M Unit := do
  if wide then
    let hi ← pop
    let lo ← pop
    onLocals (Slots.write index lo)
    onLocals (Slots.write (index + 1) hi)
  else
    let v ← pop
    onLocals (Slots.write index v)

/-- Adds to a local variable. -/
def increment (index : Nat) (delta : Int32) : M Unit := do
  let v ← localInt index
  onLocals (Slots.write index (.num (v + delta)))

end JavaMachine.Execute
