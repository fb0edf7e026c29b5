import JavaMachine.Machine.Slot

/-!
Operand stacks: an array of slots of which the first `size` are in use. The others are kept zero. Pushing
on a full stack and popping from one that is too short are faults of the code.
-/

namespace JavaMachine

/-- A bounded stack of slots. -/
structure OperandStack where
  slots : Slots
  size : Nat := 0
deriving DecidableEq, Repr, Inhabited

/-- Why an operation on a stack fails. -/
inductive StackFault where
  | overflow (max : Nat)
  | underflow
  | peek (depth : Int) (size : Nat)
  | popping (count size : Nat)
deriving DecidableEq, Repr

/-- The text of a fault. -/
def StackFault.message : StackFault → String
  | .overflow max => s!"operand stack overflow (max {max})"
  | .underflow => "operand stack underflow"
  | .peek n size => s!"operand stack peek {n} with size {size}"
  | .popping n size => s!"operand stack underflow popping {n} of {size}"

namespace OperandStack

/-- An action on a stack; what was done before a fault stays done. -/
abbrev Action (α : Type) := EStateM StackFault OperandStack α

/-- An empty stack of a capacity. -/
def ofCapacity (n : Nat) : OperandStack := { slots := Slots.ofSize n }

/-- The slots in use, bottom first. -/
def toList (s : OperandStack) : List Slot := (s.slots.extract 0 s.size).toList

/-- Pushes a slot. -/
def push (v : Slot) : Action Unit := fun s =>
  if s.slots.size ≤ s.size then .error (.overflow s.slots.size) s
  else .ok () { slots := s.slots.setIfInBounds s.size v, size := s.size + 1 }

/-- Pops a slot and clears its cell. -/
def pop : Action Slot := fun s =>
  match s.size with
  | 0 => .error .underflow s
  | n + 1 => .ok (s.slots.getD n .null) { slots := s.slots.setIfInBounds n .null, size := n }

/-- The slot at a depth below the top. -/
def peek (depth : Int) : Action Slot := fun s =>
  if depth < 0 ∨ (s.size : Int) ≤ depth then .error (.peek depth s.size) s
  else .ok (s.slots.getD (s.size - 1 - depth.toNat) .null) s

/-- Clears cells from a position on. -/
def clearFrom (slots : Slots) (start : Nat) : Nat → Slots
  | 0 => slots
  | n + 1 => clearFrom (slots.setIfInBounds start .null) (start + 1) n

/-- Drops every slot and clears its cell. -/
def clear : Action Unit := fun s => .ok () { slots := clearFrom s.slots 0 s.size, size := 0 }

/-- Pops the topmost `n` slots, which keep their order. -/
def popMany (n : Nat) : Action (List Slot) := fun s =>
  if s.size < n then .error (.popping n s.size) s
  else
    let base := s.size - n
    .ok (s.slots.extract base s.size).toList { slots := clearFrom s.slots base n, size := base }

/-- Pushes slots in order. -/
def pushAll : List Slot → Action Unit
  | [] => pure ()
  | v :: rest => do
    push v
    pushAll rest

/-- Pushes a number. -/
def pushInt (v : Int32) : Action Unit := push (.num v)

/-- Pops a number. -/
def popInt : Action Int32 := return (← pop).int

/-- Pushes a reference. -/
def pushRef (r : Option Ref) : Action Unit := push (.ofRef r)

/-- Pops a reference. -/
def popRef : Action (Option Ref) := return (← pop).ref?

/-- Pushes a truth value. -/
def pushBool (b : Bool) : Action Unit := push (.ofBool b)

/-- Pushes a float. -/
def pushFloat (bits : UInt32) : Action Unit := push (.ofFloat bits)

/-- Pops a float. -/
def popFloat : Action UInt32 := return (← pop).float

/-- Pushes a long, the low half first. -/
def pushLong (v : Int64) : Action Unit := do
  push (.lowHalf v)
  push (.highHalf v)

/-- Pops a long. -/
def popLong : Action Int64 := do
  let hi ← pop
  let lo ← pop
  return Slot.joinLong lo hi

/-- Pushes a double. -/
def pushDouble (bits : UInt64) : Action Unit := pushLong bits.toInt64

/-- Pops a double. -/
def popDouble : Action UInt64 := return (← popLong).toUInt64

end OperandStack

end JavaMachine
