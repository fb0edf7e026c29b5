import JavaMachine.Bytes.BigEndian

/-!
Slots, the 32-bit cells of locals, operand stacks and fields. A slot holds a number or a reference; the
null reference is the number zero. A long or a double takes two slots, its low half first.
-/

namespace JavaMachine

open BigEndian

/-- The place of an object in the heap. -/
structure Ref where
  index : Nat
deriving DecidableEq, Repr, Inhabited, Hashable

/-- A cell. -/
inductive Slot where
  | num (v : Int32)
  | ref (r : Ref)
deriving DecidableEq, Repr

namespace Slot

/-- The null reference and the number zero. -/
def null : Slot := .num 0

instance : Inhabited Slot := ⟨null⟩

/-- A reference that may be null. -/
def ofRef : Option Ref → Slot
  | some r => .ref r
  | none => null

/-- The number; a reference has the number zero. -/
def int : Slot → Int32
  | .num v => v
  | .ref _ => 0

/-- The reference; a number is null. -/
def ref? : Slot → Option Ref
  | .num _ => none
  | .ref r => some r

/-- The bits of a single-precision float. -/
def float (s : Slot) : UInt32 := s.int.toUInt32

/-- A slot with the bits of a float. -/
def ofFloat (bits : UInt32) : Slot := .num bits.toInt32

/-- One for true and zero for false. -/
def ofBool (b : Bool) : Slot := .num (if b then 1 else 0)

/-- Whether the number is not zero. -/
def bool (s : Slot) : Bool := s.int != 0

/-- The low half of a long. -/
def lowHalf (v : Int64) : Slot := .num v.toUInt64.toUInt32.toInt32

/-- The high half of a long. -/
def highHalf (v : Int64) : Slot := .num (v.toUInt64 >>> 32).toUInt32.toInt32

/-- The long of two halves. -/
def joinLong (lo hi : Slot) : Int64 := (join32 hi.int.toUInt32 lo.int.toUInt32).toInt64

/-- The bits of the double of two halves. -/
def joinDouble (lo hi : Slot) : UInt64 := (joinLong lo hi).toUInt64

end Slot

/-- Slots addressed by number: local variables, fields and static variables. -/
abbrev Slots := Array Slot

/-- An access outside a slot vector. -/
structure OutOfSlots where
  index : Int
deriving DecidableEq, Repr

namespace Slots

/-- An action on a slot vector; what was written before a failed access stays. -/
abbrev Action (α : Type) := EStateM OutOfSlots Slots α

/-- A vector of zeros. -/
def ofSize (n : Nat) : Slots := Array.replicate n Slot.null

/-- Reads a slot. -/
def read (i : Int) : Action Slot := fun s =>
  if i < 0 then .error ⟨i⟩ s
  else
    match s[i.toNat]? with
    | some v => .ok v s
    | none => .error ⟨i⟩ s

/-- Writes a slot. -/
def write (i : Int) (v : Slot) : Action Unit := fun s =>
  if i < 0 then .error ⟨i⟩ s
  else if i.toNat < s.size then .ok () (s.setIfInBounds i.toNat v)
  else .error ⟨i⟩ s

/-- Reads a long from two slots. -/
def readLong (i : Int) : Action Int64 := do
  let lo ← read i
  let hi ← read (i + 1)
  return Slot.joinLong lo hi

/-- Writes a long to two slots, the low half first. -/
def writeLong (i : Int) (v : Int64) : Action Unit := do
  write i (.lowHalf v)
  write (i + 1) (.highHalf v)

/-- Reads the one or two slots of a value. -/
def readValue (i : Int) (wide : Bool) : Action (List Slot) := do
  let lo ← read i
  if wide then return [lo, ← read (i + 1)] else return [lo]

end Slots

end JavaMachine
