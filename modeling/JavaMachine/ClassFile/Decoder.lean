import JavaMachine.ClassFile.Fault

/-!
Decoders of bytes: a decoder reads from the front of what is left and stops at the first fault. Reads
know their offset, which a shortage reports.
-/

namespace JavaMachine

open BigEndian

/-- What is left to read, and how much was read before it. -/
structure Input where
  rest : List UInt8
  offset : Nat := 0
deriving DecidableEq, Repr

/-- A reader of values from the front of an input. -/
abbrev Decoder (α : Type) := StateT Input (Except FormatFault) α

namespace Decoder

/-- The first `n` elements and the others, if there are so many. -/
def split? : Nat → List α → Option (List α × List α)
  | 0, xs => some ([], xs)
  | _ + 1, [] => none
  | n + 1, x :: xs => (split? n xs).map fun p => (x :: p.1, p.2)

/-- The failure of a read of `n` bytes. -/
def shortage (n : Nat) (i : Input) : FormatFault :=
  .short ⟨Int64.ofNat n, Int64.ofNat i.offset, Int64.ofNat i.rest.length⟩

/-- Reads `n` bytes. -/
def bytes (n : Nat) : Decoder (List UInt8) := fun i =>
  match split? n i.rest with
  | some (front, rest) => .ok (front, ⟨rest, i.offset + n⟩)
  | none => .error (shortage n i)

/-- Reads a byte. -/
def u8 : Decoder UInt8 := fun i =>
  match i.rest with
  | a :: rest => .ok (a, ⟨rest, i.offset + 1⟩)
  | _ => .error (shortage 1 i)

/-- Reads a 16-bit word. -/
def u16 : Decoder UInt16 := fun i =>
  match i.rest with
  | a :: b :: rest => .ok (word16 a b, ⟨rest, i.offset + 2⟩)
  | _ => .error (shortage 2 i)

/-- Reads a 32-bit word. -/
def u32 : Decoder UInt32 := fun i =>
  match i.rest with
  | a :: b :: c :: d :: rest => .ok (word32 a b c d, ⟨rest, i.offset + 4⟩)
  | _ => .error (shortage 4 i)

/-- Reads a 64-bit word. -/
def u64 : Decoder UInt64 := fun i =>
  match i.rest with
  | a :: b :: c :: d :: e :: f :: g :: h :: rest =>
    .ok (join32 (word32 a b c d) (word32 e f g h), ⟨rest, i.offset + 8⟩)
  | _ => .error (shortage 8 i)

/-- Stops with a fault. -/
def fail (f : FormatFault) : Decoder α := fun _ => .error f

/-- Reads the same thing a number of times. -/
def repeated : Nat → Decoder α → Decoder (List α)
  | 0, _ => pure []
  | n + 1, d => do
    let x ← d
    let xs ← repeated n d
    return x :: xs

/-- Reads a number of things that are told their place. -/
def indexed (d : Nat → Decoder α) : Nat → Nat → Decoder (List α)
  | _, 0 => pure []
  | i, n + 1 => do
    let x ← d i
    let xs ← indexed d (i + 1) n
    return x :: xs

/-- Reads a count and that many things. -/
def counted (d : Decoder α) : Decoder (List α) := do
  let n ← u16
  repeated n.toNat d

/-- Reads a count and that many words, which must all be there. -/
def table : Decoder (List UInt16) := fun i =>
  match u16 i with
  | .error f => .error f
  | .ok (n, j) =>
    match split? (2 * n.toNat) j.rest with
    | none => .error (shortage (2 * n.toNat) j)
    | some _ => repeated n.toNat u16 j

/-- Renames the faults of a decoder. -/
def mapFault (g : FormatFault → FormatFault) (d : Decoder α) : Decoder α := fun i =>
  match d i with
  | .error f => .error (g f)
  | .ok r => .ok r

/-- Names the part that a decoder reads. -/
def inside (p : Part) (d : Decoder α) : Decoder α := mapFault (.inside p) d

/-- How many bytes are left. -/
def remaining : Decoder Nat := fun i => .ok (i.rest.length, i)

/-- Takes the result of a pool lookup. -/
def lookup (r : Except IndexFault α) : Decoder α := fun i =>
  match r with
  | .ok x => .ok (x, i)
  | .error f => .error (.index f)

end Decoder

end JavaMachine
