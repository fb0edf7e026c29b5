import JavaMachine.Bytes.BigEndian

/-!
Sequential reading and writing of words, byte strings and tables. A `Cursor` keeps its first failure:
after it every read gives zero and neither the position nor the failure changes, so a caller may check
once after a group of reads. Positions and lengths are 64-bit words, as lengths come from outside.
-/

namespace JavaMachine

open BigEndian

/-- Fewer bytes were left than a read asked for. -/
structure Shortage where
  wanted : Int64
  offset : Int64
  left : Int64
deriving DecidableEq, Repr

/-- A reading position in a buffer with the first failure. -/
structure Cursor where
  data : Array UInt8
  pos : Int64 := 0
  failure : Option Shortage := none
deriving DecidableEq, Repr

/-- A read that the buffer's bounds cannot serve although the length test let it pass. -/
inductive Cursor.Crash where
  | outOfBounds
deriving DecidableEq, Repr

namespace Cursor

/-- A cursor at the start of a buffer. -/
def ofBytes (bytes : List UInt8) : Cursor := { data := bytes.toArray }

/-- The length of the buffer. -/
def length (c : Cursor) : Int64 := Int64.ofNat c.data.size

/-- How many bytes are unread. -/
def remaining (c : Cursor) : Int64 := c.length - c.pos

/-- Checks that `n` bytes can be read; the first time they cannot, the failure is kept. -/
def need (c : Cursor) (n : Int64) : Bool × Cursor :=
  if c.failure.isSome then (false, c)
  else if n < 0 ∨ c.length < c.pos + n then
    (false, { c with failure := some ⟨n, c.pos, c.remaining⟩ })
  else (true, c)

/-- The byte at a distance from the position. -/
def byteAt (c : Cursor) (k : Nat) : UInt8 := c.data.getD (c.pos.toInt.toNat + k) 0

/-- Reads a value of fixed width. -/
def fixed (c : Cursor) (width : Int64) (zero : α) (value : Cursor → α) : Except Crash (α × Cursor) :=
  let (ready, c) := c.need width
  if ready then
    if c.pos < 0 then .error .outOfBounds
    else .ok (value c, { c with pos := c.pos + width })
  else .ok (zero, c)

/-- Reads one byte. -/
def u8 (c : Cursor) : Except Crash (UInt8 × Cursor) := c.fixed 1 0 fun c => c.byteAt 0

/-- Reads a 16-bit word. -/
def u16 (c : Cursor) : Except Crash (UInt16 × Cursor) :=
  c.fixed 2 0 fun c => word16 (c.byteAt 0) (c.byteAt 1)

/-- Reads a 32-bit word. -/
def u32 (c : Cursor) : Except Crash (UInt32 × Cursor) :=
  c.fixed 4 0 fun c => word32 (c.byteAt 0) (c.byteAt 1) (c.byteAt 2) (c.byteAt 3)

/-- Reads a 64-bit word. -/
def u64 (c : Cursor) : Except Crash (UInt64 × Cursor) :=
  c.fixed 8 0 fun c =>
    join32 (word32 (c.byteAt 0) (c.byteAt 1) (c.byteAt 2) (c.byteAt 3))
      (word32 (c.byteAt 4) (c.byteAt 5) (c.byteAt 6) (c.byteAt 7))

/-- Reads `n` bytes. -/
def bytes (c : Cursor) (n : Int64) : Except Crash (List UInt8 × Cursor) :=
  let (ready, c) := c.need n
  if ready then
    if c.pos < 0 ∨ c.remaining < n then .error .outOfBounds
    else
      let start := c.pos.toInt.toNat
      .ok ((c.data.extract start (start + n.toInt.toNat)).toList, { c with pos := c.pos + n })
  else .ok ([], c)

/-- Advances past `n` bytes. -/
def skip (c : Cursor) (n : Int64) : Cursor :=
  let (ready, c) := c.need n
  if ready then { c with pos := c.pos + n } else c

/-- Reads the given number of 16-bit words. -/
def words : Nat → Cursor → Except Crash (List UInt16 × Cursor)
  | 0, c => .ok ([], c)
  | n + 1, c => do
    let (v, c) ← c.u16
    let (vs, c) ← words n c
    return (v :: vs, c)

/-- Reads a count and that many 16-bit words. -/
def table (c : Cursor) : Except Crash (List UInt16 × Cursor) := do
  let (count, c) ← c.u16
  let (ready, c) := c.need (Int64.ofNat (2 * count.toNat))
  if ready then words count.toNat c else return ([], c)

end Cursor

/-- What a buffer can be written with. -/
inductive Chunk where
  | u8 (v : UInt8)
  | u16 (v : UInt16)
  | u32 (v : UInt32)
  | u64 (v : UInt64)
  | bytes (bs : List UInt8)
  | table (vs : List UInt16)
deriving DecidableEq, Repr

/-- A count and the words. -/
def tableBytes (vs : List UInt16) : List UInt8 :=
  bytes16 (UInt16.ofNat vs.length) ++ vs.flatMap bytes16

/-- The bytes that a chunk adds. -/
def Chunk.encode : Chunk → List UInt8
  | .u8 v => [v]
  | .u16 v => bytes16 v
  | .u32 v => bytes32 v
  | .u64 v => bytes64 v
  | .bytes bs => bs
  | .table vs => tableBytes vs

end JavaMachine
