import JavaMachine.Archive.Inflate
import JavaMachine.Text.Utf8

/-!
Archives: a directory at the end lists the members, each with its name, method, sizes and the place of its
data. The directory is found from the end of the data. Reading goes on until a header is no header; only
then the count of members is checked, and only its low 16 bits. Data are checked by the 32-bit cyclic redundancy check
with the reversed polynomial 0xEDB88320.
-/

/-! ## Checksums -/

namespace JavaMachine.Archive

/-- Divides a remainder by the polynomial, bit by bit. -/
def checkBits : Nat → UInt32 → UInt32
  | 0, c => c
  | n + 1, c => checkBits n (if c &&& 1 = 1 then (c >>> 1) ^^^ 0xEDB88320 else c >>> 1)

/-- The remainders of all bytes. -/
def checkTable : Array UInt32 := ((List.range 256).map fun n => checkBits 8 (UInt32.ofNat n)).toArray

/-- The check of bytes. -/
def checksum (data : Array UInt8) : UInt32 :=
  let step (c : UInt32) (b : UInt8) : UInt32 :=
    checkTable.getD ((c ^^^ b.toUInt32) &&& 0xFF).toNat 0 ^^^ (c >>> 8)
  data.foldl step 0xFFFFFFFF ^^^ 0xFFFFFFFF

/-! ## Directories -/

open Text

/-- Why an archive or a member cannot be read. -/
inductive Fault where
  | format
  | algorithm
  | checksum
  | endOfData
  | unexpectedEnd
  | commentLength
  | negativeOffset (path : String)
  | corrupt (offset : Nat)
deriving DecidableEq, Repr

/-- The text of a fault. -/
def Fault.message : Fault → String
  | .format => "zip: not a valid zip file"
  | .algorithm => "zip: unsupported compression algorithm"
  | .checksum => "zip: checksum error"
  | .endOfData => "EOF"
  | .unexpectedEnd => "unexpected EOF"
  | .commentLength => "zip: invalid comment length"
  | .negativeOffset path => s!"readat {path}: negative offset"
  | .corrupt offset => s!"flate: corrupt input before offset {offset}"

/-- A member of an archive. -/
structure Member where
  name : String
  flags : Nat
  method : Nat
  check : UInt32
  packed : Nat
  size : Nat
  header : Int
deriving DecidableEq, Repr, Inhabited

/-- The little-endian number of a row of bytes. -/
def littleEndian (bytes : List UInt8) : Nat := bytes.foldr (fun b n => b.toNat + 256 * n) 0

/-- The number of `n` bytes at a place. -/
def numberAt (data : Array UInt8) (place n : Nat) : Nat :=
  littleEndian (data.extract place (place + n)).toList

/-- Reads exactly `n` bytes from a place on: no byte at all is the end of the data, fewer are unexpected. -/
def readFull (data : Array UInt8) (place n : Nat) : Except Fault (Array UInt8) :=
  let part := data.extract place (place + n)
  if part.size = n then .ok part
  else if part.isEmpty then .error .endOfData
  else .error .unexpectedEnd

/-- Reads `n` bytes at a place or fails at the end of the data. -/
def readAt (path : String) (data : Array UInt8) (place : Int) (n : Nat) : Except Fault (Array UInt8) :=
  if place < 0 then .error (.negativeOffset path)
  else
    let part := data.extract place.toNat (place.toNat + n)
    if part.size = n then .ok part else .error .endOfData

/-- The first word of a member in the directory. -/
def headerMark : Nat := 0x02014b50

/-- The largest 32-bit word, which says that the value is in the extra field. -/
def elsewhere : Nat := 0xFFFFFFFF

/-- The fields of the extra data, by tag. -/
def extraFields (data : List UInt8) : (fuel : Nat) → List (Nat × List UInt8)
  | 0 => []
  | fuel + 1 =>
    match data with
    | a :: b :: c :: d :: rest =>
      let size := littleEndian [c, d]
      if rest.length < size then []
      else (littleEndian [a, b], rest.take size) :: extraFields (rest.drop size) fuel
    | _ => []

/-- Replaces a value by the next eight bytes of the long-sizes field if it is there. -/
def widen (value : Nat) (field : List UInt8) : Except Fault (Nat × List UInt8) :=
  if value = elsewhere then
    if field.length < 8 then .error .format else .ok (littleEndian (field.take 8), field.drop 8)
  else .ok (value, field)

/-- Reads a member's header and gives the place after it. -/
def readHeader (data : Array UInt8) (place : Nat) : Except Fault (Member × Nat) := do
  let h ← readFull data place 46
  let word (i n : Nat) : Nat := numberAt h i n
  if word 0 4 ≠ headerMark then throw .format
  let nameLength := word 28 2
  let extraLength := word 30 2
  let total := nameLength + extraLength + word 32 2
  let names ← if total = 0 then pure #[] else readFull data (place + 46) total
  let name := Utf8.decode (names.extract 0 nameLength).toList
  let extra := (names.extract nameLength (nameLength + extraLength)).toList
  let long := (extraFields extra extra.length).lookup 1
  let size := word 24 4
  let packed := word 20 4
  let header := word 42 4
  let (size, packed, header) ←
    match long with
    | some field =>
      let (size, field) ← widen size field
      let (packed, field) ← widen packed field
      let (header, _) ← widen header field
      pure (size, packed, header)
    | none =>
      if packed = elsewhere ∨ header = elsewhere then throw .format
      pure (size, packed, header)
  return (⟨name, word 8 2, word 10 2, UInt32.ofNat (word 16 4), packed, size, header⟩, place + 46 + total)

/-- Looks back for the end record from an index on, in a block at the end of the data. -/
def findEnd (block : Array UInt8) : Nat → Option Nat
  | 0 => none
  | i + 1 =>
    if numberAt block i 4 = 0x06054b50 then
      if numberAt block (i + 20) 2 + 22 + i > block.size then none else some i
    else findEnd block i

/-- The place of the end record, which may have a comment after it. -/
def endPlace (data : Array UInt8) : Except Fault Nat :=
  let look (n : Nat) : Option Nat :=
    let block := data.extract (data.size - n) data.size
    (findEnd block (block.size + 1 - 22)).map (data.size - n + ·)
  match look (min 1024 data.size) with
  | some p => .ok p
  | none =>
    if data.size ≤ 1024 then .error .format
    else
      match look (min (65 * 1024) data.size) with
      | some p => .ok p
      | none => .error .format

/-- Where the directory is and how many members it claims to have. -/
structure EndRecord where
  place : Int
  records : Nat
  size : Nat
  offset : Nat

/-- Replaces the values of an end record by those of the long form, if there is one before it. -/
def longEnd (path : String) (data : Array UInt8) (e : EndRecord) : Except Fault EndRecord := do
  let locator := e.place - 20
  if locator < 0 then return e
  let l ← readAt path data locator 20
  if numberAt l 0 4 ≠ 0x07064b50 ∨ numberAt l 4 4 ≠ 0 ∨ numberAt l 16 4 ≠ 1 then return e
  let place := numberAt l 8 8
  let r ← readAt path data place 56
  if numberAt r 0 4 ≠ 0x06064b50 then throw .format
  return ⟨place, numberAt r 32 8, numberAt r 40 8, numberAt r 48 8⟩

/-- The end record and the place that offsets count from. -/
def endRecord (path : String) (data : Array UInt8) : Except Fault (EndRecord × Int) := do
  let p ← endPlace data
  let e : EndRecord := ⟨p, numberAt data (p + 10) 2, numberAt data (p + 12) 4, numberAt data (p + 16) 4⟩
  let e ←
    if e.records = 0xFFFF ∨ e.size = 0xFFFF ∨ e.offset = elsewhere then longEnd path data e else pure e
  if e.size ≥ 0x8000000000000000 ∨ e.offset ≥ 0x8000000000000000 then throw .format
  let base : Int := e.place - e.size - e.offset
  if base + e.offset < 0 ∨ base + e.offset ≥ data.size then throw .format
  let direct := (readHeader data e.offset).toOption.isSome
  return (e, if 0 < base ∧ direct then 0 else base)

/-- Reads headers until one is no header. -/
def readHeaders (data : Array UInt8) (base : Int) : (fuel place : Nat) →
    Except Fault (List Member × Fault)
  | 0, _ => .ok ([], .format)
  | fuel + 1, place =>
    match readHeader data place with
    | .error .format => .ok ([], .format)
    | .error .unexpectedEnd => .ok ([], .unexpectedEnd)
    | .error f => .error f
    | .ok (m, next) => do
      let (ms, last) ← readHeaders data base fuel next
      return ({ m with header := m.header + base } :: ms, last)

/-- The members of an archive. -/
def members (path : String) (data : Array UInt8) : Except Fault (List Member) := do
  let (e, base) ← endRecord path data
  let (ms, last) ← readHeaders data base data.size (base + e.offset).toNat
  if ms.length % 65536 = e.records % 65536 then return ms else throw last

/-- Checks what stands after a member's data against its check. -/
def trailer (data : Array UInt8) (place : Nat) (m : Member) : Except Fault Unit := do
  let expected (f : Fault) : Fault := if f = .endOfData then .unexpectedEnd else f
  let first ← (readFull data place 4).mapError expected
  let marked := numberAt first 0 4 = 0x08074b50
  let rest ← (readFull data (place + 4) (if marked then 12 else 8)).mapError expected
  let check := if marked then numberAt rest 0 4 else numberAt first 0 4
  if UInt32.ofNat check ≠ m.check then throw .checksum

/-- The data of a member, decompressed and checked. -/
def contents (path : String) (data : Array UInt8) (m : Member) : Except Fault (Array UInt8) := do
  if m.name.endsWith "/" then
    if m.size ≠ 0 then throw .format else return #[]
  let h ← readAt path data m.header 30
  if numberAt h 0 4 ≠ 0x04034b50 then throw .format
  let start := (m.header + 30 + numberAt h 26 2 + numberAt h 28 2).toNat
  let packed := data.extract start (start + m.packed)
  let (plain, fault) ←
    if m.method = 0 then pure (packed, none)
    else if m.method = 8 then pure (inflate packed)
    else throw .algorithm
  if plain.size > m.size then throw .format
  match fault with
  | some (.corrupt offset) => throw (.corrupt offset)
  | some .truncated => throw .unexpectedEnd
  | none =>
    if plain.size ≠ m.size then throw .unexpectedEnd
    if m.flags / 8 % 2 = 1 then
      trailer data (start + m.packed) m
      if checksum plain ≠ m.check then throw .checksum
    else if m.check ≠ 0 ∧ checksum plain ≠ m.check then throw .checksum
    return plain

end JavaMachine.Archive
