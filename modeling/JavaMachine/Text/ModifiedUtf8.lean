import JavaMachine.Text.Units

/-!
Modified UTF-8, the text encoding of class files. Each UTF-16 unit is written by itself in one, two or
three bytes, and NUL takes two, so no zero byte is written. Reading also takes overlong sequences.
-/

namespace JavaMachine.Text.ModifiedUtf8

/-- Why bytes are no modified UTF-8, with the offset of the offending sequence. -/
inductive Fault where
  | nul (offset : Nat)
  | shortPair (offset : Nat)
  | shortTriple (offset : Nat)
  | invalid (byte : UInt8) (offset : Nat)
deriving DecidableEq, Repr

/-- The bytes of one unit. -/
def encodeUnit (u : UInt16) : List UInt8 :=
  if u ≠ 0 ∧ u < 0x80 then [u.toUInt8]
  else if u < 0x800 then
    [((u >>> 6).toUInt8 &&& 0x1F) ||| 0xC0, (u.toUInt8 &&& 0x3F) ||| 0x80]
  else
    [((u >>> 12).toUInt8 &&& 0x0F) ||| 0xE0, ((u >>> 6).toUInt8 &&& 0x3F) ||| 0x80,
     (u.toUInt8 &&& 0x3F) ||| 0x80]

/-- The bytes of a sequence of units. -/
def encode (us : List UInt16) : List UInt8 := us.flatMap encodeUnit

/-- A byte that continues a sequence. -/
def isContinuation (b : UInt8) : Bool := b &&& 0xC0 == 0x80

/-- The unit of a two-byte sequence. -/
def joinTwo (a b : UInt8) : UInt16 :=
  ((a &&& 0x1F).toUInt16 <<< 6) ||| (b &&& 0x3F).toUInt16

/-- The unit of a three-byte sequence. -/
def joinThree (a b c : UInt8) : UInt16 :=
  ((a &&& 0x0F).toUInt16 <<< 12) ||| ((b &&& 0x3F).toUInt16 <<< 6) ||| (c &&& 0x3F).toUInt16

/-- Reads bytes that start at `offset` of the encoded text. -/
def decodeAt (offset : Nat) : List UInt8 → Except Fault (List UInt16)
  | [] => .ok []
  | a :: rest =>
    if a = 0 then .error (.nul offset)
    else if a < 0x80 then return a.toUInt16 :: (← decodeAt (offset + 1) rest)
    else if a &&& 0xE0 = 0xC0 then
      match rest with
      | b :: rest' =>
        if isContinuation b then return joinTwo a b :: (← decodeAt (offset + 2) rest')
        else .error (.shortPair offset)
      | [] => .error (.shortPair offset)
    else if a &&& 0xF0 = 0xE0 then
      match rest with
      | b :: c :: rest' =>
        if isContinuation b && isContinuation c then
          return joinThree a b c :: (← decodeAt (offset + 3) rest')
        else .error (.shortTriple offset)
      | _ => .error (.shortTriple offset)
    else .error (.invalid a offset)

/-- Reads modified UTF-8 as units. -/
def decode (bytes : List UInt8) : Except Fault (List UInt16) := decodeAt 0 bytes

/-- The string of units that are all ASCII, each a byte of it. -/
def asciiString (us : List UInt16) : String := String.ofList (us.map fun u => Char.ofNat u.toUInt8.toNat)

/-- Reads modified UTF-8 as a string, ASCII text without a look for surrogate pairs. -/
def decodeString (bytes : List UInt8) : Except Fault String := do
  let us ← decode bytes
  if us.all (· < 0x80) then return asciiString us else return Units.toString us

/-- Writes a string. -/
def encodeString (s : String) : List UInt8 := encode (Units.ofString s)

end JavaMachine.Text.ModifiedUtf8
