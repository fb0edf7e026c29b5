import JavaMachine.Bytes.BigEndian

/-!
UTF-16 code units. `ofChars` writes a character above the basic plane as a surrogate pair; `toChars`
reads pairs back and shows an unpaired surrogate as U+FFFD.
-/

namespace JavaMachine.Text.Units

/-- The first unit of a surrogate pair. -/
def isHigh (u : UInt16) : Bool := 0xD800 ≤ u && u < 0xDC00

/-- The second unit of a surrogate pair. -/
def isLow (u : UInt16) : Bool := 0xDC00 ≤ u && u < 0xE000

/-- The one or two units of a character. -/
def ofChar (c : Char) : List UInt16 :=
  if c.toNat < 0x10000 then [UInt16.ofNat c.toNat]
  else
    let n := c.toNat - 0x10000
    [UInt16.ofNat (0xD800 + n / 0x400), UInt16.ofNat (0xDC00 + n % 0x400)]

/-- The units of a text. -/
def ofChars (cs : List Char) : List UInt16 := cs.flatMap ofChar

/-- The character of a surrogate pair. -/
def joinPair (hi lo : UInt16) : Char :=
  Char.ofNat (0x10000 + (hi.toNat - 0xD800) * 0x400 + (lo.toNat - 0xDC00))

/-- The replacement character that stands for an unpaired surrogate. -/
def replacement : Char := '\ufffd'

/-- A unit that stands by itself. -/
def single (u : UInt16) : Char :=
  if isHigh u || isLow u then replacement else Char.ofNat u.toNat

/-- Reads units as characters. -/
def toChars : List UInt16 → List Char
  | [] => []
  | [u] => [single u]
  | u :: v :: rest =>
    if isHigh u && isLow v then joinPair u v :: toChars rest else single u :: toChars (v :: rest)

/-- The units of a string. -/
def ofString (s : String) : List UInt16 := ofChars s.toList

/-- The bytes of units, the high byte of each first. They are the key of a unit sequence in the pool of strings. -/
def key (us : List UInt16) : List UInt8 := us.flatMap BigEndian.bytes16

/-- Units as a string. -/
def toString (us : List UInt16) : String := String.ofList (toChars us)

end JavaMachine.Text.Units
