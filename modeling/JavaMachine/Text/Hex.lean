/-! Hexadecimal text of numbers and bytes. -/

namespace JavaMachine.Text.Hex

/-- The lower-case digit of a value below sixteen. -/
def digit (n : Nat) : Char := Nat.digitChar n

/-- Puts a fill character before a text until it has the given width. -/
def padLeft (fill : Char) (width : Nat) (s : String) : String :=
  String.ofList (List.replicate (width - s.length) fill) ++ s

/-- Lower-case digits, with leading zeros up to `width`. -/
def lower (width n : Nat) : String := padLeft '0' width (String.ofList (Nat.toDigits 16 n))

/-- Upper-case digits, with leading zeros up to `width`. -/
def upper (width n : Nat) : String := (lower width n).map Char.toUpper

/-- Two digits for each byte. -/
def ofBytes (bytes : List UInt8) : String :=
  String.ofList (bytes.flatMap fun b => [digit (b.toNat / 16), digit (b.toNat % 16)])

/-- The value of a digit of either case. -/
def value? (c : Char) : Option Nat :=
  if '0' ≤ c ∧ c ≤ '9' then some (c.toNat - '0'.toNat)
  else if 'a' ≤ c ∧ c ≤ 'f' then some (c.toNat - 'a'.toNat + 10)
  else if 'A' ≤ c ∧ c ≤ 'F' then some (c.toNat - 'A'.toNat + 10)
  else none

/-- Reads pairs of digits as bytes. -/
def toBytes? : List Char → Option (List UInt8)
  | [] => some []
  | hi :: lo :: rest => do
    let h ← value? hi
    let l ← value? lo
    let bs ← toBytes? rest
    return UInt8.ofNat (h * 16 + l) :: bs
  | [_] => none

end JavaMachine.Text.Hex
