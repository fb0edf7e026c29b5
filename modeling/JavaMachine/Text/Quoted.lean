import JavaMachine.Text.Hex
import JavaMachine.Text.Printable

/-!
Text between double quotes. Quotes and backslashes are escaped, and so is every character that is not
printable: by letter where it has one, else by its number in the shortest of three widths.
-/

namespace JavaMachine.Text.Quoted

/-- The escape letter of a control character. -/
def letter? (c : Char) : Option Char :=
  match c.toNat with
  | 7 => some 'a'
  | 8 => some 'b'
  | 12 => some 'f'
  | 10 => some 'n'
  | 13 => some 'r'
  | 9 => some 't'
  | 11 => some 'v'
  | _ => none

/-- One character of a quoted text. -/
def encodeChar (c : Char) : String :=
  if c = '"' ∨ c = '\\' then String.ofList ['\\', c]
  else if Printable.isPrintable c then String.singleton c
  else
    match letter? c with
    | some l => String.ofList ['\\', l]
    | none =>
      if c.toNat < 0x20 ∨ c.toNat = 0x7F then "\\x" ++ Hex.lower 2 c.toNat
      else if c.toNat < 0x10000 then "\\u" ++ Hex.lower 4 c.toNat
      else "\\U" ++ Hex.lower 8 c.toNat

/-- The quoted form of a text. -/
def encode (s : String) : String :=
  "\"" ++ String.join (s.toList.map encodeChar) ++ "\""

end JavaMachine.Text.Quoted
