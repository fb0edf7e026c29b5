import JavaMachine.Text.Hex

/-!
Integers as they are written in commands: a sign, a mark of the base (`0x`, `0o` or `0` for eight, `0b`),
and digits that single underscores may divide.
-/

namespace JavaMachine.Literal

open Text

/-- Why a text is no integer. -/
inductive Fault where
  | malformed
  | outOfRange
deriving DecidableEq, Repr

/-- The text of a fault. -/
def Fault.message : Fault → String
  | .malformed => "parse error"
  | .outOfRange => "value out of range"

/-- The value of a digit or a letter. -/
def digit? (c : Char) : Option Nat :=
  if c.isDigit then some (c.toNat - 48)
  else if c.isAlpha then some (c.toLower.toNat - 87)
  else none

/-- Reads digits after those that make up `n`, and passes over underscores. A number that does not fit in 64
bits is seen before what follows it. -/
def unsigned (base n : Nat) : List Char → Except Fault Nat
  | [] => .ok n
  | '_' :: rest => unsigned base n rest
  | c :: rest =>
    match digit? c with
    | none => .error .malformed
    | some d =>
      if d ≥ base then .error .malformed
      else if n * base + d ≥ 0x10000000000000000 then .error .outOfRange
      else unsigned base (n * base + d) rest

/-- Whether each underscore has a digit on both sides. `digit` says that a digit has just been read, and
`divided` that an underscore has. -/
def dividesDigits (hex digit divided : Bool) : List Char → Bool
  | [] => !divided
  | c :: rest =>
    if c.isDigit || (hex && (Hex.value? c).isSome) then dividesDigits hex true false rest
    else if c == '_' then digit && dividesDigits hex false true rest
    else !divided && dividesDigits hex false false rest

/-- The base of a number and its digits. A mark has to have something after it. -/
def base : List Char → Nat × List Char
  | '0' :: mark :: c :: rest =>
    match mark.toLower with
    | 'b' => (2, c :: rest)
    | 'o' => (8, c :: rest)
    | 'x' => (16, c :: rest)
    | _ => (8, mark :: c :: rest)
  | '0' :: rest => (8, rest)
  | cs => (10, cs)

/-- Whether the underscores of a number stand where they may; a mark of the base counts as a digit. -/
def underscoresFit : List Char → Bool
  | '0' :: mark :: rest =>
    if mark.toLower == 'x' then dividesDigits true true false rest
    else if mark.toLower == 'o' || mark.toLower == 'b' then dividesDigits false true false rest
    else dividesDigits false false false ('0' :: mark :: rest)
  | cs => dividesDigits false false false cs

/-- Reads a number without a sign. -/
def magnitude (cs : List Char) : Except Fault Nat := do
  if cs.isEmpty then throw .malformed
  let (b, digits) := base cs
  let n ← unsigned b 0 digits
  if cs.contains '_' && !underscoresFit cs then throw .malformed
  return n

/-- Reads an integer of 64 bits. -/
def integer (s : String) : Except Fault Int := do
  let (negative, cs) :=
    match s.toList with
    | '-' :: rest => (true, rest)
    | '+' :: rest => (false, rest)
    | cs => (false, cs)
  let n ← magnitude cs
  if negative then if n ≤ 0x8000000000000000 then return -n else throw .outOfRange
  else if n < 0x8000000000000000 then return n
  else throw .outOfRange

/-- Reads a truth value. -/
def boolean? (s : String) : Option Bool :=
  if s ∈ ["1", "t", "T", "TRUE", "true", "True"] then some true
  else if s ∈ ["0", "f", "F", "FALSE", "false", "False"] then some false
  else none

end JavaMachine.Literal
