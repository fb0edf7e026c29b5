/-!
The shortest decimal that reads back. A finite float is `m · 2 ^ q`; the reals that round to it form an
interval, whose ends belong to it if and only if `m` is even. For one digit after the other the two grid
points around the value are tried; the first grid with a point in the interval wins, and of two points the
nearer one.
-/

namespace JavaMachine.Decimal

/-- A float format: bits of the stored mantissa and of the exponent. -/
structure Format where
  mantissaBits : Nat
  exponentBits : Nat
deriving DecidableEq, Repr

/-- Single precision. -/
def single : Format := ⟨23, 8⟩

/-- Double precision. -/
def double : Format := ⟨52, 11⟩

/-- What a bit pattern stands for; `lowest` marks a mantissa whose lower neighbour is twice as near. -/
inductive Value where
  | nan
  | infinite (negative : Bool)
  | finite (negative : Bool) (mantissa : Nat) (exponent : Int) (lowest : Bool)
deriving DecidableEq, Repr

/-- Takes a bit pattern apart. -/
def Format.decode (f : Format) (bits : Nat) : Value :=
  let mantissa := bits % Nat.pow 2 f.mantissaBits
  let field := bits / Nat.pow 2 f.mantissaBits % Nat.pow 2 f.exponentBits
  let negative := bits / Nat.pow 2 (f.mantissaBits + f.exponentBits) % 2 = 1
  let bias : Int := Nat.pow 2 (f.exponentBits - 1) - 1 + f.mantissaBits
  if field = Nat.pow 2 f.exponentBits - 1 then
    if mantissa = 0 then .infinite negative else .nan
  else if field = 0 then .finite negative mantissa (1 - bias) false
  else .finite negative (Nat.pow 2 f.mantissaBits + mantissa) (field - bias) (mantissa = 0 ∧ 1 < field)

/-- Digits, most significant first, with the decimal exponent of the first. -/
structure Digits where
  digits : List Nat
  exponent : Int
deriving DecidableEq, Repr

/-- The least `k` from `start` on, within `fuel` steps, that scales the fraction to at least one. -/
def scaleUp (num den : Nat) : (fuel start : Nat) → Nat
  | 0, start => start
  | fuel + 1, start => if den ≤ num * Nat.pow 10 start then start else scaleUp num den fuel (start + 1)

/-- The exponent of the first decimal digit of a positive fraction. -/
def leadingExponent (num den : Nat) : Int :=
  if den ≤ num then ((Nat.toDigits 10 (num / den)).length : Int) - 1
  else - (scaleUp num den 400 1 : Int)

/-- The decimal digits of a number. -/
def digitsOf (n : Nat) : List Nat := (Nat.toDigits 10 n).map fun c => c.toNat - '0'.toNat

/-- Leaves out zeros at the end. -/
def dropZeros (ds : List Nat) : List Nat := (ds.reverse.dropWhile (· == 0)).reverse

/-- Tries grids of `count` and more digits. The fractions `low`, `value` and `high` have the common
denominator `den`. -/
def search (low value high den : Nat) (inclusive : Bool) (exponent : Int) :
    (fuel count : Nat) → Digits
  | 0, count => ⟨digitsOf value, exponent + count⟩
  | fuel + 1, count =>
    let unit : Int := exponent - count + 1
    let up := Nat.pow 10 unit.toNat
    let down := Nat.pow 10 (-unit).toNat
    let below := value * down / (den * up)
    let above := below + 1
    let inside (d : Nat) : Bool :=
      let x := d * den * up
      if inclusive then low * down ≤ x && x ≤ high * down
      else low * down < x && x < high * down
    let twice := 2 * (value * down)
    let middle := (below + above) * den * up
    let nearer :=
      if twice < middle then below else if middle < twice then above
      else if below % 2 = 0 then below else above
    let found :=
      if inside below && inside above then some nearer
      else if inside below then some below
      else if inside above then some above
      else none
    match found with
    | some d =>
      let ds := digitsOf d
      ⟨dropZeros ds, unit + (ds.length : Int) - 1⟩
    | none => search low value high den inclusive exponent fuel (count + 1)

/-- The shortest digits of a positive finite value. -/
def shortest (mantissa : Nat) (exponent : Int) (lowest : Bool) : Digits :=
  let shift := exponent - 2
  let scale := Nat.pow 2 shift.toNat
  let den := Nat.pow 2 (-shift).toNat
  let value := 4 * mantissa * scale
  let low := (4 * mantissa - if lowest then 1 else 2) * scale
  let high := (4 * mantissa + 2) * scale
  search low value high den (mantissa % 2 = 0) (leadingExponent value den) 20 1

/-- The digit characters of a list. -/
def digitText (ds : List Nat) : String := String.ofList (ds.map Nat.digitChar)

/-- Where positional notation starts and ends, by the exponent of the first digit. -/
structure Style where
  least : Int
  bound : Int
deriving DecidableEq, Repr

/-- Positional from 0.0001 to below 1000000. -/
def general : Style := ⟨-4, 6⟩

/-- Writes digits positionally. -/
def positional (d : Digits) : String :=
  if d.exponent < 0 then
    "0." ++ digitText (List.replicate ((-d.exponent).toNat - 1) 0 ++ d.digits)
  else
    let whole := d.exponent.toNat + 1
    let front := d.digits.take whole
    let padded := front ++ List.replicate (whole - front.length) 0
    let rest := d.digits.drop whole
    digitText padded ++ if rest.isEmpty then "" else "." ++ digitText rest

/-- Writes digits with an exponent of a sign and at least two digits. -/
def scientific (d : Digits) : String :=
  let mantissa :=
    match d.digits with
    | [] => "0"
    | [x] => digitText [x]
    | x :: rest => digitText [x] ++ "." ++ digitText rest
  let size := d.exponent.natAbs
  let sign := if d.exponent < 0 then "-" else "+"
  mantissa ++ "e" ++ sign ++ (if size < 10 then "0" else "") ++ toString size

/-- The text of a value. -/
def Value.render (n : Style) : Value → String
  | .nan => "NaN"
  | .infinite negative => if negative then "-Inf" else "+Inf"
  | .finite negative mantissa exponent lowest =>
    let sign := if negative then "-" else ""
    if mantissa = 0 then sign ++ "0"
    else
      let d := shortest mantissa exponent lowest
      sign ++ if n.least ≤ d.exponent ∧ d.exponent < n.bound then positional d else scientific d

/-- The text of a single-precision bit pattern. -/
def renderSingle (bits : UInt32) : String := (single.decode bits.toNat).render general

/-- The text of a double-precision bit pattern. -/
def renderDouble (bits : UInt64) : String := (double.decode bits.toNat).render general

end JavaMachine.Decimal
