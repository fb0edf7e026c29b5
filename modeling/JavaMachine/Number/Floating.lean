/-!
Floating-point numbers as bit patterns. An operation on a NaN gives the first NaN among its operands with
the quiet bit set, and an invalid operation gives the default NaN, which has its sign bit set.

Remainders of doubles are exact. Finite doubles are whole multiples of the least positive double, so a remainder is one
of natural numbers.
-/

namespace JavaMachine

/-! ## Single precision -/

namespace Single

/-- Whether a pattern stands for no number. -/
def isNaN (b : UInt32) : Bool := (b &&& 0x7fffffff) > 0x7f800000

/-- The pattern with the quiet bit set. -/
def quiet (b : UInt32) : UInt32 := b ||| 0x00400000

/-- The result of an invalid operation. -/
def invalid : UInt32 := 0xffc00000

/-- An operation on numbers as one on patterns. -/
def lift₂ (f : Float32 → Float32 → Float32) (a b : UInt32) : UInt32 :=
  if isNaN a then quiet a
  else if isNaN b then quiet b
  else
    let r := f (.ofBits a) (.ofBits b)
    if r.isNaN then invalid else r.toBits

def add : UInt32 → UInt32 → UInt32 := lift₂ (· + ·)
def sub : UInt32 → UInt32 → UInt32 := lift₂ (· - ·)
def mul : UInt32 → UInt32 → UInt32 := lift₂ (· * ·)
def div : UInt32 → UInt32 → UInt32 := lift₂ (· / ·)

/-- The pattern with the other sign. -/
def neg (b : UInt32) : UInt32 := b ^^^ 0x80000000

/-- The double with the same value; a NaN keeps its payload and becomes quiet. -/
def toDouble (b : UInt32) : UInt64 :=
  if isNaN b then
    ((b >>> 31).toUInt64 <<< 63) ||| (0x7ff8000000000000 : UInt64) ||| ((b &&& 0x7fffff).toUInt64 <<< 29)
  else (Float32.ofBits b).toFloat.toBits

end Single

/-! ## Double precision -/

namespace Double

/-- Whether a pattern stands for no number. -/
def isNaN (b : UInt64) : Bool := (b &&& 0x7fffffffffffffff) > 0x7ff0000000000000

/-- Whether a pattern stands for an infinity. -/
def isInfinite (b : UInt64) : Bool := (b &&& 0x7fffffffffffffff) == 0x7ff0000000000000

/-- The pattern with the quiet bit set. -/
def quiet (b : UInt64) : UInt64 := b ||| 0x0008000000000000

/-- The result of an invalid operation. -/
def invalid : UInt64 := 0xfff8000000000000

/-- The NaN that functions give which are computed step by step. -/
def undefinedValue : UInt64 := 0x7ff8000000000001

/-- An operation on numbers as one on patterns. -/
def lift₂ (f : Float → Float → Float) (a b : UInt64) : UInt64 :=
  if isNaN a then quiet a
  else if isNaN b then quiet b
  else
    let r := f (.ofBits a) (.ofBits b)
    if r.isNaN then invalid else r.toBits

def add : UInt64 → UInt64 → UInt64 := lift₂ (· + ·)
def sub : UInt64 → UInt64 → UInt64 := lift₂ (· - ·)
def mul : UInt64 → UInt64 → UInt64 := lift₂ (· * ·)
def div : UInt64 → UInt64 → UInt64 := lift₂ (· / ·)

/-- The pattern with the other sign. -/
def neg (b : UInt64) : UInt64 := b ^^^ 0x8000000000000000

/-- The nearest single; a NaN keeps the high part of its payload and becomes quiet. -/
def toSingle (b : UInt64) : UInt32 :=
  if isNaN b then
    (((b >>> 63) <<< 31) ||| (0x7fc00000 : UInt64) ||| ((b >>> 29) &&& 0x7fffff)).toUInt32
  else (Float.ofBits b).toFloat32.toBits

/-- The number cut toward zero to an int; NaN gives zero and what is too large the nearest int. -/
def toInt (b : UInt64) : Int32 := if isNaN b then 0 else (Float.ofBits b).toInt32

/-- The number cut toward zero to a long; NaN gives zero and what is too large the nearest long. -/
def toLong (b : UInt64) : Int64 := if isNaN b then 0 else (Float.ofBits b).toInt64

/-- Three-way comparison; `nan` is the result if an operand is no number. -/
def compare (a b : UInt64) (nan : Int32) : Int32 :=
  if isNaN a || isNaN b then nan
  else if Float.ofBits a < Float.ofBits b then -1
  else if Float.ofBits b < Float.ofBits a then 1
  else 0

end Double

end JavaMachine

/-! ## Remainders -/

namespace JavaMachine.Double

/-- The sign bit. -/
def sign (b : UInt64) : UInt64 := b &&& 0x8000000000000000

/-- The pattern without its sign. -/
def magnitude (b : UInt64) : UInt64 := b &&& 0x7fffffffffffffff

/-- How often the least positive double goes into a finite double without its sign. -/
def units (b : UInt64) : Nat :=
  let m := (magnitude b).toNat
  let e := m / 0x10000000000000
  if e = 0 then m else (m % 0x10000000000000 + 0x10000000000000) * Nat.pow 2 (e - 1)

/-- The pattern of a number of units with at most 53 significant bits. -/
def ofUnits (n : Nat) : UInt64 :=
  let shift := n.log2 + 1 - 53
  UInt64.ofNat (if n < 0x20000000000000 then n else n / Nat.pow 2 shift + shift * 0x10000000000000)

/-- The remainder with the sign of the dividend, where the quotient is cut toward zero. -/
def rem (x y : UInt64) : UInt64 :=
  if isNaN x || isNaN y || isInfinite x || magnitude y == 0 then undefinedValue
  else if isInfinite y then x
  else sign x ||| ofUnits (units x % units y)

/-- The remainder where the quotient goes to the nearest whole number and a tie to the even one. A zero has
the sign of the dividend. -/
def nearestRem (x y : UInt64) : UInt64 :=
  if isNaN x || isNaN y || isInfinite x || magnitude y == 0 then undefinedValue
  else if isInfinite y then x
  else
    let r := units x % units y
    let odd := units x / units y % 2 = 1
    if 2 * r < units y ∨ (2 * r = units y ∧ ¬odd) then sign x ||| ofUnits r
    else neg (sign x) ||| ofUnits (units y - r)

end JavaMachine.Double

namespace JavaMachine.Single

/-- The remainder with the sign of the dividend, where the quotient is cut toward zero. -/
def rem (x y : UInt32) : UInt32 := Double.toSingle (Double.rem (toDouble x) (toDouble y))

end JavaMachine.Single
