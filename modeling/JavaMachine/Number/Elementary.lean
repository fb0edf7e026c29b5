import JavaMachine.Number.Floating

/-!
Elementary functions of doubles. What is not a number goes in and comes out as one NaN, apart from the
square root, which keeps the operand's payload.
-/

namespace JavaMachine.Double

/-- A function of numbers as one of patterns. -/
def lift₁ (f : Float → Float) (a : UInt64) : UInt64 :=
  if isNaN a then undefinedValue
  else
    let r := f (.ofBits a)
    if r.isNaN then undefinedValue else r.toBits

/-- The square root. -/
def sqrt (a : UInt64) : UInt64 :=
  if isNaN a then quiet a
  else
    let r := (Float.ofBits a).sqrt
    if r.isNaN then invalid else r.toBits

/-- The power of e, less one. For small arguments the error of the power is divided out. -/
def expm1 (x : Float) : Float :=
  let u := x.exp
  if u == 1 then x
  else if u - 1 == -1 then -1
  else if u.isInf then u
  else (u - 1) * x / u.log

/-- The logarithm of one more than a number. For small arguments the error of the sum is divided out. -/
def log1p (x : Float) : Float :=
  let u := 1 + x
  if u == 1 then x
  else if u.isInf then u
  else u.log * x / (u - 1)

/-- The power; every number to the power zero and one to every power are one, for NaN too. -/
def pow (x y : UInt64) : UInt64 :=
  if magnitude y == 0 || x == 0x3ff0000000000000 then 0x3ff0000000000000
  else if isNaN x || isNaN y then undefinedValue
  else
    let r := (Float.ofBits x).pow (.ofBits y)
    if r.isNaN then undefinedValue else r.toBits

/-- The angle of a point. -/
def atan2 (y x : UInt64) : UInt64 :=
  if isNaN x || isNaN y then undefinedValue else ((Float.ofBits y).atan2 (.ofBits x)).toBits

/-- The length of the hypotenuse; an infinite side decides, even beside NaN. -/
def hypot (x y : UInt64) : UInt64 :=
  if isInfinite x || isInfinite y then 0x7ff0000000000000
  else if isNaN x || isNaN y then undefinedValue
  else
    let a := Float.ofBits (magnitude x)
    let b := Float.ofBits (magnitude y)
    let p := if a < b then b else a
    let q := if a < b then a else b
    if p == 0 then 0
    else
      let r := q / p
      (p * (1 + r * r).sqrt).toBits

/-- A rough cube root of a positive pattern: a third of it, moved to the right exponent. -/
def cbrtGuess (a : UInt64) : UInt64 :=
  if a < 0x0010000000000000 then
    (Float.ofBits a * 18014398509481984.0).toBits / 3 + 0x297f7893 * 0x100000000
  else a / 3 + 0x2a9f7893 * 0x100000000

/-- The cube root of a positive number: a rough one, one step of a rational approximation, rounding up to
few digits so that its square is exact, and one step of iteration. -/
def cbrtPositive (a : UInt64) : Float :=
  let x := Float.ofBits a
  let t := Float.ofBits (cbrtGuess a)
  let r := t * t / x
  let s := Float.ofBits 0x3fe15f15f15f15f1 + r * t
  let t := t * (Float.ofBits 0x3fd6db6db6db6db7 + Float.ofBits 0x3ff9b6db6db6db6e /
    (s + Float.ofBits 0x3ff6a0ea0ea0ea0f + Float.ofBits 0xbfe691de2532c834 / s))
  let t := Float.ofBits ((t.toBits &&& 0xffffffffc0000000) + 0x40000000)
  let r := x / (t * t)
  let r := (r - t) / (t + t + r)
  t + t * r

/-- The cube root. -/
def cbrt (a : UInt64) : UInt64 :=
  let m := magnitude a
  if isNaN a then undefinedValue
  else if m == 0 || isInfinite a then a
  else (cbrtPositive m).toBits ||| (a ^^^ m)

/-- The functions of one argument by name. -/
def unary : List (String × (UInt64 → UInt64)) := [
  ("sin", lift₁ Float.sin), ("cos", lift₁ Float.cos), ("tan", lift₁ Float.tan),
  ("asin", lift₁ Float.asin), ("acos", lift₁ Float.acos), ("atan", lift₁ Float.atan),
  ("exp", lift₁ Float.exp), ("log", lift₁ Float.log), ("log10", lift₁ Float.log10),
  ("sqrt", sqrt), ("cbrt", cbrt), ("sinh", lift₁ Float.sinh),
  ("cosh", lift₁ Float.cosh), ("tanh", lift₁ Float.tanh), ("expm1", lift₁ expm1),
  ("log1p", lift₁ log1p)]

/-- The functions of two arguments by name. -/
def binary : List (String × (UInt64 → UInt64 → UInt64)) := [
  ("atan2", atan2), ("pow", pow), ("hypot", hypot), ("IEEEremainder", nearestRem)]

end JavaMachine.Double
