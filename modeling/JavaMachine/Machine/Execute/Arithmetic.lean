import JavaMachine.Machine.Instruction
import JavaMachine.Machine.Throwing
import JavaMachine.Number.Floating

/-!
Arithmetic instructions. Integer results wrap, a shift distance is taken modulo the width, and division by
zero throws.
-/

namespace JavaMachine.Execute

open M Throwing

/-- The result of an operation on two ints; there is none for a division by zero. -/
def intResult (op : IntegerOp) (a b : Int32) : Option Int32 :=
  match op with
  | .add => some (a + b)
  | .sub => some (a - b)
  | .mul => some (a * b)
  | .div => if b = 0 then none else some (a / b)
  | .rem => if b = 0 then none else some (a % b)
  | .and => some (a &&& b)
  | .or => some (a ||| b)
  | .xor => some (a ^^^ b)

/-- The result of an operation on two longs; there is none for a division by zero. -/
def longResult (op : IntegerOp) (a b : Int64) : Option Int64 :=
  match op with
  | .add => some (a + b)
  | .sub => some (a - b)
  | .mul => some (a * b)
  | .div => if b = 0 then none else some (a / b)
  | .rem => if b = 0 then none else some (a % b)
  | .and => some (a &&& b)
  | .or => some (a ||| b)
  | .xor => some (a ^^^ b)

/-- A shifted int. -/
def shiftInt (op : ShiftOp) (a distance : Int32) : Int32 :=
  let n := distance &&& 0x1f
  match op with
  | .shl => a <<< n
  | .shr => a >>> n
  | .ushr => (a.toUInt32 >>> n.toUInt32).toInt32

/-- A shifted long; the distance is an int. -/
def shiftLong (op : ShiftOp) (a : Int64) (distance : Int32) : Int64 :=
  let n := (distance &&& 0x3f).toInt64
  match op with
  | .shl => a <<< n
  | .shr => a >>> n
  | .ushr => (a.toUInt64 >>> n.toUInt64).toInt64

/-- The result of an operation on two singles. -/
def singleResult : FloatingOp → UInt32 → UInt32 → UInt32
  | .add => Single.add
  | .sub => Single.sub
  | .mul => Single.mul
  | .div => Single.div
  | .rem => Single.rem

/-- The result of an operation on two doubles. -/
def doubleResult : FloatingOp → UInt64 → UInt64 → UInt64
  | .add => Double.add
  | .sub => Double.sub
  | .mul => Double.mul
  | .div => Double.div
  | .rem => Double.rem

/-- Throws for a division by zero. -/
def divisionByZero (s : Context) : M Unit := s.throwNew Throwables.arithmetic "/ by zero"

/-- An operation on two ints. -/
def int (s : Context) (op : IntegerOp) : M Unit := do
  let b ← popInt
  let a ← popInt
  match intResult op a b with
  | some r => pushInt r
  | none => divisionByZero s

/-- An operation on two longs. -/
def long (s : Context) (op : IntegerOp) : M Unit := do
  let b ← popLong
  let a ← popLong
  match longResult op a b with
  | some r => pushLong r
  | none => divisionByZero s

/-- Changes the sign of a number. -/
def negate : NumberKind → M Unit
  | .int => do pushInt (-(← popInt))
  | .long => do pushLong (-(← popLong))
  | .float => do pushFloat (Single.neg (← popFloat))
  | .double => do pushDouble (Double.neg (← popDouble))

/-- Converts a number. -/
def convert : Conversion → M Unit
  | .i2l => do pushLong (← popInt).toInt64
  | .i2f => do pushFloat (← popInt).toFloat32.toBits
  | .i2d => do pushDouble (← popInt).toFloat.toBits
  | .l2i => do pushInt (← popLong).toInt32
  | .l2f => do pushFloat (← popLong).toFloat32.toBits
  | .l2d => do pushDouble (← popLong).toFloat.toBits
  | .f2i => do pushInt (Double.toInt (Single.toDouble (← popFloat)))
  | .f2l => do pushLong (Double.toLong (Single.toDouble (← popFloat)))
  | .f2d => do pushDouble (Single.toDouble (← popFloat))
  | .d2i => do pushInt (Double.toInt (← popDouble))
  | .d2l => do pushLong (Double.toLong (← popDouble))
  | .d2f => do pushFloat (Double.toSingle (← popDouble))
  | .i2b => do pushInt (← popInt).toInt8.toInt32
  | .i2c => do pushInt (← popInt).toUInt32.toUInt16.toUInt32.toInt32
  | .i2s => do pushInt (← popInt).toInt16.toInt32

/-- Three-way comparison of longs. -/
def compareLongs (a b : Int64) : Int32 := if a < b then -1 else if b < a then 1 else 0

end JavaMachine.Execute
