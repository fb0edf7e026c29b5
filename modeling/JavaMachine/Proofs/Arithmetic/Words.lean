import JavaMachine.Machine.Execute.Arithmetic
import JavaMachine.Proofs.Bytes.BigEndian
import JavaMachine.Proofs.Memory.Natives
import Mathlib.Data.Int.Bitwise

/-!
Integers of 32 and 64 bits. Slots hold integers in two's complement, and what the machine computes with them is what
the integers give when this is reduced to their width: sums, products and quotients, bits, shifts by a distance modulo
the width, narrowings and comparisons. Main results: `holds_slots`, `intResult_eq`, `longResult_eq`, `shiftInt_eq`,
`shiftLong_eq`, `tdiv_tmod_reduced`.
-/

namespace JavaMachine

/-- The kinds of integers: ints of 32 bits and longs of 64. -/
inductive Word where
  | int
  | long
deriving DecidableEq, Repr

namespace Word

/-- How many bits an integer has. -/
def bits : Word → Nat
  | .int => 32
  | .long => 64

/-- The slots of an integer, reduced to its bits. A long takes two, the low half first. -/
def slots : Word → Int → List Slot
  | .int, n => [.num (Int32.ofInt n)]
  | .long, n => [.num (Int32.ofInt n), .num (Int32.ofInt (n / 2 ^ 32))]

/-- Slots hold an integer. The high half of a long has its sign, the low half has none. -/
inductive Holds : Word → List Slot → Int → Prop
  | int (x : Slot) : Holds .int [x] x.int.toInt
  | long (lo hi : Slot) : Holds .long [lo, hi] (hi.int.toInt * 2 ^ 32 + lo.int.toInt % 2 ^ 32)

/-! ## Slots -/

/-- The number of a bit vector without a sign is the one with a sign, modulo two to its width. -/
theorem toNat_eq_emod {w : Nat} (x : BitVec w) : (x.toNat : Int) = x.toInt % 2 ^ w := by
  have hlt : (x.toNat : Int) < 2 ^ w := by exact_mod_cast x.isLt
  have hsame : x.toInt % ((2 ^ w : Nat) : Int) = x.toNat % ((2 ^ w : Nat) : Int) := by
    rw [BitVec.toInt_eq_toNat_bmod, Int.bmod_emod]
  rw [Int.natCast_pow] at hsame
  exact (Int.emod_eq_of_lt (Int.natCast_nonneg _) hlt).symm.trans hsame.symm

theorem ofInt_congr32 {m n : Int} (h : m % 2 ^ 32 = n % 2 ^ 32) : Int32.ofInt m = Int32.ofInt n := by
  apply Int32.toBitVec_inj.1
  apply BitVec.eq_of_toNat_eq
  rw [Int32.toBitVec_ofInt, Int32.toBitVec_ofInt, BitVec.toNat_ofInt, BitVec.toNat_ofInt]
  exact congrArg Int.toNat h

theorem toInt32_eq (u : UInt32) : u.toInt32 = Int32.ofInt u.toNat := by
  apply Int32.toBitVec_inj.1
  rw [Int32.toBitVec_ofInt, BitVec.ofInt_natCast]
  change u.toBitVec = BitVec.ofNat 32 u.toBitVec.toNat
  rw [BitVec.ofNat_toNat, BitVec.setWidth_eq]

theorem toInt_joinLong (lo hi : Slot) :
    (Slot.joinLong lo hi).toInt = hi.int.toInt * 2 ^ 32 + lo.int.toInt % 2 ^ 32 := by
  have hlow : (lo.int.toUInt32.toNat : Int) = lo.int.toInt % 2 ^ 32 := toNat_eq_emod lo.int.toBitVec
  have hhigh : (hi.int.toUInt32.toNat : Int) = hi.int.toInt % 2 ^ 32 := toNat_eq_emod hi.int.toBitVec
  have hjoin : (BigEndian.join32 hi.int.toUInt32 lo.int.toUInt32).toNat =
      2 ^ 32 * hi.int.toUInt32.toNat + lo.int.toUInt32.toNat := by
    rw [BigEndian.join32, UInt64.toNat_or, UInt64.toNat_shiftLeft, UInt32.toNat_toUInt64, UInt32.toNat_toUInt64]
    change hi.int.toUInt32.toNat <<< 32 % 2 ^ 64 ||| _ = _
    have hlt := hi.int.toUInt32.toNat_lt
    rw [Nat.shiftLeft_eq, Nat.mod_eq_of_lt (by omega), Nat.mul_comm, Nat.two_pow_add_eq_or_of_lt lo.int.toUInt32.toNat_lt]
  have hvalue : (Slot.joinLong lo hi).toInt =
      ((BigEndian.join32 hi.int.toUInt32 lo.int.toUInt32).toNat : Int).bmod (2 ^ 64) :=
    BitVec.toInt_eq_toNat_bmod _
  have hrange := hi.int.toInt_lt
  have hrange' := hi.int.le_toInt
  rw [hvalue, hjoin, Int.natCast_add, Int.natCast_mul, hlow, hhigh, Int.bmod]
  split <;> omega

theorem slots_long (n : Int) :
    Word.long.slots n = [.lowHalf (Int64.ofInt n), .highHalf (Int64.ofInt n)] := by
  generalize hv : Int64.ofInt n = v
  have hnumber : (v.toUInt64.toNat : Int) = n % 2 ^ 64 := by
    have hnat : v.toUInt64.toNat = (n % 2 ^ 64).toNat := by
      rw [← hv]
      exact BitVec.toNat_ofInt n
    omega
  have hlow : v.toUInt64.toUInt32.toInt32 = Int32.ofInt n := by
    rw [toInt32_eq, UInt64.toNat_toUInt32]
    exact ofInt_congr32 (by omega)
  have hhigh : (v.toUInt64 >>> 32).toUInt32.toInt32 = Int32.ofInt (n / 2 ^ 32) := by
    rw [toInt32_eq, UInt64.toNat_toUInt32, UInt64.toNat_shiftRight]
    change Int32.ofInt (v.toUInt64.toNat >>> 32 % 2 ^ 32 : Nat) = _
    rw [Nat.shiftRight_eq_div_pow]
    exact ofInt_congr32 (by omega)
  rw [Slot.lowHalf, Slot.highHalf, hlow, hhigh]
  rfl

/-- What is written for an integer holds it, reduced to its bits. -/
theorem holds_slots (w : Word) (n : Int) : Holds w (w.slots n) (n.bmod (2 ^ w.bits)) := by
  cases w with
  | int =>
    have hvalue : (Int32.ofInt n).toInt = n.bmod (2 ^ 32) := Int32.toInt_ofInt
    change Holds .int [.num (Int32.ofInt n)] (n.bmod (2 ^ 32))
    rw [← hvalue]
    exact .int (.num (Int32.ofInt n))
  | long =>
    have hlow : (Int32.ofInt n).toInt = n.bmod (2 ^ 32) := Int32.toInt_ofInt
    have hhigh : (Int32.ofInt (n / 2 ^ 32)).toInt = (n / 2 ^ 32).bmod (2 ^ 32) := Int32.toInt_ofInt
    have hvalue : n.bmod (2 ^ 64) = (Int32.ofInt (n / 2 ^ 32)).toInt * 2 ^ 32 + (Int32.ofInt n).toInt % 2 ^ 32 := by
      rw [hlow, hhigh]
      simp only [Int.bmod]
      split <;> split <;> split <;> omega
    change Holds .long [.num (Int32.ofInt n), .num (Int32.ofInt (n / 2 ^ 32))] (n.bmod (2 ^ 64))
    rw [hvalue]
    exact .long _ _

/-! ## Bits -/

theorem getLsbD_ofInt (w : Nat) (n : Int) (i : Nat) : (BitVec.ofInt w n).getLsbD i = (decide (i < w) && n.testBit i) := by
  cases n with
  | ofNat n =>
    change (BitVec.ofInt w (n : Int)).getLsbD i = _
    rw [BitVec.ofInt_natCast, BitVec.getLsbD_ofNat]
    rfl
  | negSucc n =>
    rw [BitVec.ofInt_negSucc_eq_not_ofNat, BitVec.getLsbD_not, BitVec.getLsbD_ofNat]
    change _ = (decide (i < w) && !n.testBit i)
    cases decide (i < w) <;> simp

theorem ofInt_land (w : Nat) (a b : Int) : BitVec.ofInt w (a.land b) = BitVec.ofInt w a &&& BitVec.ofInt w b := by
  apply BitVec.eq_of_getLsbD_eq
  intro i hi
  simp only [BitVec.getLsbD_and, getLsbD_ofInt, Int.testBit_land, hi, decide_true, Bool.true_and]

theorem ofInt_lor (w : Nat) (a b : Int) : BitVec.ofInt w (a.lor b) = BitVec.ofInt w a ||| BitVec.ofInt w b := by
  apply BitVec.eq_of_getLsbD_eq
  intro i hi
  simp only [BitVec.getLsbD_or, getLsbD_ofInt, Int.testBit_lor, hi, decide_true, Bool.true_and]

theorem ofInt_xor (w : Nat) (a b : Int) : BitVec.ofInt w (a.xor b) = BitVec.ofInt w a ^^^ BitVec.ofInt w b := by
  apply BitVec.eq_of_getLsbD_eq
  intro i hi
  simp only [BitVec.getLsbD_xor, getLsbD_ofInt, Int.testBit_lxor, hi, decide_true, Bool.true_and]

theorem ofInt_shiftLeft {w : Nat} (x : BitVec w) (k : Nat) : BitVec.ofInt w (x.toInt * 2 ^ k) = x <<< k := by
  rw [BitVec.ofInt_mul, BitVec.ofInt_toInt, BitVec.shiftLeft_eq_mul_twoPow]
  congr 1
  have hpow : (2 : Int) ^ k = (2 ^ k : Nat) := (Int.natCast_pow 2 k).symm
  apply BitVec.eq_of_toNat_eq
  rw [hpow, BitVec.ofInt_natCast, BitVec.toNat_ofNat, BitVec.toNat_twoPow]

theorem ofInt_sshiftRight {w : Nat} (x : BitVec w) (k : Nat) : BitVec.ofInt w (x.toInt / 2 ^ k) = x.sshiftRight k := by
  have h : x.toInt / 2 ^ k = (x.sshiftRight k).toInt := by
    rw [BitVec.toInt_sshiftRight, Int.shiftRight_eq_div_pow, Int.natCast_pow]
    rfl
  rw [h, BitVec.ofInt_toInt]

theorem ofInt_ushiftRight {w : Nat} (x : BitVec w) (k : Nat) : BitVec.ofInt w (x.toInt % 2 ^ w / 2 ^ k) = x >>> k := by
  have h : x.toInt % 2 ^ w / 2 ^ k = ((x >>> k).toNat : Int) := by
    rw [BitVec.toNat_ushiftRight, Nat.shiftRight_eq_div_pow, Int.natCast_ediv, toNat_eq_emod, Int.natCast_pow]
    rfl
  rw [h, BitVec.ofInt_natCast, BitVec.ofNat_toNat, BitVec.setWidth_eq]

/-! ## Operations -/

end Word

/-- What an operation makes of two integers. -/
def IntegerOp.exact : IntegerOp → Int → Int → Int
  | .add, a, b => a + b
  | .sub, a, b => a - b
  | .mul, a, b => a * b
  | .div, a, b => a.tdiv b
  | .rem, a, b => a.tmod b
  | .and, a, b => a.land b
  | .or, a, b => a.lor b
  | .xor, a, b => a.xor b

/-- Whether an operation needs a divisor. -/
def IntegerOp.divides : IntegerOp → Prop
  | .div | .rem => True
  | _ => False

/-- What a shift makes of an integer with some bits. -/
def ShiftOp.exact (bits : Nat) : ShiftOp → Int → Int → Int
  | .shl, a, d => a * 2 ^ (d % bits).toNat
  | .shr, a, d => a / 2 ^ (d % bits).toNat
  | .ushr, a, d => a % 2 ^ bits / 2 ^ (d % bits).toNat

namespace Execute

open Word

theorem eq_ofInt32 {r : Int32} {n : Int} (h : r.toBitVec = BitVec.ofInt 32 n) : r = Int32.ofInt n :=
  Int32.toBitVec_inj.1 (h.trans (Int32.toBitVec_ofInt n).symm)

theorem eq_ofInt64 {r : Int64} {n : Int} (h : r.toBitVec = BitVec.ofInt 64 n) : r = Int64.ofInt n :=
  Int64.toBitVec_inj.1 (h.trans (Int64.toBitVec_ofInt n).symm)

/-- Operations of bit vectors give what the integers do. -/
theorem ofInt_exact {w : Nat} (op : IntegerOp) (x y : BitVec w) :
    BitVec.ofInt w (op.exact x.toInt y.toInt) =
      match op with
      | .add => x + y
      | .sub => x - y
      | .mul => x * y
      | .div => x.sdiv y
      | .rem => x.srem y
      | .and => x &&& y
      | .or => x ||| y
      | .xor => x ^^^ y := by
  cases op with
  | add => exact (BitVec.ofInt_add ..).trans (by rw [BitVec.ofInt_toInt, BitVec.ofInt_toInt])
  | sub =>
    apply BitVec.toInt_inj.1
    rw [BitVec.toInt_ofInt, BitVec.toInt_sub]
    rfl
  | mul => exact (BitVec.ofInt_mul ..).trans (by rw [BitVec.ofInt_toInt, BitVec.ofInt_toInt])
  | div =>
    apply BitVec.toInt_inj.1
    rw [BitVec.toInt_ofInt, BitVec.toInt_sdiv]
    rfl
  | rem =>
    change BitVec.ofInt w (x.toInt.tmod y.toInt) = x.srem y
    rw [← BitVec.toInt_srem, BitVec.ofInt_toInt]
  | and => exact (ofInt_land ..).trans (by rw [BitVec.ofInt_toInt, BitVec.ofInt_toInt])
  | or => exact (ofInt_lor ..).trans (by rw [BitVec.ofInt_toInt, BitVec.ofInt_toInt])
  | xor => exact (ofInt_xor ..).trans (by rw [BitVec.ofInt_toInt, BitVec.ofInt_toInt])

theorem intResult_eq {op : IntegerOp} {a b : Int32} (h : op.divides → b ≠ 0) :
    intResult op a b = some (Int32.ofInt (op.exact a.toInt b.toInt)) := by
  have hexact := ofInt_exact op a.toBitVec b.toBitVec
  cases op with
  | add => exact congrArg some (eq_ofInt32 hexact.symm)
  | sub => exact congrArg some (eq_ofInt32 hexact.symm)
  | mul => exact congrArg some (eq_ofInt32 hexact.symm)
  | div => exact (if_neg (h trivial)).trans (congrArg some (eq_ofInt32 hexact.symm))
  | rem => exact (if_neg (h trivial)).trans (congrArg some (eq_ofInt32 hexact.symm))
  | and => exact congrArg some (eq_ofInt32 hexact.symm)
  | or => exact congrArg some (eq_ofInt32 hexact.symm)
  | xor => exact congrArg some (eq_ofInt32 hexact.symm)

theorem longResult_eq {op : IntegerOp} {a b : Int64} (h : op.divides → b ≠ 0) :
    longResult op a b = some (Int64.ofInt (op.exact a.toInt b.toInt)) := by
  have hexact := ofInt_exact op a.toBitVec b.toBitVec
  cases op with
  | add => exact congrArg some (eq_ofInt64 hexact.symm)
  | sub => exact congrArg some (eq_ofInt64 hexact.symm)
  | mul => exact congrArg some (eq_ofInt64 hexact.symm)
  | div => exact (if_neg (h trivial)).trans (congrArg some (eq_ofInt64 hexact.symm))
  | rem => exact (if_neg (h trivial)).trans (congrArg some (eq_ofInt64 hexact.symm))
  | and => exact congrArg some (eq_ofInt64 hexact.symm)
  | or => exact congrArg some (eq_ofInt64 hexact.symm)
  | xor => exact congrArg some (eq_ofInt64 hexact.symm)

/-! ## Shifts -/

/-- Operations of bit vectors by a distance that is within the width give what the integers do. -/
theorem ofInt_shift {w : Nat} (op : ShiftOp) (x : BitVec w) (d : Int) :
    BitVec.ofInt w (op.exact w x.toInt d) =
      match op with
      | .shl => x <<< (d % w).toNat
      | .shr => x.sshiftRight (d % w).toNat
      | .ushr => x >>> (d % w).toNat := by
  cases op with
  | shl => exact ofInt_shiftLeft x _
  | shr => exact ofInt_sshiftRight x _
  | ushr => exact ofInt_ushiftRight x _

/-- The low bits of a distance are what it leaves modulo the number that they count to. -/
theorem toInt_mask {mask : Int32} {k : Nat} (hk : k < 31) (hmask : mask.toBitVec.toNat = 2 ^ k - 1) (d : Int32) :
    (d &&& mask).toInt = d.toInt % 2 ^ k := by
  have hpow : 2 ^ k ≤ 2 ^ 30 := Nat.pow_le_pow_right (by decide) (Nat.le_of_lt_succ hk)
  have hlt : d.toBitVec.toNat % 2 ^ k < 2 ^ k := Nat.mod_lt _ (Nat.two_pow_pos k)
  have hbits : (d &&& mask).toBitVec.toNat = d.toBitVec.toNat % 2 ^ k := by
    rw [Int32.toBitVec_and, BitVec.toNat_and, hmask, Nat.and_two_pow_sub_one_eq_mod]
  change (d &&& mask).toBitVec.toInt = d.toBitVec.toInt % 2 ^ k
  rw [BitVec.toInt_eq_toNat_of_lt (by omega), hbits, Int.natCast_emod, toNat_eq_emod, Int.natCast_pow]
  exact Int.emod_emod_of_dvd _ (pow_dvd_pow 2 (by omega))

/-- A distance within the width is not changed by taking it modulo the width. -/
theorem toNat_smod {w : Nat} {x y : BitVec w} {k : Nat} (hy : y.toInt = k) (hx : 0 ≤ x.toInt) (hlt : x.toInt < k) :
    (x.smod y).toNat = x.toInt.toNat ∧ (x % y).toNat = x.toInt.toNat := by
  have hnat : ∀ {z : BitVec w}, 0 ≤ z.toInt → z.toNat = z.toInt.toNat := by
    intro z hz
    have hbound : 2 * z.toInt < 2 ^ w := z.two_mul_toInt_lt
    have hnumber := toNat_eq_emod z
    rw [Int.emod_eq_of_lt hz (by omega)] at hnumber
    omega
  have hsmod : x.smod y = x := by
    apply BitVec.toInt_inj.1
    rw [BitVec.toInt_smod, hy, Int.fmod_eq_emod_of_nonneg _ (by omega), Int.emod_eq_of_lt hx hlt]
  have humod : (x % y).toNat = x.toNat := by
    have hx' := hnat hx
    have hy' := hnat (z := y) (by omega)
    rw [BitVec.toNat_umod, Nat.mod_eq_of_lt (by omega)]
  rw [hsmod, humod, hnat hx]
  exact ⟨rfl, rfl⟩

theorem shiftInt_eq (op : ShiftOp) (a d : Int32) : shiftInt op a d = Int32.ofInt (op.exact 32 a.toInt d.toInt) := by
  have hn : (d &&& 0x1f).toInt = d.toInt % (32 : Nat) := toInt_mask (k := 5) (by decide) rfl d
  have hdistance := toNat_smod (w := 32) (x := (d &&& 0x1f).toBitVec) (y := 32) (k := 32) rfl
    (by rw [Int32.toInt_toBitVec, hn]; omega) (by rw [Int32.toInt_toBitVec, hn]; omega)
  rw [Int32.toInt_toBitVec, hn] at hdistance
  have hexact := ofInt_shift op a.toBitVec d.toInt
  apply eq_ofInt32
  rw [← Int32.toInt_toBitVec a, hexact]
  cases op with
  | shl =>
    change (a <<< (d &&& 0x1f)).toBitVec = _
    rw [Int32.toBitVec_shiftLeft, BitVec.shiftLeft_eq', hdistance.1]
  | shr =>
    change (a >>> (d &&& 0x1f)).toBitVec = _
    rw [Int32.toBitVec_shiftRight, BitVec.sshiftRight_eq', hdistance.1]
  | ushr =>
    change a.toBitVec >>> ((d &&& 0x1f).toBitVec % 32) = _
    rw [BitVec.ushiftRight_eq', hdistance.2]

theorem shiftLong_eq (op : ShiftOp) (a : Int64) (d : Int32) :
    shiftLong op a d = Int64.ofInt (op.exact 64 a.toInt d.toInt) := by
  have hn : (d &&& 0x3f).toInt64.toInt = d.toInt % (64 : Nat) :=
    (Int32.toInt_toInt64 _).trans (toInt_mask (k := 6) (by decide) rfl d)
  have hdistance := toNat_smod (w := 64) (x := (d &&& 0x3f).toInt64.toBitVec) (y := 64) (k := 64) rfl
    (by rw [Int64.toInt_toBitVec, hn]; omega) (by rw [Int64.toInt_toBitVec, hn]; omega)
  rw [Int64.toInt_toBitVec, hn] at hdistance
  have hexact := ofInt_shift op a.toBitVec d.toInt
  apply eq_ofInt64
  rw [← Int64.toInt_toBitVec a, hexact]
  cases op with
  | shl =>
    change (a <<< (d &&& 0x3f).toInt64).toBitVec = _
    rw [Int64.toBitVec_shiftLeft, BitVec.shiftLeft_eq', hdistance.1]
  | shr =>
    change (a >>> (d &&& 0x3f).toInt64).toBitVec = _
    rw [Int64.toBitVec_shiftRight, BitVec.sshiftRight_eq', hdistance.1]
  | ushr =>
    change a.toBitVec >>> ((d &&& 0x3f).toInt64.toBitVec % 64) = _
    rw [BitVec.ushiftRight_eq', hdistance.2]

/-! ## Other instructions -/

theorem negInt_eq (a : Int32) : -a = Int32.ofInt (-a.toInt) := by rw [Int32.ofInt_neg, Int32.ofInt_toInt]

theorem negLong_eq (a : Int64) : -a = Int64.ofInt (-a.toInt) := by rw [Int64.ofInt_neg, Int64.ofInt_toInt]

theorem widened_eq (a : Int32) : a.toInt64 = Int64.ofInt a.toInt := by
  rw [← Int32.toInt_toInt64, Int64.ofInt_toInt]

theorem narrowed_eq (a : Int64) : a.toInt32 = Int32.ofInt a.toInt := by
  apply Int32.toInt_inj.1
  rw [Int64.toInt_toInt32, Int32.toInt_ofInt]

theorem byte_eq (a : Int32) : a.toInt8.toInt32 = Int32.ofInt (a.toInt.bmod (2 ^ 8)) := by
  rw [← Int32.toInt_toInt8, ← Int8.toInt_toInt32, Int32.ofInt_toInt]

theorem short_eq (a : Int32) : a.toInt16.toInt32 = Int32.ofInt (a.toInt.bmod (2 ^ 16)) := by
  rw [← Int32.toInt_toInt16, ← Int16.toInt_toInt32, Int32.ofInt_toInt]

theorem char_eq (a : Int32) : a.toUInt32.toUInt16.toUInt32.toInt32 = Int32.ofInt (a.toInt % 2 ^ 16) := by
  have hnumber : (a.toUInt32.toNat : Int) = a.toInt % 2 ^ 32 := toNat_eq_emod a.toBitVec
  rw [toInt32_eq, UInt16.toNat_toUInt32, UInt32.toNat_toUInt16]
  exact ofInt_congr32 (by omega)

/-- The sign of the difference tells how two longs compare. -/
theorem compareLongs_eq (a b : Int64) : compareLongs a b = Int32.ofInt (a.toInt - b.toInt).sign := by
  simp only [compareLongs, Int64.lt_iff_toInt_lt]
  split
  · rw [Int.sign_eq_neg_one_of_neg (by omega)]
    rfl
  · split
    · rw [Int.sign_eq_one_of_pos (by omega)]
      rfl
    · rw [show a.toInt - b.toInt = 0 by omega]
      rfl

end Execute

/-! ## Division -/

namespace Word

/-- What slots hold is within the range of integers with as many bits. -/
theorem Holds.range {w : Word} {slots : List Slot} {n : Int} (h : Holds w slots n) :
    -2 ^ (w.bits - 1) ≤ n ∧ n < 2 ^ (w.bits - 1) := by
  cases h with
  | int x => exact ⟨x.int.le_toInt, x.int.toInt_lt⟩
  | long lo hi =>
    have hlow := hi.int.le_toInt
    have hhigh := hi.int.toInt_lt
    change -2 ^ 63 ≤ _ ∧ _ < 2 ^ 63
    omega

theorem bmod_of_range {w : Word} {n : Int} (hlow : -2 ^ (w.bits - 1) ≤ n) (hhigh : n < 2 ^ (w.bits - 1)) :
    n.bmod (2 ^ w.bits) = n := by
  cases w with
  | int =>
    change -2 ^ 31 ≤ n at hlow
    change n < 2 ^ 31 at hhigh
    change n.bmod (2 ^ 32) = n
    exact Int.bmod_eq_of_le (by omega) (by omega)
  | long =>
    change -2 ^ 63 ≤ n at hlow
    change n < 2 ^ 63 at hhigh
    change n.bmod (2 ^ 64) = n
    exact Int.bmod_eq_of_le (by omega) (by omega)

/-- A quotient and a remainder, reduced to the bits of what was divided, make it up again; the remainder is smaller than
the divisor and has the sign of the dividend. Only the quotient of the least integer by minus one is not exact: it is
the least integer again. -/
theorem tdiv_tmod_reduced {w : Word} {xs ys : List Slot} {a b : Int} (hx : Holds w xs a) (hy : Holds w ys b)
    (hb : b ≠ 0) :
    ((a.tdiv b).bmod (2 ^ w.bits) * b + (a.tmod b).bmod (2 ^ w.bits)).bmod (2 ^ w.bits) = a ∧
      ((a.tmod b).bmod (2 ^ w.bits)).natAbs < b.natAbs ∧
      (0 ≤ a → 0 ≤ (a.tmod b).bmod (2 ^ w.bits)) ∧ (a ≤ 0 → (a.tmod b).bmod (2 ^ w.bits) ≤ 0) ∧
      (a = -2 ^ (w.bits - 1) → b = -1 →
        (a.tdiv b).bmod (2 ^ w.bits) = a ∧ (a.tmod b).bmod (2 ^ w.bits) = 0) := by
  obtain ⟨halow, hahigh⟩ := hx.range
  have habs := Int.natAbs_tmod a b
  have hsmall : a.natAbs % b.natAbs < b.natAbs := Nat.mod_lt _ (by omega)
  have hless : a.natAbs % b.natAbs ≤ a.natAbs := Nat.mod_le ..
  have hpos : 0 ≤ a → 0 ≤ a.tmod b := Int.tmod_nonneg b
  have hneg : a ≤ 0 → a.tmod b ≤ 0 := by
    intro h
    have := Int.tmod_nonneg b (Int.neg_nonneg_of_nonpos h)
    rw [Int.neg_tmod] at this
    omega
  have hrem : (a.tmod b).bmod (2 ^ w.bits) = a.tmod b := bmod_of_range (by omega) (by omega)
  rw [hrem, ← Int.bmod_add_bmod, Int.bmod_mul_bmod, Int.bmod_add_bmod, Int.tdiv_mul_add_tmod, bmod_of_range halow hahigh]
  refine ⟨rfl, by omega, hpos, hneg, ?_⟩
  rintro rfl rfl
  cases w with
  | int => exact ⟨rfl, rfl⟩
  | long => exact ⟨rfl, rfl⟩

end Word

end JavaMachine
