import JavaMachine.Bytes.BigEndian
import Mathlib.Algebra.Group.Int.Defs
import Mathlib.Algebra.Group.Nat.Defs

/-!
Writing a word gives back the bytes that it was read from, and reading the bytes of a word gives back the word. Each
statement compares a word bit by bit. The low bits of an integer that fits are the integer.
-/

namespace JavaMachine.BigEndian

theorem bytes16_word16 (a b : UInt8) : bytes16 (word16 a b) = [a, b] := by
  simp only [bytes16, word16, List.cons.injEq, and_true]
  constructor
  · apply UInt8.eq_of_toBitVec_eq
    ext i
    simp
    grind
  · apply UInt8.eq_of_toBitVec_eq
    ext i
    simp

theorem bytes32_word32 (a b c d : UInt8) : bytes32 (word32 a b c d) = [a, b, c, d] := by
  simp only [bytes32, word32, List.cons.injEq, and_true]
  refine ⟨?_, ?_, ?_, ?_⟩ <;> apply UInt8.eq_of_toBitVec_eq <;> ext i <;> simp <;> grind

theorem high_join32 (hi lo : UInt32) : (join32 hi lo >>> 32).toUInt32 = hi := by
  apply UInt32.eq_of_toBitVec_eq
  ext i
  simp [join32]
  grind

theorem low_join32 (hi lo : UInt32) : (join32 hi lo).toUInt32 = lo := by
  apply UInt32.eq_of_toBitVec_eq
  ext i
  simp [join32]

theorem bytes64_join32 (hi lo : UInt32) : bytes64 (join32 hi lo) = bytes32 hi ++ bytes32 lo := by
  rw [bytes64, high_join32, low_join32]

theorem word16_bytes (v : UInt16) : word16 (v >>> 8).toUInt8 v.toUInt8 = v := by
  apply UInt16.eq_of_toBitVec_eq
  ext i
  simp [word16, -UInt16.toUInt16_toUInt8]
  grind

theorem word32_bytes (v : UInt32) :
    word32 (v >>> 24).toUInt8 (v >>> 16).toUInt8 (v >>> 8).toUInt8 v.toUInt8 = v := by
  apply UInt32.eq_of_toBitVec_eq
  ext i
  simp [word32, -UInt32.toUInt32_toUInt8]
  grind

theorem join32_halves (v : UInt64) : join32 (v >>> 32).toUInt32 v.toUInt32 = v := by
  apply UInt64.eq_of_toBitVec_eq
  ext i
  simp [join32, -UInt64.toUInt64_toUInt32]
  grind

/-! ## The low bits of an integer, with a sign -/

theorem toInt16_low16 (n : Int) : (low16 n).toInt16 = Int16.ofInt n := by
  apply Int16.toBitVec_inj.1
  apply BitVec.eq_of_toNat_eq
  simp [low16]
  omega

theorem toInt32_low32 (n : Int) : (low32 n).toInt32 = Int32.ofInt n := by
  apply Int32.toBitVec_inj.1
  apply BitVec.eq_of_toNat_eq
  simp [low32]
  omega

theorem toInt8_low8 (n : Int) : (low8 n).toInt8 = Int8.ofInt n := by
  apply Int8.toBitVec_inj.1
  apply BitVec.eq_of_toNat_eq
  simp [low8]
  omega

/-- A number that fits into a byte is that byte. -/
theorem toNat_low8 {n : Nat} (h : n < 2 ^ 8) : (low8 n).toNat = n := by
  simp [low8]
  omega

theorem toNat_low16 {n : Nat} (h : n < 2 ^ 16) : (low16 n).toNat = n := by
  simp [low16]
  omega

/-- A number of 8 bits as a word of 32 bits. -/
theorem toInt32_ofInt8 {n : Int} (h : -2 ^ 7 ≤ n) (h' : n < 2 ^ 7) : (Int8.ofInt n).toInt32 = Int32.ofInt n := by
  apply Int32.toInt_inj.1
  rw [Int8.toInt_toInt32, Int8.toInt_ofInt_of_le h h', Int32.toInt_ofInt_of_le (by omega) (by omega)]

/-- A number of 16 bits as a word of 32 bits. -/
theorem toInt32_ofInt16 {n : Int} (h : -2 ^ 15 ≤ n) (h' : n < 2 ^ 15) : (Int16.ofInt n).toInt32 = Int32.ofInt n := by
  apply Int32.toInt_inj.1
  rw [Int16.toInt_toInt32, Int16.toInt_ofInt_of_le h h', Int32.toInt_ofInt_of_le (by omega) (by omega)]

end JavaMachine.BigEndian
