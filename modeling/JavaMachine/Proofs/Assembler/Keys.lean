import JavaMachine.Assembler.Pool
import Mathlib.Data.List.Basic
import Std.Data.String.ToInt

/-!
The keys under which a pool finds its constants tell them apart. Numbers are written with digits alone, so a colon ends
each of them, and a fixed count of hexadecimal digits gives the bits of a float back. Main result: `Constant.key_inj`.
-/

namespace JavaMachine

open Text

/-! ## Digits -/

namespace Text.Hex

/-- The number that hexadecimal digits stand for. -/
def number (digits : List Char) : Nat := digits.foldl (fun n c => 16 * n + (value? c).getD 0) 0

theorem value?_digit {n : Nat} (h : n < 16) : value? (Nat.digitChar n) = some n := by
  revert n
  decide

theorem number_toDigits (n : Nat) : number (Nat.toDigits 16 n) = n := by
  induction n using Nat.strongRecOn with
  | ind n ih =>
    rcases Nat.lt_or_ge n 16 with hlt | hge
    · rw [Nat.toDigits_of_lt_base hlt, number, List.foldl_cons, List.foldl_nil, value?_digit hlt,
        Option.getD_some, Nat.mul_zero, Nat.zero_add]
    · have hrest := ih (n / 16) (Nat.div_lt_self (by omega) (by omega))
      rw [number] at hrest
      rw [Nat.toDigits_of_base_le (by omega) hge, number, List.foldl_append, hrest, List.foldl_cons, List.foldl_nil,
        value?_digit (Nat.mod_lt n (by omega))]
      exact Nat.div_add_mod n 16

theorem number_zeros (k : Nat) (digits : List Char) : number (List.replicate k '0' ++ digits) = number digits := by
  induction k with
  | zero => rfl
  | succ k ih => exact ih

theorem number_lower (width n : Nat) : number (lower width n).toList = n := by
  rw [lower, padLeft, String.toList_append, String.toList_ofList, String.toList_ofList, number_zeros, number_toDigits]

/-- Numbers with the same digits are equal. -/
theorem lower_inj {width m n : Nat} : lower width m = lower width n ↔ m = n := by
  refine ⟨fun h => ?_, congrArg _⟩
  rw [← number_lower width m, h, number_lower]

end Text.Hex

/-- Two texts that are cut at the first of a sign are equal in their parts. -/
theorem parts_of_append_cons {α : Type} {sign : α} {xs xs' ys ys' : List α} (hxs : sign ∉ xs) (hxs' : sign ∉ xs')
    (h : xs ++ sign :: ys = xs' ++ sign :: ys') : xs = xs' ∧ ys = ys' := by
  induction xs generalizing xs' with
  | nil =>
    cases xs' with
    | nil => exact ⟨rfl, List.tail_eq_of_cons_eq h⟩
    | cons x xs' =>
      obtain ⟨rfl, -⟩ := List.cons.inj h
      exact absurd List.mem_cons_self hxs'
  | cons x xs ih =>
    cases xs' with
    | nil =>
      obtain ⟨rfl, -⟩ := List.cons.inj h
      exact absurd List.mem_cons_self hxs
    | cons x' xs' =>
      obtain ⟨rfl, htail⟩ := List.cons.inj h
      obtain ⟨rfl, hys⟩ := ih (fun hmem => hxs (.tail _ hmem)) (fun hmem => hxs' (.tail _ hmem)) htail
      exact ⟨rfl, hys⟩

namespace Constant

theorem colon_not_mem (n : Nat) : ':' ∉ (toString n).toList := by
  rw [Nat.toString_eq_ofList_toDigits, String.toList_ofList]
  intro h
  exact absurd (Nat.isDigit_of_mem_toDigits (by omega) (by omega) h) (by decide)

/-- A number and a text with a colon between them can be told apart. -/
theorem colon_inj {m n : Nat} {s t : String} : toString m ++ ":" ++ s = toString n ++ ":" ++ t ↔ m = n ∧ s = t := by
  refine ⟨fun h => ?_, ?_⟩
  · have hlists := congrArg String.toList h
    simp only [String.toList_append, List.append_assoc] at hlists
    obtain ⟨hnumber, hrest⟩ := parts_of_append_cons (colon_not_mem m) (colon_not_mem n) hlists
    exact ⟨Nat.repr_inj.1 (String.toList_inj.1 hnumber), String.toList_inj.1 hrest⟩
  · rintro ⟨rfl, rfl⟩
    rfl

/-- Bytes as characters are told apart. -/
theorem ofList_bytes_inj {raw raw' : List UInt8} :
    String.ofList (raw.map Char.ofUInt8) = String.ofList (raw'.map Char.ofUInt8) ↔ raw = raw' := by
  have hbyte : Function.Injective Char.ofUInt8 := fun b b' h => UInt8.toUInt32_inj.1 (congrArg Char.val h)
  exact ⟨fun h => List.map_injective_iff.2 hbyte (String.ofList_injective h), fun h => h ▸ rfl⟩

theorem toString_inj16 {v w : UInt16} : toString v.toNat = toString w.toNat ↔ v = w :=
  Nat.repr_inj.trans UInt16.toNat_inj

theorem tag_inj {kind kind' : MemberKind} : kind.tag.toNat = kind'.tag.toNat ↔ kind = kind' := by
  cases kind <;> cases kind' <;> decide

theorem detail_member (kind : MemberKind) (owner nt : UInt16) :
    (Constant.member kind owner nt).detail =
      toString kind.tag.toNat ++ ":" ++ (toString owner.toNat ++ ":" ++ toString nt.toNat) := by
  rw [← String.append_assoc, ← String.append_assoc]
  rfl

/-- What follows the letter tells the constants of a kind apart. -/
theorem eq_of_detail {c c' : Constant} (hletter : c.letter = c'.letter) (h : c.detail = c'.detail) : c = c' := by
  cases c with
  | utf8 raw =>
    cases c' with
    | utf8 raw' => exact congrArg _ (ofList_bytes_inj.1 h)
    | _ => nomatch hletter
  | int v =>
    cases c' with
    | int v' => exact congrArg _ (Int32.toInt_inj.1 (Int.repr_inj.1 h))
    | _ => nomatch hletter
  | float bits =>
    cases c' with
    | float bits' => exact congrArg _ (UInt32.toNat_inj.1 (Hex.lower_inj.1 h))
    | _ => nomatch hletter
  | long v =>
    cases c' with
    | long v' => exact congrArg _ (Int64.toInt_inj.1 (Int.repr_inj.1 h))
    | _ => nomatch hletter
  | double bits =>
    cases c' with
    | double bits' => exact congrArg _ (UInt64.toNat_inj.1 (Hex.lower_inj.1 h))
    | _ => nomatch hletter
  | «class» name =>
    cases c' with
    | «class» name' => exact congrArg _ (toString_inj16.1 h)
    | _ => nomatch hletter
  | string text =>
    cases c' with
    | string text' => exact congrArg _ (toString_inj16.1 h)
    | _ => nomatch hletter
  | member kind owner nt =>
    cases c' with
    | member kind' owner' nt' =>
      rw [detail_member, detail_member] at h
      obtain ⟨hkind, hplaces⟩ := colon_inj.1 h
      obtain ⟨howner, hnt⟩ := colon_inj.1 hplaces
      rw [tag_inj.1 hkind, UInt16.toNat_inj.1 howner, toString_inj16.1 hnt]
    | _ => nomatch hletter
  | nameAndType name desc =>
    cases c' with
    | nameAndType name' desc' =>
      obtain ⟨hname, hdesc⟩ := colon_inj.1 h
      rw [UInt16.toNat_inj.1 hname, toString_inj16.1 hdesc]
    | _ => nomatch hletter
  | methodHandle kind reference =>
    cases c' with
    | methodHandle kind' reference' =>
      obtain ⟨hkind, hreference⟩ := colon_inj.1 h
      rw [UInt8.toNat_inj.1 hkind, toString_inj16.1 hreference]
    | _ => nomatch hletter
  | methodType desc =>
    cases c' with
    | methodType desc' => exact congrArg _ (toString_inj16.1 h)
    | _ => nomatch hletter
  | invokeDynamic bootstrap nt =>
    cases c' with
    | invokeDynamic bootstrap' nt' =>
      obtain ⟨hbootstrap, hnt⟩ := colon_inj.1 h
      rw [UInt16.toNat_inj.1 hbootstrap, toString_inj16.1 hnt]
    | _ => nomatch hletter

/-- Different constants have different keys. -/
theorem key_inj {c c' : Constant} : c.key = c'.key ↔ c = c' := by
  refine ⟨fun h => ?_, congrArg _⟩
  have hlists := congrArg String.toList h
  rw [key, key, String.toList_append, String.toList_append, String.toList_singleton, String.toList_singleton,
    List.singleton_append, List.singleton_append] at hlists
  obtain ⟨hletter, hdetail⟩ := List.cons.inj hlists
  exact eq_of_detail hletter (String.toList_inj.1 hdetail)

end Constant

end JavaMachine
