import JavaMachine.Text.ModifiedUtf8

/-!
Modified UTF-8 and UTF-16 are read back. A unit is spelled by one, two or three bytes, whose numbers make up its own;
what is written for a unit is one of its spellings, and each of them is read as the unit. So units are read back, and
the units of a text are read as that text: a character above the basic plane becomes a pair that is read as one
character again, no character is a surrogate by itself, and text that is all ASCII is no special case. Main results:
`decode_encode`, `decodeString_eq`, `decodeString_encodeString`.
-/

namespace JavaMachine.Text

namespace ModifiedUtf8

/-! ## Spellings -/

/-- A byte behind the first of a spelling. -/
def Tail (b : UInt8) : Prop := 0x80 ≤ b.toNat ∧ b.toNat < 0xC0

/-- Bytes that spell the unit of a number: a byte by itself; one with five bits of the number and one with six; or one
with four bits and two with six each. -/
inductive Spells : List UInt8 → Nat → Prop
  | one {a : UInt8} : 0 < a.toNat → a.toNat < 0x80 → Spells [a] a.toNat
  | two {a b : UInt8} : 0xC0 ≤ a.toNat → a.toNat < 0xE0 → Tail b →
      Spells [a, b] ((a.toNat - 0xC0) * 0x40 + (b.toNat - 0x80))
  | three {a b c : UInt8} : 0xE0 ≤ a.toNat → a.toNat < 0xF0 → Tail b → Tail c →
      Spells [a, b, c] ((a.toNat - 0xE0) * 0x1000 + (b.toNat - 0x80) * 0x40 + (c.toNat - 0x80))

theorem isContinuation_iff (b : UInt8) : isContinuation b = true ↔ Tail b := by
  obtain ⟨⟨b⟩⟩ := b
  unfold Tail
  revert b
  decide +kernel

theorem leadsTwo_iff (a : UInt8) : a &&& 0xE0 = 0xC0 ↔ 0xC0 ≤ a.toNat ∧ a.toNat < 0xE0 := by
  obtain ⟨⟨a⟩⟩ := a
  revert a
  decide +kernel

theorem leadsThree_iff (a : UInt8) : a &&& 0xF0 = 0xE0 ↔ 0xE0 ≤ a.toNat ∧ a.toNat < 0xF0 := by
  obtain ⟨⟨a⟩⟩ := a
  revert a
  decide +kernel

theorem eq_zero_iff (a : UInt8) : a = 0 ↔ a.toNat = 0 := UInt8.toNat_inj.symm

theorem single_iff (a : UInt8) : a < 0x80 ↔ a.toNat < 0x80 := UInt8.lt_iff_toNat_lt

theorem toNat_joinTwo (a b : UInt8) : (joinTwo a b).toNat = a.toNat % 0x20 * 0x40 + b.toNat % 0x40 := by
  have hhigh : (a &&& 0x1F).toNat = a.toNat % 0x20 := (UInt8.toNat_and ..).trans (Nat.and_two_pow_sub_one_eq_mod _ 5)
  have hlow : (b &&& 0x3F).toNat = b.toNat % 0x40 := (UInt8.toNat_and ..).trans (Nat.and_two_pow_sub_one_eq_mod _ 6)
  rw [joinTwo, UInt16.toNat_or, UInt16.toNat_shiftLeft, UInt8.toNat_toUInt16, UInt8.toNat_toUInt16, hhigh, hlow]
  change (a.toNat % 0x20) <<< 6 % 2 ^ 16 ||| _ = _
  rw [Nat.shiftLeft_eq, Nat.mod_eq_of_lt (by omega : a.toNat % 0x20 * 2 ^ 6 < 2 ^ 16), Nat.mul_comm,
    ← Nat.two_pow_add_eq_or_of_lt (Nat.mod_lt _ (by decide) : b.toNat % 0x40 < 2 ^ 6), Nat.mul_comm]

theorem toNat_joinThree (a b c : UInt8) :
    (joinThree a b c).toNat = a.toNat % 0x10 * 0x1000 + b.toNat % 0x40 * 0x40 + c.toNat % 0x40 := by
  have htop : (a &&& 0x0F).toNat = a.toNat % 0x10 := (UInt8.toNat_and ..).trans (Nat.and_two_pow_sub_one_eq_mod _ 4)
  have hhigh : (b &&& 0x3F).toNat = b.toNat % 0x40 := (UInt8.toNat_and ..).trans (Nat.and_two_pow_sub_one_eq_mod _ 6)
  have hlow : (c &&& 0x3F).toNat = c.toNat % 0x40 := (UInt8.toNat_and ..).trans (Nat.and_two_pow_sub_one_eq_mod _ 6)
  rw [joinThree, UInt16.toNat_or, UInt16.toNat_or, UInt16.toNat_shiftLeft, UInt16.toNat_shiftLeft,
    UInt8.toNat_toUInt16, UInt8.toNat_toUInt16, UInt8.toNat_toUInt16, htop, hhigh, hlow]
  change (a.toNat % 0x10) <<< 12 % 2 ^ 16 ||| (b.toNat % 0x40) <<< 6 % 2 ^ 16 ||| _ = _
  rw [Nat.shiftLeft_eq, Nat.shiftLeft_eq, Nat.mod_eq_of_lt (by omega : a.toNat % 0x10 * 2 ^ 12 < 2 ^ 16),
    Nat.mod_eq_of_lt (by omega : b.toNat % 0x40 * 2 ^ 6 < 2 ^ 16), Nat.mul_comm,
    ← Nat.two_pow_add_eq_or_of_lt (by omega : b.toNat % 0x40 * 2 ^ 6 < 2 ^ 12),
    show 2 ^ 12 * (a.toNat % 0x10) + b.toNat % 0x40 * 2 ^ 6 = 2 ^ 6 * (a.toNat % 0x10 * 0x40 + b.toNat % 0x40) by omega]
  have hlast : c.toNat % 0x40 < 2 ^ 6 := Nat.mod_lt _ (by decide)
  have hor := Nat.two_pow_add_eq_or_of_lt hlast (a.toNat % 0x10 * 0x40 + b.toNat % 0x40)
  exact hor.symm.trans (by omega)

/-! ## Reading spellings -/

/-- A spelling is read as its unit, whatever follows it. -/
theorem decodeAt_spelling {bytes : List UInt8} {u : UInt16} (h : Spells bytes u.toNat) (rest : List UInt8)
    (offset : Nat) : decodeAt offset (bytes ++ rest) = (u :: ·) <$> decodeAt (offset + bytes.length) rest := by
  generalize hn : u.toNat = n at h
  cases h with
  | @one a hpos hlt =>
    have hu : a.toUInt16 = u := UInt16.toNat_inj.1 ((UInt8.toNat_toUInt16 a).trans hn.symm)
    rw [List.singleton_append, decodeAt.eq_def]
    dsimp only
    rw [if_neg (by rw [eq_zero_iff]; omega), if_pos ((single_iff a).2 hlt), hu]
    rfl
  | @two a b hlow hhigh hb =>
    have hu : joinTwo a b = u := UInt16.toNat_inj.1 (by rw [toNat_joinTwo, hn]; unfold Tail at hb; omega)
    rw [List.cons_append, List.singleton_append, decodeAt.eq_def]
    dsimp only
    rw [if_neg (by rw [eq_zero_iff]; omega), if_neg (by rw [single_iff]; omega), if_pos ((leadsTwo_iff a).2 ⟨hlow, hhigh⟩),
      if_pos ((isContinuation_iff b).2 hb), hu]
    rfl
  | @three a b c hlow hhigh hb hc =>
    have hu : joinThree a b c = u :=
      UInt16.toNat_inj.1 (by rw [toNat_joinThree, hn]; unfold Tail at hb hc; omega)
    rw [List.cons_append, List.cons_append, List.singleton_append, decodeAt.eq_def]
    dsimp only
    rw [if_neg (by rw [eq_zero_iff]; omega), if_neg (by rw [single_iff]; omega), if_neg (by rw [leadsTwo_iff]; omega),
      if_pos ((leadsThree_iff a).2 ⟨hlow, hhigh⟩), (isContinuation_iff b).2 hb, (isContinuation_iff c).2 hc,
      Bool.and_self, if_pos rfl, hu]
    rfl

/-! ## Bytes of a unit -/

theorem toNat_leadTwo (b : UInt8) : ((b &&& 0x1F) ||| 0xC0).toNat = 0xC0 + b.toNat % 0x20 := by
  obtain ⟨⟨b⟩⟩ := b
  revert b
  decide +kernel

theorem toNat_leadThree (b : UInt8) : ((b &&& 0x0F) ||| 0xE0).toNat = 0xE0 + b.toNat % 0x10 := by
  obtain ⟨⟨b⟩⟩ := b
  revert b
  decide +kernel

theorem toNat_tail (b : UInt8) : ((b &&& 0x3F) ||| 0x80).toNat = 0x80 + b.toNat % 0x40 := by
  obtain ⟨⟨b⟩⟩ := b
  revert b
  decide +kernel

theorem tail_tail (b : UInt8) : Tail ((b &&& 0x3F) ||| 0x80) := by
  rw [Tail, toNat_tail]
  omega

/-- What is written for a unit spells it. -/
theorem spells_encodeUnit (u : UInt16) : Spells (encodeUnit u) u.toNat := by
  have hsize : u.toNat < 0x10000 := u.toNat_lt
  have hmiddle : (u >>> 6).toUInt8.toNat = u.toNat / 0x40 % 0x100 := by
    rw [UInt16.toNat_toUInt8, UInt16.toNat_shiftRight, Nat.shiftRight_eq_div_pow]
    rfl
  have htop : (u >>> 12).toUInt8.toNat = u.toNat / 0x1000 % 0x100 := by
    rw [UInt16.toNat_toUInt8, UInt16.toNat_shiftRight, Nat.shiftRight_eq_div_pow]
    rfl
  have hlow : u.toUInt8.toNat = u.toNat % 0x100 := UInt16.toNat_toUInt8 u
  unfold encodeUnit
  split
  · next h =>
    have hpos : u.toNat ≠ 0 := fun h0 => h.1 (UInt16.toNat_inj.1 h0)
    have hlt : u.toNat < 0x80 := UInt16.lt_iff_toNat_lt.1 h.2
    have hu : u.toUInt8.toNat = u.toNat := by omega
    rw [← hu]
    exact .one (by omega) (by omega)
  · split
    · next h =>
      have hlt : u.toNat < 0x800 := UInt16.lt_iff_toNat_lt.1 h
      have hu : u.toNat = (0xC0 + u.toNat / 0x40 % 0x100 % 0x20 - 0xC0) * 0x40 + (0x80 + u.toNat % 0x100 % 0x40 - 0x80) := by
        omega
      rw [hu, ← hmiddle, ← hlow, ← toNat_leadTwo, ← toNat_tail]
      exact .two (by rw [toNat_leadTwo]; omega) (by rw [toNat_leadTwo]; omega) (tail_tail _)
    · have hu : u.toNat = (0xE0 + u.toNat / 0x1000 % 0x100 % 0x10 - 0xE0) * 0x1000 +
          (0x80 + u.toNat / 0x40 % 0x100 % 0x40 - 0x80) * 0x40 + (0x80 + u.toNat % 0x100 % 0x40 - 0x80) := by
        omega
      rw [hu, ← htop, ← hmiddle, ← hlow, ← toNat_leadThree, ← toNat_tail, ← toNat_tail]
      exact .three (by rw [toNat_leadThree]; omega) (by rw [toNat_leadThree]; omega) (tail_tail _) (tail_tail _)

theorem decodeAt_encode (us : List UInt16) (offset : Nat) : decodeAt offset (encode us) = .ok us := by
  induction us generalizing offset with
  | nil => rfl
  | cons u rest ih =>
    rw [encode, List.flatMap_cons, decodeAt_spelling (spells_encodeUnit u), ← encode, ih]
    rfl

/-- Units are read back. -/
theorem decode_encode (us : List UInt16) : decode (encode us) = .ok us := decodeAt_encode us 0

end ModifiedUtf8

/-! ## Units of a character -/

namespace Units

/-- No character is a surrogate. -/
theorem not_surrogate {c : Char} (h : c.toNat < 0x10000) :
    isHigh (UInt16.ofNat c.toNat) = false ∧ isLow (UInt16.ofNat c.toNat) = false := by
  have hsize : c.toNat < UInt16.size := h
  have hto : (UInt16.ofNat c.toNat).toNat = c.toNat := UInt16.toNat_ofNat_of_lt' hsize
  have hvalid : c.toNat < 0xD800 ∨ 0xDFFF < c.toNat := by
    rcases c.valid with hlow | ⟨hhigh, -⟩
    · exact .inl hlow
    · exact .inr hhigh
  have hD800 : (0xD800 : UInt16).toNat = 0xD800 := rfl
  have hDC00 : (0xDC00 : UInt16).toNat = 0xDC00 := rfl
  have hE000 : (0xE000 : UInt16).toNat = 0xE000 := rfl
  simp only [isHigh, isLow, Bool.and_eq_false_iff, decide_eq_false_iff_not, UInt16.le_iff_toNat_le,
    UInt16.lt_iff_toNat_lt, hto, hD800, hDC00, hE000]
  omega

theorem single_ofNat {c : Char} (h : c.toNat < 0x10000) : single (UInt16.ofNat c.toNat) = c := by
  obtain ⟨hhigh, hlow⟩ := not_surrogate h
  have hsize : c.toNat < UInt16.size := h
  rw [single, hhigh, hlow, Bool.or_self, if_neg Bool.false_ne_true, UInt16.toNat_ofNat_of_lt' hsize, Char.ofNat_toNat]

/-- The halves of a pair are told from other units and give the character back. -/
theorem pair_spec {c : Char} (h : ¬c.toNat < 0x10000) :
    let n := c.toNat - 0x10000
    isHigh (UInt16.ofNat (0xD800 + n / 0x400)) = true ∧ isLow (UInt16.ofNat (0xDC00 + n % 0x400)) = true ∧
      joinPair (UInt16.ofNat (0xD800 + n / 0x400)) (UInt16.ofNat (0xDC00 + n % 0x400)) = c := by
  intro n
  have hmax : c.toNat < 0x110000 := by
    rcases c.valid with hlow | ⟨-, hhigh⟩
    · exact Nat.lt_trans hlow (by decide)
    · exact hhigh
  have hn : n < 0x100000 := by omega
  have hhi : (UInt16.ofNat (0xD800 + n / 0x400)).toNat = 0xD800 + n / 0x400 := by
    refine UInt16.toNat_ofNat_of_lt' ?_
    change _ < 0x10000
    omega
  have hlo : (UInt16.ofNat (0xDC00 + n % 0x400)).toNat = 0xDC00 + n % 0x400 := by
    refine UInt16.toNat_ofNat_of_lt' ?_
    change _ < 0x10000
    omega
  have hD800 : (0xD800 : UInt16).toNat = 0xD800 := rfl
  have hDC00 : (0xDC00 : UInt16).toNat = 0xDC00 := rfl
  have hE000 : (0xE000 : UInt16).toNat = 0xE000 := rfl
  refine ⟨?_, ?_, ?_⟩
  · simp only [isHigh, Bool.and_eq_true, decide_eq_true_eq, UInt16.le_iff_toNat_le, UInt16.lt_iff_toNat_lt, hhi, hD800,
      hDC00]
    omega
  · simp only [isLow, Bool.and_eq_true, decide_eq_true_eq, UInt16.le_iff_toNat_le, UInt16.lt_iff_toNat_lt, hlo, hDC00,
      hE000]
    omega
  · have hnat : 0x10000 + (0xD800 + n / 0x400 - 0xD800) * 0x400 + (0xDC00 + n % 0x400 - 0xDC00) = c.toNat := by omega
    rw [joinPair, hhi, hlo, hnat, Char.ofNat_toNat]

/-- A character is read from the front, whatever follows it. -/
theorem toChars_ofChar (c : Char) (rest : List UInt16) : toChars (ofChar c ++ rest) = c :: toChars rest := by
  unfold ofChar
  split
  · next h =>
    rw [List.singleton_append]
    cases rest with
    | nil => exact congrArg (fun c => [c]) (single_ofNat h)
    | cons v rest =>
      rw [toChars, (not_surrogate h).1, Bool.false_and, if_neg Bool.false_ne_true, single_ofNat h]
  · next h =>
    obtain ⟨hhigh, hlow, hjoin⟩ := pair_spec h
    dsimp only at hhigh hlow hjoin ⊢
    rw [List.cons_append, List.singleton_append, toChars, hhigh, hlow, Bool.and_self, if_pos rfl, hjoin]

theorem toChars_ofChars (cs : List Char) : toChars (ofChars cs) = cs := by
  induction cs with
  | nil => rfl
  | cons c rest ih => rw [ofChars, List.flatMap_cons, toChars_ofChar, ← ofChars, ih]

/-- A text is read back from its units. -/
theorem toString_ofString (s : String) : toString (ofString s) = s := by
  rw [toString, ofString, toChars_ofChars, String.ofList_toList]

/-! ## ASCII -/

/-- No unit of ASCII is a surrogate. -/
theorem ascii_spec {u : UInt16} (h : u < 0x80) :
    isHigh u = false ∧ isLow u = false ∧ u.toUInt8.toNat = u.toNat := by
  have hlt : u.toNat < 0x80 := UInt16.lt_iff_toNat_lt.1 h
  have hD800 : (0xD800 : UInt16).toNat = 0xD800 := rfl
  have hDC00 : (0xDC00 : UInt16).toNat = 0xDC00 := rfl
  refine ⟨?_, ?_, ?_⟩
  · simp only [isHigh, Bool.and_eq_false_iff, decide_eq_false_iff_not, UInt16.le_iff_toNat_le, hD800]
    omega
  · simp only [isLow, Bool.and_eq_false_iff, decide_eq_false_iff_not, UInt16.le_iff_toNat_le, hDC00]
    omega
  · rw [UInt16.toNat_toUInt8]
    omega

theorem single_ascii {u : UInt16} (h : u < 0x80) : single u = Char.ofNat u.toUInt8.toNat := by
  obtain ⟨hhigh, hlow, hbyte⟩ := ascii_spec h
  rw [single, hhigh, hlow, Bool.or_self, if_neg Bool.false_ne_true, hbyte]

theorem toChars_ascii {us : List UInt16} (h : ∀ u ∈ us, u < 0x80) :
    toChars us = us.map fun u => Char.ofNat u.toUInt8.toNat := by
  fun_induction toChars us with
  | case1 => rfl
  | case2 u => exact congrArg (fun c => [c]) (single_ascii (h u (List.mem_singleton_self u)))
  | case3 u v rest hpair _ =>
    rw [(ascii_spec (h u List.mem_cons_self)).1, Bool.false_and] at hpair
    cases hpair
  | case4 u v rest _ ih =>
    rw [single_ascii (h u List.mem_cons_self), ih fun w hw => h w (List.mem_cons_of_mem u hw)]
    rfl

end Units

namespace ModifiedUtf8

/-- Text that is all ASCII is read like any other. -/
theorem decodeString_eq (bytes : List UInt8) : decodeString bytes = Units.toString <$> decode bytes := by
  rw [decodeString]
  cases decode bytes with
  | error f => rfl
  | ok us =>
    change (if us.all (· < 0x80) = true then pure (asciiString us) else pure (Units.toString us)) = Except.ok (Units.toString us)
    split
    · next h =>
      have hascii : ∀ u ∈ us, u < 0x80 := fun u hu => of_decide_eq_true (List.all_eq_true.1 h u hu)
      rw [Units.toString, Units.toChars_ascii hascii]
      rfl
    · rfl

/-- A text is read back. -/
theorem decodeString_encodeString (s : String) : decodeString (encodeString s) = .ok s := by
  rw [decodeString_eq, encodeString, decode_encode]
  exact congrArg Except.ok (Units.toString_ofString s)

end ModifiedUtf8

end JavaMachine.Text
