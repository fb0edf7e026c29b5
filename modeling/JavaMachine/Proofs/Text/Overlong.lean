import JavaMachine.ClassFile.Fault
import JavaMachine.Proofs.Text.ModifiedUtf8
import Mathlib.Data.List.Infix

/-!
Overlong spellings. Reading accepts exactly the bytes that are spellings of units one after another. What is written for
the units that were read is what they were read from, unless one of them was spelled with more bytes than it needs; and
a byte that begins a spelling stands in no other place of one, so overlong spellings can be looked for anywhere. Main
results: `decode_eq_ok_iff`, `encode_eq_iff`, `spellings_read_back`.
-/

namespace JavaMachine.Text.ModifiedUtf8

/-- Bytes that spell units one after another. -/
inductive Spelled : List UInt8 → List UInt16 → Prop
  | nil : Spelled [] []
  | cons {s bytes : List UInt8} {u : UInt16} {us : List UInt16} :
      Spells s u.toNat → Spelled bytes us → Spelled (s ++ bytes) (u :: us)

/-- A spelling with more bytes than its unit needs; NUL needs two. -/
def Overlong (bytes : List UInt8) : Prop :=
  ∃ n, Spells bytes n ∧ (bytes.length = 2 ∧ 0 < n ∧ n < 0x80 ∨ bytes.length = 3 ∧ n < 0x800)

/-- There is an overlong spelling somewhere among bytes. -/
def HasOverlong (bytes : List UInt8) : Prop := ∃ s, Overlong s ∧ s <:+: bytes

/-! ## What is accepted -/

theorem decodeAt_of_spelled {bytes : List UInt8} {us : List UInt16} (h : Spelled bytes us) (offset : Nat) :
    decodeAt offset bytes = .ok us := by
  induction h generalizing offset with
  | nil => rfl
  | cons hs _ ih =>
    rw [decodeAt_spelling hs, ih]
    rfl

theorem spelled_encode (us : List UInt16) : Spelled (encode us) us := by
  induction us with
  | nil => exact .nil
  | cons u us ih =>
    rw [encode, List.flatMap_cons]
    exact .cons (spells_encodeUnit u) ih

theorem exists_of_cons_ok {ε α : Type} {u : α} {r : Except ε (List α)} {us : List α}
    (h : (do return u :: (← r)) = Except.ok us) : ∃ rest, r = .ok rest ∧ us = u :: rest := by
  cases r with
  | error e => nomatch h
  | ok rest => exact ⟨rest, rfl, (Except.ok.inj h).symm⟩

theorem spells_one {a : UInt8} (hzero : a ≠ 0) (hlt : a < 0x80) : Spells [a] a.toUInt16.toNat := by
  rw [UInt8.toNat_toUInt16]
  exact .one (Nat.pos_of_ne_zero fun h0 => hzero ((eq_zero_iff a).2 h0)) ((single_iff a).1 hlt)

theorem spells_two {a b : UInt8} (ha : a &&& 0xE0 = 0xC0) (hb : isContinuation b = true) :
    Spells [a, b] (joinTwo a b).toNat := by
  have hlead := (leadsTwo_iff a).1 ha
  have htail := (isContinuation_iff b).1 hb
  have hn : (joinTwo a b).toNat = (a.toNat - 0xC0) * 0x40 + (b.toNat - 0x80) := by
    rw [toNat_joinTwo]
    unfold Tail at htail
    omega
  rw [hn]
  exact .two hlead.1 hlead.2 htail

theorem spells_three {a b c : UInt8} (ha : a &&& 0xF0 = 0xE0) (hb : isContinuation b = true)
    (hc : isContinuation c = true) : Spells [a, b, c] (joinThree a b c).toNat := by
  have hlead := (leadsThree_iff a).1 ha
  have hmiddle := (isContinuation_iff b).1 hb
  have hlast := (isContinuation_iff c).1 hc
  have hn : (joinThree a b c).toNat = (a.toNat - 0xE0) * 0x1000 + (b.toNat - 0x80) * 0x40 + (c.toNat - 0x80) := by
    rw [toNat_joinThree]
    unfold Tail at hmiddle hlast
    omega
  rw [hn]
  exact .three hlead.1 hlead.2 hmiddle hlast

theorem spelled_of_decodeAt {offset : Nat} {bytes : List UInt8} {us : List UInt16} (h : decodeAt offset bytes = .ok us) :
    Spelled bytes us := by
  fun_induction decodeAt offset bytes generalizing us with
  | case1 =>
    cases h
    exact .nil
  | case3 offset a rest hzero hlt ih =>
    obtain ⟨us, hrest, rfl⟩ := exists_of_cons_ok h
    exact .cons (spells_one hzero hlt) (ih hrest)
  | case4 offset a hzero hlt hlead b rest hb ih =>
    obtain ⟨us, hrest, rfl⟩ := exists_of_cons_ok h
    exact .cons (spells_two hlead hb) (ih hrest)
  | case7 offset a hzero hlt hother hlead b c rest htails ih =>
    obtain ⟨us, hrest, rfl⟩ := exists_of_cons_ok h
    obtain ⟨hb, hc⟩ := (Bool.and_eq_true ..).mp htails
    exact .cons (spells_three hlead hb hc) (ih hrest)
  | _ => nomatch h

/-- Reading accepts spellings one after another, and nothing else. -/
theorem decode_eq_ok_iff {bytes : List UInt8} {us : List UInt16} : decode bytes = .ok us ↔ Spelled bytes us :=
  ⟨spelled_of_decodeAt, fun h => decodeAt_of_spelled h 0⟩

/-! ## Spellings of one unit -/

theorem Spells.eq_of_length {s t : List UInt8} {n : Nat} (hs : Spells s n) (ht : Spells t n)
    (h : s.length = t.length) : s = t := by
  cases hs with
  | @one a _ _ =>
    generalize hn : a.toNat = n at ht
    cases ht with
    | @one a' _ _ => rw [UInt8.toNat_inj.1 hn]
    | two => cases h
    | three => cases h
  | @two a b hlow hhigh hb =>
    generalize hn : (a.toNat - 0xC0) * 0x40 + (b.toNat - 0x80) = n at ht
    cases ht with
    | one => cases h
    | @two a' b' hlow' hhigh' hb' =>
      unfold Tail at hb hb'
      have ha : a.toNat = a'.toNat := by omega
      have hb : b.toNat = b'.toNat := by omega
      rw [UInt8.toNat_inj.1 ha, UInt8.toNat_inj.1 hb]
    | three => cases h
  | @three a b c hlow hhigh hb hc =>
    generalize hn : (a.toNat - 0xE0) * 0x1000 + (b.toNat - 0x80) * 0x40 + (c.toNat - 0x80) = n at ht
    cases ht with
    | one => cases h
    | two => cases h
    | @three a' b' c' hlow' hhigh' hb' hc' =>
      unfold Tail at hb hb' hc hc'
      have ha : a.toNat = a'.toNat := by omega
      have hb : b.toNat = b'.toNat := by omega
      have hc : c.toNat = c'.toNat := by omega
      rw [UInt8.toNat_inj.1 ha, UInt8.toNat_inj.1 hb, UInt8.toNat_inj.1 hc]

theorem Spells.number_unique {s : List UInt8} {m n : Nat} (hm : Spells s m) (hn : Spells s n) : m = n := by
  cases hm <;> cases hn <;> rfl

/-- What is written takes one byte, two or three by the number of the unit. -/
theorem length_encodeUnit (u : UInt16) :
    (encodeUnit u).length = if u.toNat ≠ 0 ∧ u.toNat < 0x80 then 1 else if u.toNat < 0x800 then 2 else 3 := by
  have hzero : u ≠ 0 ↔ u.toNat ≠ 0 := not_congr UInt16.toNat_inj.symm
  have hsingle : u < 0x80 ↔ u.toNat < 0x80 := UInt16.lt_iff_toNat_lt
  have hpair : u < 0x800 ↔ u.toNat < 0x800 := UInt16.lt_iff_toNat_lt
  simp only [encodeUnit, hzero, hsingle, hpair]
  split
  · rfl
  · split <;> rfl

theorem Spells.overlong_iff {s : List UInt8} {n : Nat} (h : Spells s n) :
    Overlong s ↔ s.length = 2 ∧ 0 < n ∧ n < 0x80 ∨ s.length = 3 ∧ n < 0x800 := by
  constructor
  · rintro ⟨m, hm, hlong⟩
    rwa [h.number_unique hm]
  · exact fun hlong => ⟨n, h, hlong⟩

/-- What is written for a unit is its shortest spelling, and the longer ones are the overlong. -/
theorem Spells.shortest {s : List UInt8} {u : UInt16} (h : Spells s u.toNat) :
    (encodeUnit u).length ≤ s.length ∧ (Overlong s ↔ (encodeUnit u).length < s.length) := by
  have hlength : s.length = 1 ∧ u.toNat ≠ 0 ∧ u.toNat < 0x80 ∨ s.length = 2 ∧ u.toNat < 0x800 ∨ s.length = 3 := by
    generalize u.toNat = n at h
    cases h with
    | one hpos hlt => exact .inl ⟨rfl, Nat.ne_of_gt hpos, hlt⟩
    | two hlow hhigh hb =>
      unfold Tail at hb
      exact .inr (.inl ⟨rfl, by omega⟩)
    | three => exact .inr (.inr rfl)
  rw [h.overlong_iff, length_encodeUnit]
  split
  · omega
  · split <;> omega

/-! ## Spellings in a row -/

/-- What is written for units is no longer than what they were read from, and shorter if one of them was overlong. -/
theorem Spelled.encode_length {bytes : List UInt8} {us : List UInt16} (h : Spelled bytes us) :
    (encode us).length ≤ bytes.length := by
  induction h with
  | nil => exact Nat.le_refl _
  | cons hs _ ih =>
    rw [encode, List.flatMap_cons, List.length_append, List.length_append, ← encode]
    have := hs.shortest.1
    omega

/-- Units that were spelled are written as their spellings, if none of these is overlong. -/
theorem Spelled.encode_cons_iff {s bytes : List UInt8} {u : UInt16} {us : List UInt16} (h : Spelled bytes us)
    (hs : Spells s u.toNat) : encode (u :: us) = s ++ bytes ↔ ¬Overlong s ∧ encode us = bytes := by
  obtain ⟨hle, hover⟩ := hs.shortest
  have hrest := h.encode_length
  rw [hover, encode, List.flatMap_cons, ← encode]
  constructor
  · intro heq
    have hlen := congrArg List.length heq
    rw [List.length_append, List.length_append] at hlen
    obtain ⟨-, htail⟩ := List.append_inj heq (by omega)
    exact ⟨by omega, htail⟩
  · rintro ⟨hshort, rfl⟩
    rw [(spells_encodeUnit u).eq_of_length hs (by omega)]

/-- How many bytes a spelling has that begins with a byte. -/
def width (a : UInt8) : Nat := if a.toNat < 0x80 then 1 else if a.toNat < 0xE0 then 2 else 3

theorem not_tail {a : UInt8} (h : a.toNat < 0x80 ∨ 0xC0 ≤ a.toNat) : ¬Tail a := by
  unfold Tail
  omega

/-- The first byte of a spelling is told from the others and says how many there are. -/
theorem Spells.first {s : List UInt8} {n : Nat} (h : Spells s n) :
    ∃ a tails, s = a :: tails ∧ ¬Tail a ∧ (∀ b ∈ tails, Tail b) ∧ s.length = width a := by
  unfold width
  cases h with
  | @one a _ hlt => exact ⟨a, [], rfl, not_tail (.inl hlt), by simp, (if_pos hlt).symm⟩
  | @two a b hlow hhigh hb =>
    refine ⟨a, [b], rfl, not_tail (.inr hlow), by simpa using hb, ?_⟩
    rw [if_neg (by omega), if_pos hhigh]
    rfl
  | @three a b c hlow hhigh hb hc =>
    refine ⟨a, [b, c], rfl, not_tail (.inr (by omega)), by simpa using ⟨hb, hc⟩, ?_⟩
    rw [if_neg (by omega), if_neg (by omega)]
    rfl

/-- A spelling that bytes begin with is the one that they were begun with. -/
theorem Spells.eq_of_prefix {o s rest : List UInt8} {m n : Nat} (ho : Spells o m) (hs : Spells s n)
    (h : o <+: s ++ rest) : o = s := by
  obtain ⟨a, tails, rfl, -, -, hlength⟩ := ho.first
  obtain ⟨a', tails', rfl, -, -, hlength'⟩ := hs.first
  obtain ⟨rfl, -⟩ := List.cons_prefix_cons.1 h
  have hsame := hlength.trans hlength'.symm
  exact (List.prefix_of_prefix_length_le h (List.prefix_append ..) (Nat.le_of_eq hsame)).eq_of_length hsame

/-- No spelling begins among bytes that are behind a first one. -/
theorem infix_of_tails {a : UInt8} {o tails rest : List UInt8} (ha : ¬Tail a) (htails : ∀ b ∈ tails, Tail b)
    (h : a :: o <:+: tails ++ rest) : a :: o <:+: rest := by
  induction tails with
  | nil => exact h
  | cons b tails ih =>
    rcases List.infix_cons_iff.1 h with hprefix | hinfix
    · obtain ⟨rfl, -⟩ := List.cons_prefix_cons.1 hprefix
      exact absurd (htails a List.mem_cons_self) ha
    · exact ih (fun b hb => htails b (List.mem_cons_of_mem _ hb)) hinfix

/-- Behind a spelling, overlong ones are where the rest has them. -/
theorem Spells.hasOverlong_append {s rest : List UInt8} {n : Nat} (h : Spells s n) :
    HasOverlong (s ++ rest) ↔ Overlong s ∨ HasOverlong rest := by
  constructor
  · rintro ⟨o, ⟨m, ho, hlong⟩, hinfix⟩
    obtain ⟨a, tails, hcons, -, htails, -⟩ := h.first
    obtain ⟨a', tails', hcons', ha', -, -⟩ := ho.first
    subst hcons
    rcases List.infix_cons_iff.1 hinfix with hprefix | hbehind
    · obtain rfl := ho.eq_of_prefix h hprefix
      exact .inl ⟨m, ho, hlong⟩
    · subst hcons'
      exact .inr ⟨_, ⟨m, ho, hlong⟩, infix_of_tails ha' htails hbehind⟩
  · rintro (hlong | ⟨o, hlong, hinfix⟩)
    · exact ⟨s, hlong, List.prefix_append .. |>.isInfix⟩
    · exact ⟨o, hlong, hinfix.trans (List.suffix_append ..).isInfix⟩

theorem not_hasOverlong_nil : ¬HasOverlong [] := by
  rintro ⟨o, ⟨m, ho, -⟩, hinfix⟩
  obtain rfl := List.infix_nil.1 hinfix
  cases ho

/-- Units are written as what they were read from, unless something in it is overlong. -/
theorem encode_eq_iff {bytes : List UInt8} {us : List UInt16} (h : Spelled bytes us) :
    encode us = bytes ↔ ¬HasOverlong bytes := by
  induction h with
  | nil => exact iff_of_true rfl not_hasOverlong_nil
  | cons hs hrest ih => rw [hrest.encode_cons_iff hs, ih, hs.hasOverlong_append, not_or]

/-! ## Reading and writing -/

theorem Tail.ne_zero {b : UInt8} (h : Tail b) : b ≠ 0 := by
  rintro rfl
  exact absurd h.1 (by decide)

theorem Spells.zero_not_mem {s : List UInt8} {n : Nat} (h : Spells s n) : 0 ∉ s := by
  cases h with
  | @one a hpos _ =>
    have ha : a ≠ 0 := fun h0 => Nat.ne_of_gt hpos ((eq_zero_iff a).1 h0)
    simpa using ha.symm
  | @two a b hlow _ hb =>
    have ha : a ≠ 0 := fun h0 => absurd ((eq_zero_iff a).1 h0) (by omega)
    simpa using ⟨ha.symm, hb.ne_zero.symm⟩
  | @three a b c hlow _ hb hc =>
    have ha : a ≠ 0 := fun h0 => absurd ((eq_zero_iff a).1 h0) (by omega)
    simpa using ⟨ha.symm, hb.ne_zero.symm, hc.ne_zero.symm⟩

theorem zero_not_mem_encode (us : List UInt16) : 0 ∉ encode us := by
  intro hzero
  obtain ⟨u, -, hu⟩ := List.mem_flatMap.1 hzero
  exact (spells_encodeUnit u).zero_not_mem hu

/-- Modified UTF-8 is read back, without a zero byte in it. Any bytes are either refused as a malformed constant or read
as units that spell them, and these units are written as the same bytes unless something there is overlong. Strings are
read back; the short way for ASCII makes no difference. -/
theorem spellings_read_back :
    (∀ us, decode (encode us) = .ok us ∧ 0 ∉ encode us) ∧
    (∀ bytes, (∃ f, decode bytes = .error f ∧ (FormatFault.text f).kind = .badConstant ∧ ∀ us, ¬Spelled bytes us) ∨
      ∃ us, decode bytes = .ok us ∧ Spelled bytes us ∧ (encode us = bytes ↔ ¬HasOverlong bytes)) ∧
    (∀ s, decodeString (encodeString s) = .ok s) ∧
    ∀ bytes, decodeString bytes = Units.toString <$> decode bytes := by
  refine ⟨fun us => ⟨decode_encode us, zero_not_mem_encode us⟩, fun bytes => ?_, decodeString_encodeString, decodeString_eq⟩
  cases hdecode : decode bytes with
  | error f =>
    refine .inl ⟨f, rfl, rfl, fun us h => ?_⟩
    cases hdecode.symm.trans (decode_eq_ok_iff.2 h)
  | ok us =>
    have hspelled := decode_eq_ok_iff.1 hdecode
    exact .inr ⟨us, rfl, hspelled, encode_eq_iff hspelled⟩

end JavaMachine.Text.ModifiedUtf8
