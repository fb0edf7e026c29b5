import JavaMachine.Proofs.Assembler.Composition
import JavaMachine.Proofs.Code.Decoding
import Mathlib.Data.List.Forall2

/-!
Where the branches of a body lead. A branch whose offset is filled in is read with it, and a switch with a table that
gives for each key the offset of the target that was written for it. A body is built unless a label that is used is
unmarked or a short offset does not fit; then the offsets of each branch and each switch lead to the marks of its
labels, and all other bytes are those that were written. Main results: `Emission.decoded_of_leads` and `built_iff_and_leads`.
-/

namespace JavaMachine

open BigEndian CodeReader

/-! ## Tables -/

namespace Statement

/-- The labels that a branch, a switch or a handler uses. A target without a key is not used. -/
def uses : Statement → List String
  | .jump _ target => [target]
  | .jumpWide _ target => [target]
  | .tableSwitch _ default targets => default :: targets
  | .lookupSwitch default keys targets => default :: (keys.zip targets).map Prod.snd
  | .handler start stop entry _ => [start, stop, entry]
  | _ => []

/-- Where a `tableswitch` goes for a key; the targets are those of the keys from `low` on. -/
def tableTarget (low : Int32) (default : String) (targets : List String) (key : Int32) : String :=
  if low ≤ key then targets[(key.toInt - low.toInt).toNat]?.getD default else default

/-- Where a `lookupswitch` goes for a key: to the target of the first row with this key. -/
def lookupTarget (default : String) (rows : List (Int32 × String)) (key : Int32) : String :=
  (rows.lookup key).getD default

theorem tableTarget_mem (low : Int32) (default : String) (targets : List String) (key : Int32) :
    tableTarget low default targets key ∈ default :: targets := by
  unfold tableTarget
  split
  · cases htarget : targets[(key.toInt - low.toInt).toNat]? with
    | none => exact List.mem_cons_self
    | some t => exact List.mem_cons_of_mem _ (List.mem_of_getElem? htarget)
  · exact List.mem_cons_self

theorem lookupTarget_mem (default : String) (rows : List (Int32 × String)) (key : Int32) :
    lookupTarget default rows key ∈ default :: rows.map Prod.snd := by
  unfold lookupTarget
  induction rows with
  | nil => exact List.mem_cons_self
  | cons r rows ih =>
    rw [List.lookup_cons]
    split
    · exact List.mem_cons_of_mem _ List.mem_cons_self
    · exact List.cons_subset_cons _ (List.subset_cons_self _ _) ih

end Statement

namespace SwitchTable

open Statement

variable (offset : String → Int32)

theorem target?_range {low high : Int32} {default : String} {targets : List String} (hlength : targets.length < 2 ^ 31)
    (hhigh : high.toInt = low.toInt + targets.length - 1) (key : Int32) :
    (SwitchTable.range (offset default) low high (targets.map offset).toArray).target? key =
      some (offset (tableTarget low default targets key)) := by
  unfold target? tableTarget
  dsimp only
  by_cases hbelow : key < low
  · rw [if_pos (Or.inl hbelow), if_neg (Int32.not_le.2 hbelow)]
  have hlow : low.toInt ≤ key.toInt := Int32.le_iff_toInt_le.1 (Int32.not_lt.1 hbelow)
  rw [if_pos (Int32.not_lt.1 hbelow)]
  by_cases habove : high < key
  · have hhigher : high.toInt < key.toInt := Int32.lt_iff_toInt_lt.1 habove
    rw [if_pos (Or.inr habove), List.getElem?_eq_none (by omega), Option.getD_none]
  have hle : key.toInt ≤ high.toInt := Int32.le_iff_toInt_le.1 (Int32.not_lt.1 habove)
  -- The table is shorter than a word, so that the index does not wrap.
  have hindex : (key - low).toInt = key.toInt - low.toInt := by
    rw [Int32.toInt_sub]
    exact Int.bmod_eq_of_le (by omega) (by omega)
  have hnonneg : ¬ key - low < 0 := by
    rw [Int32.lt_iff_toInt_lt, hindex]
    exact Int.not_lt.2 (Int.sub_nonneg.2 hlow)
  rw [if_neg (not_or.2 ⟨hbelow, habove⟩), if_neg hnonneg, hindex, List.getElem?_toArray, List.getElem?_map,
    List.getElem?_eq_getElem (by omega)]
  rfl

theorem target?_pairs (default : String) (rows : List (Int32 × String)) (key : Int32) :
    (SwitchTable.pairs (offset default) (rows.map fun r => (r.1, offset r.2))).target? key =
      some (offset (lookupTarget default rows key)) := by
  unfold target? lookupTarget
  induction rows with
  | nil => rfl
  | cons r rows ih =>
    dsimp only at ih ⊢
    rw [List.map_cons, List.find?_cons, List.lookup_cons]
    by_cases hkey : r.1 = key
    · rw [beq_iff_eq.2 hkey, beq_iff_eq.2 hkey.symm]
      rfl
    · rw [beq_false_of_ne hkey, beq_false_of_ne (Ne.symm hkey)]
      exact ih

end SwitchTable

/-! ## Decoding -/

/-- At a position the code has an opcode, with operands that are read as a value. -/
def Decodes {α : Type} (code : List UInt8) (n : Nat) (op : Opcode) (operands : CodeReader α) (v : α) : Prop :=
  code[n]? = some op.toByte ∧ ∃ c, operands ⟨code.toArray, (n + 1 : Nat)⟩ = .ok v c

/-- The offsets of a `tableswitch` with a number of targets, whatever its bounds are. -/
def tableOffsets (count : Nat) : CodeReader (List Int32) := do
  skipPadding
  let default ← i32
  let _ ← i32
  let _ ← i32
  let offsets ← words count
  return default :: offsets

/-- What is decoded of a branch or a switch at its position leads to its labels. -/
def Statement.Decoded (code : List UInt8) (n : Nat) (leads : Int32 → String → Prop) : Statement → Prop
  | .jump op target => ∃ v, Decodes code n op (do return (← i16).toInt32) v ∧ leads v target
  | .jumpWide op target => ∃ v, Decodes code n op i32 v ∧ leads v target
  | .tableSwitch low default targets =>
    (∃ vs, Decodes code n .tableswitch (tableOffsets targets.length) vs ∧ List.Forall₂ leads vs (default :: targets)) ∧
      (-2 ^ 31 ≤ low.toInt + targets.length - 1 ∧ low.toInt + targets.length - 1 < 2 ^ 31 →
        ∃ table, Decodes code n .tableswitch CodeReader.tableSwitch table ∧
          ∀ key, ∃ v, table.target? key = some v ∧ leads v (tableTarget low default targets key))
  | .lookupSwitch default keys targets =>
    ∃ v rows, Decodes code n .lookupswitch CodeReader.lookupSwitch (.pairs v rows) ∧ leads v default ∧
      List.Forall₂ (fun r r' => r.1 = r'.1 ∧ leads r.2 r'.2) rows (keys.zip targets) ∧
      ∀ key, ∃ v', (SwitchTable.pairs v rows).target? key = some v' ∧
        leads v' (lookupTarget default (keys.zip targets) key)
  | _ => True

theorem decodes_of_reads {α : Type} {operands : CodeReader α} {before data : List UInt8} {v : α} (op : Opcode)
    (behind : List UInt8) (h : Reads operands (before.length + 1) data v)
    (hsize : (before ++ (op.toByte :: data ++ behind)).length < 2 ^ 63) :
    Decodes (before ++ (op.toByte :: data ++ behind)) before.length op operands v := by
  constructor
  · rw [List.getElem?_append_right (Nat.le_refl _), Nat.sub_self]
    rfl
  · have hread := h (before ++ [op.toByte]) behind (by rw [List.length_append, List.length_singleton])
    simp only [List.append_assoc, List.cons_append, List.nil_append] at hread hsize ⊢
    exact ⟨_, hread hsize⟩

theorem reads_tableOffsets (default low high : UInt32) (word : String → UInt32) (targets : List String) {n k : Nat}
    (hk : k < 4) (halign : (n + k) % 4 = 0) :
    Reads (tableOffsets targets.length) n
      (List.replicate k 0 ++
        (bytes32 default ++ (bytes32 low ++ (bytes32 high ++ targets.flatMap fun t => bytes32 (word t)))))
      (default.toInt32 :: targets.map fun t => (word t).toInt32) := by
  refine reads_bind (reads_padding (by omega) hk halign) ?_
  refine reads_bind (reads_i32 _ default) ?_
  refine reads_bind (reads_i32 _ low) ?_
  refine reads_bind (reads_i32 _ high) ?_
  exact reads_map (reads_words word _ targets) _

namespace Statement

theorem padding_lt (n : Nat) : padding n < 4 := by
  unfold padding
  omega

theorem padding_aligned (n : Nat) : (n + 1 + padding n) % 4 = 0 := by
  unfold padding
  omega

/-- The upper bound of a `tableswitch`, if it is one of a word. -/
theorem toInt_high {low : Int32} {count : Nat} (h : -2 ^ 31 ≤ low.toInt + count - 1)
    (h' : low.toInt + count - 1 < 2 ^ 31) : (low + Int32.ofNat count - 1).toInt = low.toInt + count - 1 := by
  have hwrapped : low + Int32.ofNat count - 1 = Int32.ofInt (low.toInt + count - 1) := by
    rw [Int32.ofInt_sub, Int32.ofInt_add, Int32.ofInt_toInt]
    rfl
  rw [hwrapped, Int32.toInt_ofInt_of_le h h']

variable {leads : Int32 → String → Prop} {before : List UInt8} (behind : List UInt8) (word : String → UInt32)

theorem decoded_tableSwitch {low : Int32} {default : String} {targets : List String} {data : List UInt8}
    (hdata : data = List.replicate (padding before.length) 0 ++ (bytes32 (word default) ++ (bytes32 low.toUInt32 ++
      (bytes32 (low + Int32.ofNat targets.length - 1).toUInt32 ++ targets.flatMap fun t => bytes32 (word t)))))
    (hsize : (before ++ (Opcode.tableswitch.toByte :: data ++ behind)).length < 2 ^ 31)
    (hleads : ∀ t ∈ default :: targets, leads (word t).toInt32 t) :
    (tableSwitch low default targets).Decoded (before ++ (Opcode.tableswitch.toByte :: data ++ behind)) before.length
      leads := by
  subst hdata
  let high := low + Int32.ofNat targets.length - 1
  have hlength : targets.length < 2 ^ 31 := by
    simp only [List.length_append, List.length_cons, length_words] at hsize
    omega
  have hsize' := Nat.lt_of_lt_of_le hsize (by decide : 2 ^ 31 ≤ 2 ^ 63)
  have hoffsets := reads_tableOffsets (word default) low.toUInt32 high.toUInt32 word targets (padding_lt before.length)
    (padding_aligned before.length)
  refine ⟨⟨_, decodes_of_reads _ behind hoffsets hsize', ?_⟩, fun ⟨hbelow, habove⟩ => ?_⟩
  · rw [List.forall₂_cons, List.forall₂_map_left_iff, List.forall₂_same]
    exact List.forall_mem_cons.1 hleads
  · have hhigh : high.toInt = low.toInt + targets.length - 1 := toInt_high hbelow habove
    have hbounds : high.toUInt32.toInt32.toInt - low.toUInt32.toInt32.toInt + 1 = targets.length := by
      change high.toInt - low.toInt + 1 = _
      omega
    have htable := reads_tableSwitch (word default) low.toUInt32 high.toUInt32 word (padding_lt before.length)
      (padding_aligned before.length) hbounds
    refine ⟨_, decodes_of_reads _ behind htable hsize', fun key => ?_⟩
    exact ⟨_, SwitchTable.target?_range (fun t => (word t).toInt32) hlength hhigh key,
      hleads _ (tableTarget_mem low default targets key)⟩

theorem decoded_lookupSwitch {default : String} {keys : List Int32} {targets : List String} {data : List UInt8}
    (hkeys : keys.length ≤ targets.length)
    (hdata : data = List.replicate (padding before.length) 0 ++ (bytes32 (word default) ++
      (bytes32 (Int32.ofNat keys.length).toUInt32 ++
        (keys.zip targets).flatMap fun r => bytes32 r.1.toUInt32 ++ bytes32 (word r.2))))
    (hsize : (before ++ (Opcode.lookupswitch.toByte :: data ++ behind)).length < 2 ^ 31)
    (hleads : ∀ t ∈ default :: (keys.zip targets).map Prod.snd, leads (word t).toInt32 t) :
    (lookupSwitch default keys targets).Decoded (before ++ (Opcode.lookupswitch.toByte :: data ++ behind))
      before.length leads := by
  have hrows : (keys.zip targets).length = keys.length := by rw [List.length_zip, Nat.min_eq_left hkeys]
  rw [Decoded]
  generalize keys.zip targets = rows at hdata hleads hrows ⊢
  subst hdata
  rw [← hrows] at hsize ⊢
  have hlength : rows.length < 2 ^ 31 := by
    simp only [List.length_append, List.length_cons, length_wordPairs] at hsize
    omega
  have hsize' := Nat.lt_of_lt_of_le hsize (by decide : 2 ^ 31 ≤ 2 ^ 63)
  have hcount : (Int32.ofNat rows.length).toUInt32.toInt32.toInt = rows.length := Int32.toInt_ofNat_of_lt hlength
  have htable := reads_lookupSwitch (word default) (Int32.ofNat rows.length).toUInt32 (fun r => r.1.toUInt32)
    (fun r => word r.2) (padding_lt before.length) (padding_aligned before.length) hcount
  refine ⟨_, _, decodes_of_reads _ behind htable hsize', hleads default List.mem_cons_self, ?_, fun key => ?_⟩
  · rw [List.forall₂_map_left_iff, List.forall₂_same]
    exact fun r hr => ⟨rfl, hleads r.2 (List.mem_cons_of_mem _ (List.mem_map_of_mem hr))⟩
  · exact ⟨_, SwitchTable.target?_pairs (fun t => (word t).toInt32) default rows key,
      hleads _ (lookupTarget_mem default rows key)⟩

end Statement

/-- A branch or a switch with its offsets filled in is decoded to these. -/
theorem Emission.decoded_of_leads {e : Emission} {labels : List (String × Nat)} {leads : Int32 → String → Prop}
    {before behind : List UInt8} (hposition : e.position = before.length)
    (hsize : (before ++ (e.resolved labels ++ behind)).length < 2 ^ 31)
    (hleads : ∀ t ∈ e.statement.uses, leads (Int32.ofInt (Patch.offset labels e.position t)) t)
    (hfits : ∀ op t, e.statement = .jump op t →
      -2 ^ 15 ≤ Patch.offset labels e.position t ∧ Patch.offset labels e.position t < 2 ^ 15)
    (hkeys : ∀ default keys targets, e.statement = .lookupSwitch default keys targets → keys.length ≤ targets.length) :
    e.statement.Decoded (before ++ (e.resolved labels ++ behind)) e.position leads := by
  obtain ⟨position, s, bytes⟩ := e
  obtain rfl : position = before.length := hposition
  let word (t : String) : UInt32 := low32 (Patch.offset labels before.length t)
  have hword (t : String) : Int32.ofInt (Patch.offset labels before.length t) = (word t).toInt32 :=
    (toInt32_low32 _).symm
  simp only [hword] at hleads
  have hsize' := Nat.lt_of_lt_of_le hsize (by decide : 2 ^ 31 ≤ 2 ^ 63)
  cases s with
  | jump op target =>
    obtain ⟨hlow, hhigh⟩ := hfits op target rfl
    have hread := reads_map (reads_i16 (before.length + 1) (low16 (Patch.offset labels before.length target)))
      Int16.toInt32
    rw [toInt16_low16, toInt32_ofInt16 hlow hhigh, hword] at hread
    exact ⟨_, decodes_of_reads op behind hread hsize', hleads target List.mem_cons_self⟩
  | jumpWide op target =>
    exact ⟨_, decodes_of_reads op behind (reads_i32 _ (word target)) hsize', hleads target List.mem_cons_self⟩
  | tableSwitch low default targets =>
    refine Statement.decoded_tableSwitch behind word ?_ hsize hleads
    simp only [List.append_assoc]
    rfl
  | lookupSwitch default keys targets =>
    refine Statement.decoded_lookupSwitch behind word (hkeys default keys targets rfl) ?_ hsize hleads
    simp only [List.append_assoc]
    rfl
  | _ => trivial

/-! ## Bodies -/

/-- A label is marked at a position. -/
def MarkedAt (es : List Emission) (name : String) (q : Nat) : Prop := ∃ e ∈ es, e.Marks name q

/-- An offset leads from a position to where a label is marked. -/
def LeadsToMark (es : List Emission) (n : Nat) (v : Int32) (name : String) : Prop :=
  ∃ q, MarkedAt es name q ∧ (n : Int) + v.toInt = q

/-- A label is used that is marked nowhere. -/
def UsesUnmarked (es : List Emission) : Prop := ∃ e ∈ es, ∃ name ∈ e.statement.uses, ∀ q, ¬ MarkedAt es name q

/-- A label is too far from a branch with a short offset. -/
def JumpsTooFar (es : List Emission) : Prop :=
  ∃ e ∈ es, ∃ op name q, e.statement = .jump op name ∧ MarkedAt es name q ∧
    ((q : Int) - e.position < -2 ^ 15 ∨ 2 ^ 15 ≤ (q : Int) - e.position)

namespace Statement

theorem labels_tablePatches (origin place : Nat) (targets : List String) :
    (tablePatches origin place targets).map Patch.label = targets := by
  induction targets generalizing place with
  | nil => rfl
  | cons t ts ih => rw [tablePatches, List.map_cons, ih]

theorem labels_rowPatches (origin place : Nat) (rows : List (Int32 × String)) :
    (rowPatches origin place rows).map Patch.label = rows.map Prod.snd := by
  induction rows generalizing place with
  | nil => rfl
  | cons r rows ih => rw [rowPatches, List.map_cons, ih, List.map_cons]

/-- The labels that are used are those of the offsets and of the handler. -/
theorem labels_patches (s : Statement) (n : Nat) : (s.patches n).map Patch.label ++ s.handlerLabels = s.uses := by
  cases s with
  | tableSwitch => simp only [patches, handlerLabels, List.map_cons, labels_tablePatches, List.append_nil, uses]
  | lookupSwitch => simp only [patches, handlerLabels, List.map_cons, labels_rowPatches, List.append_nil, uses]
  | _ => rfl

theorem wide_of_mem_tablePatches {origin place : Nat} {targets : List String} {p : Patch}
    (h : p ∈ tablePatches origin place targets) : p.wide = true := by
  induction targets generalizing place with
  | nil => cases h
  | cons t ts ih => exact (List.mem_cons.1 h).elim (fun heq => heq ▸ rfl) ih

theorem wide_of_mem_rowPatches {origin place : Nat} {rows : List (Int32 × String)} {p : Patch}
    (h : p ∈ rowPatches origin place rows) : p.wide = true := by
  induction rows generalizing place with
  | nil => cases h
  | cons r rows ih => exact (List.mem_cons.1 h).elim (fun heq => heq ▸ rfl) ih

/-- A short offset is that of a branch. -/
theorem wide_or_jump {s : Statement} {n : Nat} {p : Patch} (h : p ∈ s.patches n) :
    p.wide = true ∨ ∃ op name, s = .jump op name ∧ p = ⟨name, n, n + 1, false⟩ := by
  cases s with
  | jump op target => exact .inr ⟨op, target, rfl, List.mem_singleton.1 h⟩
  | jumpWide op target => exact .inl (List.mem_singleton.1 h ▸ rfl)
  | tableSwitch low default targets =>
    exact .inl ((List.mem_cons.1 h).elim (fun heq => heq ▸ rfl) wide_of_mem_tablePatches)
  | lookupSwitch default keys targets =>
    exact .inl ((List.mem_cons.1 h).elim (fun heq => heq ▸ rfl) wide_of_mem_rowPatches)
  | _ => cases h

end Statement

namespace CodeBuilder

variable {b b' : CodeBuilder} {es : List Emission}

theorem Told.marked_iff (h : b.Told es) {name : String} {q : Nat} :
    MarkedAt es name q ↔ b.labels.lookup name = some q := (h.labels name q).symm

/-- All offsets and all handlers of a body resolve if and only if the labels are marked and the short offsets fit. -/
theorem Told.resolves_iff (h : b.Told es) :
    ((∀ p ∈ b.patches.toList, p.Resolves b.labels) ∧
        ∀ row ∈ b.handlers.toList, ∀ name ∈ row.labels, ∃ q, b.labels.lookup name = some q) ↔
      ¬ (UsesUnmarked es ∨ JumpsTooFar es) := by
  constructor
  · rintro ⟨hpatches, hhandlers⟩ (⟨e, he, name, hname, hnone⟩ | ⟨e, he, op, name, q, hjump, hmarked, hfar⟩)
    · rw [← Statement.labels_patches e.statement e.position, List.mem_append, List.mem_map] at hname
      rcases hname with ⟨p, hp, rfl⟩ | hname
      · have hmem : p ∈ b.patches.toList := h.patches ▸ List.mem_flatMap.2 ⟨e, he, hp⟩
        obtain ⟨q, hlookup, -⟩ := hpatches p hmem
        exact hnone q (h.marked_iff.2 hlookup)
      · have hmem : name ∈ b.handlers.toList.flatMap PendingHandler.labels :=
          h.handlers ▸ List.mem_flatMap.2 ⟨e, he, hname⟩
        obtain ⟨row, hrow, hlabel⟩ := List.mem_flatMap.1 hmem
        obtain ⟨q, hlookup⟩ := hhandlers row hrow name hlabel
        exact hnone q (h.marked_iff.2 hlookup)
    · -- a label is marked once, so the patch resolves to the mark that is too far
      have hp : (⟨name, e.position, e.position + 1, false⟩ : Patch) ∈ e.patches := by
        rw [Emission.patches, hjump]
        exact List.mem_cons_self
      obtain ⟨target, hlookup, hreaches⟩ := hpatches _ (h.patches ▸ List.mem_flatMap.2 ⟨e, he, hp⟩)
      obtain rfl : target = q := Option.some.inj (hlookup.symm.trans (h.marked_iff.1 hmarked))
      have hfits := hreaches.resolve_left Bool.false_ne_true
      dsimp only at hfits
      omega
  · intro hnot
    rw [not_or] at hnot
    obtain ⟨hused, hnear⟩ := hnot
    have hmarked {e : Emission} (he : e ∈ es) {name : String} (hname : name ∈ e.statement.uses) :
        ∃ q, b.labels.lookup name = some q := by
      by_contra hnone
      exact hused ⟨e, he, name, hname, fun q hq => hnone ⟨q, h.marked_iff.1 hq⟩⟩
    constructor
    · intro p hp
      rw [h.patches] at hp
      obtain ⟨e, he, hp⟩ := List.mem_flatMap.1 hp
      have hlabel : p.label ∈ e.statement.uses := by
        rw [← Statement.labels_patches e.statement e.position]
        exact List.mem_append_left _ (List.mem_map_of_mem hp)
      obtain ⟨q, hlookup⟩ := hmarked he hlabel
      refine ⟨q, hlookup, ?_⟩
      rcases Statement.wide_or_jump hp with hwide | ⟨op, name, hjump, rfl⟩
      · exact .inl hwide
      · by_contra hfar
        refine hnear ⟨e, he, op, name, q, hjump, h.marked_iff.2 hlookup, ?_⟩
        have hunfit := (not_or.1 hfar).2
        dsimp only at hunfit
        omega
    · intro row hrow name hname
      have hmem : name ∈ es.flatMap fun e => e.statement.handlerLabels :=
        h.handlers ▸ List.mem_flatMap.2 ⟨row, hrow, hname⟩
      obtain ⟨e, he, hname⟩ := List.mem_flatMap.1 hmem
      refine hmarked he ?_
      rw [← Statement.labels_patches e.statement 0]
      exact List.mem_append_right _ hname

theorem length_le_of_emitPairs {origin : Nat} {keys : List Int32} {targets : List String}
    (h : emitPairs origin keys targets b = .ok b') : keys.length ≤ targets.length := by
  induction keys generalizing targets b with
  | nil => exact Nat.zero_le _
  | cons k keys ih =>
    cases targets with
    | nil => cases h
    | cons t targets => exact Nat.succ_le_succ (ih h)

/-- Every key of a `lookupswitch` that was written has a target. -/
theorem Composed.length_keys_le (h : Composed b es) {e : Emission} (he : e ∈ es) {default : String}
    {keys : List Int32} {targets : List String} (hswitch : e.statement = .lookupSwitch default keys targets) :
    keys.length ≤ targets.length := by
  induction h with
  | start pool => cases he
  | pooled pool _ ih => exact ih he
  | written _ hs ih =>
    rcases List.mem_append.1 he with he | he
    · exact ih he
    · obtain rfl := List.mem_singleton.1 he
      subst hswitch
      exact length_le_of_emitPairs hs

/-- What is decoded of the body at a branch or at a switch. -/
theorem Composed.decoded (h : Composed b es) (hfine : ¬ (UsesUnmarked es ∨ JumpsTooFar es))
    (hsize : (es.flatMap (Emission.resolved b.labels)).length < 2 ^ 31) {e : Emission} (he : e ∈ es) :
    e.statement.Decoded (es.flatMap (Emission.resolved b.labels)) e.position (LeadsToMark es e.position) := by
  have hplace {d : Emission} (hd : d ∈ es) : d.position ≤ (es.flatMap (Emission.resolved b.labels)).length := by
    obtain ⟨before, behind, hposition, hcode⟩ := h.resolved_at hd
    rw [hcode, hposition, List.length_append]
    exact Nat.le_add_right _ _
  have hoffset {name : String} {q : Nat} (hq : MarkedAt es name q) :
      Patch.offset b.labels e.position name = (q : Int) - e.position := by
    rw [Patch.offset, h.told.marked_iff.1 hq]
    rfl
  have hleads (name : String) (hname : name ∈ e.statement.uses) :
      LeadsToMark es e.position (Int32.ofInt (Patch.offset b.labels e.position name)) name := by
    by_contra hnot
    refine hfine (.inl ⟨e, he, name, hname, fun q hq => hnot ⟨q, hq, ?_⟩⟩)
    -- both positions lie in the code, so that their distance is a word of 32 bits
    obtain ⟨d, hd, -, hposition⟩ := id hq
    have hmark := hplace hd
    have horigin := hplace he
    rw [hoffset hq, Int32.toInt_ofInt_of_le (by omega) (by omega)]
    omega
  have hfits (op : Opcode) (name : String) (hjump : e.statement = .jump op name) :
      -2 ^ 15 ≤ Patch.offset b.labels e.position name ∧ Patch.offset b.labels e.position name < 2 ^ 15 := by
    obtain ⟨q, hq, -⟩ := hleads name (by rw [hjump]; exact List.mem_cons_self)
    by_contra hfar
    refine hfine (.inr ⟨e, he, op, name, q, hjump, hq, ?_⟩)
    rw [hoffset hq] at hfar
    omega
  obtain ⟨before, behind, hposition, hcode⟩ := h.resolved_at he
  rw [hcode] at hsize ⊢
  exact Emission.decoded_of_leads hposition hsize hleads hfits fun _ _ _ hswitch => h.length_keys_le he hswitch

theorem exists_error_iff {ε α : Type} {r : Except ε α} : (∃ fault, r = .error fault) ↔ ¬ ∃ v, r = .ok v := by
  cases r with
  | error fault => exact ⟨fun _ => nofun, fun _ => ⟨fault, rfl⟩⟩
  | ok v => exact ⟨nofun, fun hnot => absurd ⟨v, rfl⟩ hnot⟩

/-- A body is built unless a label that is used is unmarked or a short offset does not fit; then its branches and its
switches lead to the marks of their labels, and all bytes but their offsets are those that were written. -/
theorem built_iff_and_leads (h : Composed b es) :
    ((∃ fault, b.build = .error fault) ↔ UsesUnmarked es ∨ JumpsTooFar es) ∧
      ∀ i body pool, b.build = .ok (i, body, pool) →
        body.code.length = (es.flatMap Emission.bytes).length ∧
          (∀ j, (∀ p ∈ es.flatMap Emission.patches, j < p.place ∨ p.place + p.width ≤ j) →
            body.code[j]? = (es.flatMap Emission.bytes)[j]?) ∧
          (body.code.length < 2 ^ 31 →
            ∀ e ∈ es, e.statement.Decoded body.code e.position (LeadsToMark es e.position)) := by
  have htold := h.told
  have hbuilt := exists_build_iff.trans htold.resolves_iff
  refine ⟨exists_error_iff.trans (not_iff_comm.1 hbuilt.symm), fun i body pool hbuild => ?_⟩
  have hfine := hbuilt.1 ⟨_, hbuild⟩
  obtain ⟨-, -, hcode⟩ := of_build hbuild
  rw [hcode]
  refine ⟨?_, fun j hj => ?_, fun hsize e he => ?_⟩
  · rw [Array.length_toList, size_patched, ← Array.length_toList, htold.bytes]
  · rw [← htold.patches] at hj
    rw [Array.getElem?_toList, getElem?_patched_outside hj, ← Array.getElem?_toList, htold.bytes]
  · rw [h.patched] at hsize ⊢
    exact h.decoded hfine hsize he

/-- A switch that may go back to itself, and a branch back to the switch. -/
def loop : List Emission :=
  [⟨0, .label "top", []⟩,
    ⟨0, .tableSwitch 7 "out" ["top"], [170, 0, 0, 0, 0, 0, 0, 0, 0, 0, 0, 7, 0, 0, 0, 7, 0, 0, 0, 0]⟩,
    ⟨20, .label "out", []⟩, ⟨20, .jump .goto "top", [167, 0, 0]⟩]

theorem built_iff_and_leads_loop :
    ∃ b, Composed b loop ∧ ¬ (UsesUnmarked loop ∨ JumpsTooFar loop) ∧ ∃ i body pool, b.build = .ok (i, body, pool) ∧
      body.code = [170, 0, 0, 0, 0, 0, 0, 20, 0, 0, 0, 7, 0, 0, 0, 7, 0, 0, 0, 0, 167, 255, 236] ∧
        ∀ e ∈ loop, e.statement.Decoded body.code e.position (LeadsToMark loop e.position) := by
  have htop := (Composed.start {}).written (s := .label "top") rfl
  have hswitch := htop.written (s := .tableSwitch 7 "out" ["top"]) rfl
  have hout := hswitch.written (s := .label "out") rfl
  have hjump := hout.written (s := .jump .goto "top") rfl
  have hloop : Composed _ loop := hjump
  obtain ⟨hfails, hbuilt⟩ := built_iff_and_leads hloop
  refine ⟨_, hloop, fun hbad => ?_, _, _, _, rfl, rfl, (hbuilt _ _ _ rfl).2.2 (by decide)⟩
  obtain ⟨fault, hfault⟩ := hfails.2 hbad
  cases hfault

end CodeBuilder

end JavaMachine
