import JavaMachine.Proofs.ClassFile.Legible
import JavaMachine.Proofs.Loading.Layout

/-!
The run-time pool of a class file that was read. Reading looks only at the indexes that it needs itself, so that those
in the constants are found right or wrong when the run-time pool is built, one constant after the other. Main results:
`legible_of_parse`, that a pool which was read is laid out as pools are; `ofPool_of_parse`, that the run-time pool has
the same size if every constant `Leads` to what it needs, and that the first one which does not is refused as a breach
of the format, unless it is a string whose index lies outside of the pool.
-/

namespace JavaMachine

/-! ## Pools that were read -/

namespace Decoder

variable {i j : Input}

theorem legible_of_single {α : Type} {d : Decoder α} {make : α → Constant} {c : Constant}
    (h : (do return make (← d) : Decoder Constant) i = .ok (c, j)) (hmake : ∀ v, (make v).Legible) : c.Legible := by
  obtain ⟨v, k, -, h⟩ := bind_ok h
  obtain ⟨rfl, -⟩ := pure_ok h
  exact hmake v

theorem legible_of_pair {α β : Type} {d : Decoder α} {e : Decoder β} {make : α → β → Constant} {c : Constant}
    (h : (do return make (← d) (← e) : Decoder Constant) i = .ok (c, j)) (hmake : ∀ v w, (make v w).Legible) :
    c.Legible := by
  obtain ⟨v, k, -, h⟩ := bind_ok h
  exact legible_of_single h (hmake v)

/-- The bytes of a text are counted by a word and were decoded. -/
theorem legible_of_text {c : Constant}
    (h : (do
      let n ← u16
      let raw ← bytes n.toNat
      match Text.ModifiedUtf8.decode raw with
      | .ok _ => return Constant.utf8 raw
      | .error f => fail (.text f) : Decoder Constant) i = .ok (c, j)) : c.Legible := by
  obtain ⟨n, k, -, h⟩ := bind_ok h
  obtain ⟨raw, l, next, hraw, hnext, h⟩ := bind_next h
  split at hnext <;> subst hnext
  · next units hunits =>
    obtain ⟨rfl, -⟩ := pure_ok h
    refine ⟨?_, units, hunits⟩
    rw [(bytes_ok hraw).2]
    exact Nat.le_of_lt_succ n.toNat_lt
  · exact (fail_ok h).elim

theorem legible_of_constant {c : Constant} (h : constant i = .ok (c, j)) : c.Legible := by
  obtain ⟨tag, k, next, -, hnext, h⟩ := bind_next h
  -- one goal for each tag in the reader's order, and the last for tags that no constant has
  split at hnext <;> subst hnext
  · exact legible_of_text h
  · exact legible_of_single h fun _ => trivial
  · exact legible_of_single h fun _ => trivial
  · exact legible_of_single h fun _ => trivial
  · exact legible_of_single h fun _ => trivial
  · exact legible_of_single h fun _ => trivial
  · exact legible_of_single h fun _ => trivial
  · exact legible_of_pair h fun _ _ => trivial
  · exact legible_of_pair h fun _ _ => trivial
  · exact legible_of_pair h fun _ _ => trivial
  · exact legible_of_pair h fun _ _ => trivial
  · exact legible_of_pair h fun _ _ => trivial
  · exact legible_of_single h fun _ => trivial
  · exact legible_of_pair h fun _ _ => trivial
  · exact (fail_ok h).elim

/-- Slots that were read are spaced, and their constants are legible. -/
theorem legible_of_poolSlots {left index : Nat} {slots : List (Option Constant)}
    (h : poolSlots left index i = .ok (slots, j)) : Spaced slots ∧ ∀ c, some c ∈ slots → c.Legible := by
  -- the recursion takes one slot away, or two after a wide constant
  fun_induction poolSlots left index generalizing i slots with
  | case1 =>
    obtain ⟨rfl, -⟩ := pure_ok h
    exact ⟨.nil, fun c hc => absurd hc List.not_mem_nil⟩
  | case2 left index ihWide ih =>
    obtain ⟨c, k, next, hc, hnext, h⟩ := bind_next h
    have hlegible := legible_of_constant (inside_ok hc)
    split at hnext
    · next hwide =>
      cases left with
      | zero =>
        subst hnext
        exact (fail_ok h).elim
      | succ left =>
        subst hnext
        obtain ⟨rest, l, hslots, h⟩ := bind_ok h
        obtain ⟨rfl, rfl⟩ := pure_ok h
        obtain ⟨hspaced, hrest⟩ := ihWide hslots
        refine ⟨.wide hwide hspaced, fun c' hc' => ?_⟩
        simp only [List.mem_cons, Option.some.injEq, reduceCtorEq, false_or] at hc'
        rcases hc' with rfl | hc'
        · exact hlegible
        · exact hrest c' hc'
    · next hwide =>
      subst hnext
      obtain ⟨rest, l, hslots, h⟩ := bind_ok h
      obtain ⟨rfl, rfl⟩ := pure_ok h
      obtain ⟨hspaced, hrest⟩ := ih hslots
      refine ⟨.narrow (by simpa using hwide) hspaced, fun c' hc' => ?_⟩
      simp only [List.mem_cons, Option.some.injEq] at hc'
      rcases hc' with rfl | hc'
      · exact hlegible
      · exact hrest c' hc'

theorem legible_of_constantPool {pool : ConstantPool} (h : constantPool i = .ok (pool, j)) : pool.Legible := by
  obtain ⟨count, k, next, hcount, hnext, h⟩ := bind_next h
  split at hnext
  · subst hnext
    exact (fail_ok h).elim
  · subst hnext
    obtain ⟨slots, l, hslots, h⟩ := bind_ok h
    obtain ⟨rfl, -⟩ := pure_ok h
    obtain ⟨hspaced, hlegible⟩ := legible_of_poolSlots hslots
    have hlength := (poolSlots_exact hslots).2
    have hcount := count.toNat_lt
    refine ⟨⟨slots, rfl, hspaced⟩, ?_, fun c hc => hlegible c (by simpa using hc)⟩
    rw [List.size_toArray, List.length_cons, hlength]
    omega

/-- The pool of a class file is the one that is read behind the version. -/
theorem legible_of_classFile {depth : Nat} {cf : ClassFile} (h : classFile depth i = .ok (cf, j)) :
    cf.pool.Legible := by
  obtain ⟨⟨minor, major⟩, _, -, h⟩ := bind_ok h
  obtain ⟨pool, _, hpool, h⟩ := bind_ok h
  obtain ⟨flags, _, -, h⟩ := bind_ok h
  obtain ⟨thisClass, _, -, h⟩ := bind_ok h
  obtain ⟨superClass, _, -, h⟩ := bind_ok h
  obtain ⟨interfaces, _, -, h⟩ := bind_ok h
  obtain ⟨_, _, -, h⟩ := bind_ok h
  have h := check_ok h
  obtain ⟨_, _, -, h⟩ := bind_ok h
  obtain ⟨fields, _, -, h⟩ := bind_ok h
  obtain ⟨methods, _, -, h⟩ := bind_ok h
  obtain ⟨attributes, _, -, h⟩ := bind_ok h
  obtain ⟨left, _, next, -, hnext, h⟩ := bind_next h
  split at hnext <;> subst hnext
  · obtain ⟨rfl, -⟩ := pure_ok h
    exact legible_of_constantPool hpool
  · exact (fail_ok h).elim

end Decoder

theorem ClassFile.legible_of_parse {bytes : List UInt8} {cf : ClassFile} (h : ClassFile.parse bytes = .ok cf) :
    cf.pool.Legible := by
  unfold ClassFile.parse at h
  cases hd : (Decoder.classFile bytes.length).run ⟨bytes, 0⟩ with
  | error f =>
    rw [hd] at h
    cases h
  | ok p =>
    rw [hd] at h
    cases h
    exact Decoder.legible_of_classFile hd

/-! ## What constants lead to -/

namespace ConstantPool

/-- A constant refers to constants that are there and of the kind that it needs. -/
def Leads (pool : ConstantPool) : Constant → Prop
  | .string t => ∃ raw, pool.utf8Raw t = .ok raw
  | .class n => ∃ name, pool.utf8 n = .ok name
  | .member _ owner nt => (∃ name, pool.className owner = .ok name) ∧ ∃ p, pool.nameAndType nt = .ok p
  | _ => True

/-- The constant at an index is the first that does not lead to what it needs. -/
structure Astray (pool : ConstantPool) (i : Nat) (c : Constant) : Prop where
  here : pool[i]? = some (some c)
  astray : ¬ pool.Leads c
  first : ∀ i' < i, ∀ c', pool[i']? = some (some c') → pool.Leads c'

variable {pool : ConstantPool} {i : Nat} {c : Constant}

theorem Legible.index_pos (h : pool.Legible) (hc : pool[i]? = some (some c)) : 0 < i := by
  obtain ⟨slots, hslots, -⟩ := h.spaced
  cases i with
  | zero =>
    rw [← Array.getElem?_toList, hslots] at hc
    cases hc
  | succ i => exact Nat.succ_pos i

/-- An entry of a pool is found under its index as a word. -/
theorem Legible.entry (h : pool.Legible) (hc : pool[i]? = some (some c)) : pool.entry (UInt16.ofNat i) = .ok c := by
  obtain ⟨hi, -⟩ := Array.getElem?_eq_some_iff.1 hc
  have hsize := h.size
  have hpos := h.index_pos hc
  have hword : (UInt16.ofNat i).toNat = i := by
    rw [UInt16.toNat_ofNat']
    omega
  have hne : UInt16.ofNat i ≠ 0 := by
    intro h0
    rw [h0, UInt16.toNat_zero] at hword
    omega
  rw [ConstantPool.entry, if_neg hne, hword, hc]

/-- A reference to a member is read through the entry that holds it. -/
theorem Legible.memberRef (h : pool.Legible) {kind : MemberKind} {owner nt : UInt16}
    (hc : pool[i]? = some (some (.member kind owner nt))) :
    pool.memberRef (UInt16.ofNat i) = (do return (← pool.className owner, ← pool.nameAndType nt)) := by
  rw [ConstantPool.memberRef, h.entry hc]
  rfl

theorem getElem?_of_utf8Raw {index : UInt16} {raw : List UInt8} (h : pool.utf8Raw index = .ok raw) :
    pool[index.toNat]? = some (some (.utf8 raw)) := by
  unfold ConstantPool.utf8Raw ConstantPool.entry at h
  split at h
  · cases h
  · split at h
    · next c hc =>
      cases c with
      | utf8 raw' =>
        cases h
        exact hc
      | _ => cases h
    · cases h

/-- A text constant is found under its index, which is not 0. -/
theorem Legible.utf8Raw (h : pool.Legible) {index : UInt16} {raw : List UInt8}
    (hraw : pool[index.toNat]? = some (some (.utf8 raw))) : pool.utf8Raw index = .ok raw := by
  have hentry := h.entry hraw
  rw [UInt16.ofNat_toNat] at hentry
  rw [ConstantPool.utf8Raw, hentry]
  rfl

/-- A text entry was decoded when it was read. -/
theorem Legible.decoded (h : pool.Legible) {raw : List UInt8} (hc : pool[i]? = some (some (.utf8 raw))) :
    ∃ units, Text.ModifiedUtf8.decode raw = .ok units :=
  (h.constants _ (Array.mem_of_getElem? hc)).2

end ConstantPool

/-! ## The run-time pool -/

/-- The results of a list of computations: all values, or the error of the first that has none. -/
theorem mapM_outcome {ε α β : Type} (f : α → Except ε β) (as : List α) :
    match as.mapM f with
    | .ok bs => bs.length = as.length ∧ ∀ (i : Nat) a, as[i]? = some a → ∃ b, f a = .ok b ∧ bs[i]? = some b
    | .error e => ∃ (i : Nat) (a : α), as[i]? = some a ∧ f a = .error e ∧
        ∀ i' < i, ∀ a', as[i']? = some a' → ∃ b, f a' = .ok b := by
  induction as with
  | nil => exact ⟨rfl, nofun⟩
  | cons a rest ih =>
    rw [List.mapM_cons]
    cases ha : f a with
    | error e => exact ⟨0, a, rfl, ha, nofun⟩
    | ok b =>
      cases hrest : rest.mapM f with
      | error e =>
        rw [hrest] at ih
        obtain ⟨i, a', ha', he, hbefore⟩ := ih
        refine ⟨i + 1, a', ha', he, fun i' hi' => ?_⟩
        cases i' with
        | zero => exact fun _ h => Option.some.inj h ▸ ⟨b, ha⟩
        | succ i' => exact hbefore i' (Nat.lt_of_succ_lt_succ hi')
      | ok bs =>
        rw [hrest] at ih
        refine ⟨congrArg (· + 1) ih.1, fun i => ?_⟩
        cases i with
        | zero => exact fun _ h => Option.some.inj h ▸ ⟨b, ha, rfl⟩
        | succ i => exact ih.2 i

namespace PoolEntry

open ConstantPool

variable {pool : ConstantPool} {i : Nat} {c : Constant} {owner : String}

/-- A constant has a run-time form if it leads to what it needs. One that does not breaks a rule of the format, or is
a string whose index lies outside of the pool. -/
theorem ofConstant_outcome (owner : String) (h : pool.Legible) (hc : pool[i]? = some (some c)) :
    match ofConstant owner pool i (some c) with
    | .ok _ => pool.Leads c
    | .error (.failure f) => ¬ pool.Leads c ∧ f.IsFormat ∧ ∀ t, c = .string t → t.toNat < pool.size
    | .error (.outside index size) =>
      ¬ pool.Leads c ∧ ∃ t, c = .string t ∧ index = t.toNat ∧ size = pool.size ∧ size ≤ index := by
  cases c with
  | string t =>
    rw [ofConstant]
    cases hslot : pool[t.toNat]? with
    | none =>
      refine ⟨fun hleads => ?_, t, rfl, rfl, rfl, Array.getElem?_eq_none_iff.1 hslot⟩
      obtain ⟨raw, hraw⟩ := hleads
      cases hslot.symm.trans (getElem?_of_utf8Raw hraw)
    | some slot =>
      have hinside (t' : UInt16) (ht : Constant.string t = .string t') : t'.toNat < pool.size := by
        cases ht
        exact (Array.getElem?_eq_some_iff.1 hslot).1
      have hother (hne : ∀ raw, slot ≠ some (.utf8 raw)) : ¬ pool.Leads (.string t) := by
        rintro ⟨raw, hraw⟩
        have heq := hslot.symm.trans (getElem?_of_utf8Raw hraw)
        exact hne raw (Option.some.inj heq)
      cases slot with
      | none => exact ⟨hother (by simp), ⟨_, _, rfl⟩, hinside⟩
      | some c' =>
        cases c' with
        | utf8 raw =>
          obtain ⟨units, hunits⟩ := h.decoded hslot
          dsimp only
          rw [hunits]
          exact ⟨raw, h.utf8Raw hslot⟩
        | _ => exact ⟨hother (by simp), ⟨_, _, rfl⟩, hinside⟩
  | «class» n =>
    rw [ofConstant]
    cases hn : pool.utf8 n with
    | ok name => exact ⟨name, hn⟩
    | error f =>
      refine ⟨fun hleads => ?_, ⟨_, _, rfl⟩, by simp⟩
      obtain ⟨name, hname⟩ := hleads
      cases hn.symm.trans hname
  | member kind o nt =>
    rw [ofConstant, h.memberRef hc]
    cases ho : pool.className o with
    | error f =>
      refine ⟨fun hleads => ?_, ⟨_, _, rfl⟩, by simp⟩
      obtain ⟨⟨name, hname⟩, -⟩ := hleads
      cases ho.symm.trans hname
    | ok name =>
      cases hnt : pool.nameAndType nt with
      | error f =>
        refine ⟨fun hleads => ?_, ⟨_, _, rfl⟩, by simp⟩
        obtain ⟨-, p, hp⟩ := hleads
        cases hnt.symm.trans hp
      | ok p => cases kind <;> exact ⟨⟨name, ho⟩, p, hnt⟩
  | _ => exact trivial

/-- The run-time form of a slot under its index. -/
def ofSlot (owner : String) (pool : ConstantPool) (slot : Option Constant × Nat) : Except PoolFault PoolEntry :=
  if slot.2 = 0 then .ok .empty else ofConstant owner pool slot.2 slot.1

theorem ofPool_eq (owner : String) (pool : ConstantPool) :
    ofPool owner pool = List.toArray <$> pool.zipIdx.toList.mapM (ofSlot owner pool) :=
  Array.mapM_eq_mapM_toList

/-- The run-time pool has the run-time form of a slot at the index of the slot. -/
theorem getElem?_ofPool {entries : Array PoolEntry} (h : ofPool owner pool = .ok entries) {slot : Option Constant}
    (hslot : pool[i]? = some slot) : ∃ e, ofSlot owner pool (slot, i) = .ok e ∧ entries[i]? = some e := by
  have houtcome := mapM_outcome (ofSlot owner pool) pool.zipIdx.toList
  rw [ofPool_eq] at h
  cases hresult : pool.zipIdx.toList.mapM (ofSlot owner pool) with
  | error fault =>
    rw [hresult] at h
    cases h
  | ok es =>
    rw [hresult] at h houtcome
    cases h
    obtain ⟨e, he, hat⟩ := houtcome.2 i (slot, i) (by simp [hslot])
    exact ⟨e, he, by rw [List.getElem?_toArray, hat]⟩

/-- An empty slot has a run-time form, and that of a constant is looked for at its index. -/
theorem ofSlot_eq (h : pool.Legible) {slot : Option Constant} (hslot : pool[i]? = some slot) :
    ofSlot owner pool (slot, i) = ofConstant owner pool i slot := by
  cases slot with
  | none =>
    unfold ofSlot
    split <;> rfl
  | some c => exact if_neg (Nat.ne_of_gt (h.index_pos hslot))

theorem leads_of_ofSlot (h : pool.Legible) (hc : pool[i]? = some (some c)) {e : PoolEntry}
    (hok : ofSlot owner pool (some c, i) = .ok e) : pool.Leads c := by
  have houtcome := ofConstant_outcome owner h hc
  rwa [← ofSlot_eq h hc, hok] at houtcome

/-- Whatever class file was read: if every constant leads to what it needs, the run-time pool has as many slots as the
pool; otherwise the first that does not is refused as a breach of the format, or it is a string constant whose index
lies outside of the pool, and is looked up there. -/
theorem ofPool_of_parse {bytes : List UInt8} {cf : ClassFile} (h : ClassFile.parse bytes = .ok cf) (owner : String) :
    match ofPool owner cf.pool with
    | .ok entries => entries.size = cf.pool.size ∧ ∀ c, some c ∈ cf.pool → cf.pool.Leads c
    | .error (.failure f) => f.IsFormat ∧ ∃ i c, cf.pool.Astray i c ∧ ∀ t, c = .string t → t.toNat < cf.pool.size
    | .error (.outside index size) => size = cf.pool.size ∧ size ≤ index ∧
        ∃ i t, cf.pool.Astray i (.string t) ∧ index = t.toNat := by
  have hpool := ClassFile.legible_of_parse h
  have houtcome := mapM_outcome (ofSlot owner cf.pool) cf.pool.zipIdx.toList
  have hindexed {i : Nat} {slot : Option Constant} (hslot : cf.pool[i]? = some slot) :
      cf.pool.zipIdx.toList[i]? = some (slot, i) := by
    simp [hslot]
  rw [ofPool_eq]
  cases hresult : cf.pool.zipIdx.toList.mapM (ofSlot owner cf.pool) with
  | ok entries =>
    rw [hresult] at houtcome
    obtain ⟨hlength, hall⟩ := houtcome
    refine ⟨by simpa using hlength, fun c hc => ?_⟩
    obtain ⟨i, hi⟩ := Array.mem_iff_getElem?.1 hc
    obtain ⟨e, he, -⟩ := hall i _ (hindexed hi)
    exact leads_of_ofSlot hpool hi he
  | error fault =>
    rw [hresult] at houtcome
    obtain ⟨i, ⟨slot, i'⟩, hslot, hfault, hbefore⟩ := houtcome
    have hslot : cf.pool[i]? = some slot ∧ i' = i := by
      simp only [Array.getElem?_toList, Array.getElem?_zipIdx, Nat.zero_add, Option.map_eq_some_iff] at hslot
      obtain ⟨slot', hslot', heq⟩ := hslot
      cases heq
      exact ⟨hslot', rfl⟩
    obtain ⟨hslot, rfl⟩ := hslot
    rw [ofSlot_eq hpool hslot] at hfault
    cases slot with
    | none => cases hfault
    | some c =>
      have hconstant := ofConstant_outcome owner hpool hslot
      rw [hfault] at hconstant
      have hastray (hleads : ¬ cf.pool.Leads c) : cf.pool.Astray i' c := by
        refine ⟨hslot, hleads, fun k hk c' hc' => ?_⟩
        obtain ⟨e, he⟩ := hbefore k hk _ (hindexed hc')
        exact leads_of_ofSlot hpool hc' he
      cases fault with
      | failure f =>
        obtain ⟨hleads, hformat, hinside⟩ := hconstant
        exact ⟨hformat, i', c, hastray hleads, hinside⟩
      | outside index size =>
        obtain ⟨hleads, t, rfl, rfl, rfl, hle⟩ := hconstant
        exact ⟨rfl, hle, i', t, hastray hleads, rfl⟩

/-- A class file whose last constant is of one's choice. -/
def sampleFile (c : Constant) : ClassFile where
  minor := 0
  major := 52
  pool := #[none, some (.utf8 [0x42]), some (.class 1), some (.utf8 [0x49]), some (.nameAndType 3 2), some c]
  flags := ⟨0x21⟩
  thisClass := 2
  superClass := 0
  interfaces := []
  fields := []
  methods := []
  attributes := []

/-- A reference to a field is followed over three indexes, to a descriptor that is no text. -/
theorem ofPool_of_parse_descriptor :
    ∃ cf f, ClassFile.parse (sampleFile (.member .field 2 4)).encode = .ok cf ∧
      ofPool "B" cf.pool = .error (.failure f) ∧ f.IsFormat ∧
      ∃ i c, cf.pool.Astray i c ∧ ∀ t, c = .string t → t.toNat < cf.pool.size := by
  have hfails : ((ClassFile.parse (sampleFile (.member .field 2 4)).encode).toOption.map fun cf =>
      match ofPool "B" cf.pool with
      | .error (.failure _) => true
      | _ => false) = some true := by decide +kernel
  cases h : ClassFile.parse (sampleFile (.member .field 2 4)).encode with
  | error f =>
    rw [h] at hfails
    cases hfails
  | ok cf =>
    have houtcome := ofPool_of_parse h "B"
    rw [h, Except.toOption, Option.map_some] at hfails
    split at hfails
    · next f hf =>
      rw [hf] at houtcome
      exact ⟨cf, f, rfl, hf, houtcome⟩
    · cases hfails

/-- A string constant with an index outside of the pool is read, and looked up there. -/
theorem string_outside_pool :
    ∃ cf, ClassFile.parse (sampleFile (.string 99)).encode = .ok cf ∧ ofPool "B" cf.pool = .error (.outside 99 6) := by
  have houtside : ((ClassFile.parse (sampleFile (.string 99)).encode).toOption.map fun cf =>
      match ofPool "B" cf.pool with
      | .error (.outside index size) => some (index, size)
      | _ => none) = some (some (99, 6)) := by decide +kernel
  cases h : ClassFile.parse (sampleFile (.string 99)).encode with
  | error f =>
    rw [h] at houtside
    cases houtside
  | ok cf =>
    rw [h, Except.toOption, Option.map_some, Option.some.injEq] at houtside
    split at houtside
    · next index size hpool =>
      cases houtside
      exact ⟨cf, rfl, hpool⟩
    · cases houtside

end PoolEntry

end JavaMachine
