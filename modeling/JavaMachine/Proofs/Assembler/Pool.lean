import JavaMachine.Assembler.Pool
import JavaMachine.Assembler.Source
import JavaMachine.Proofs.Assembler.Keys
import JavaMachine.Proofs.ClassFile.Legible
import JavaMachine.Proofs.Text.ModifiedUtf8

/-!
How a pool grows, and what the assembly of a method body does to it. An addition `Grows` a pool: what was there stays where
it was, the slots stay laid out as those of a pool are, and every text stays spelled in its canonical encoding. The index
that an addition gives leads to the constant that was asked for, as long as the number of slots can be written. Main
results: `holds_add`, `utf8_utf8`, `className_className`.

Emitting bytes leaves the pool alone, and a statement only adds to it. A body that is built has its name and the name of its
line table in the pool. Main results: `grows_statement`, `built_build`.
-/

namespace JavaMachine

open Text

/-- The bytes of a text constant are those that the text is written with. -/
def Constant.Spelled (c : Constant) : Prop := ∀ raw, c = .utf8 raw → ∃ s, raw = ModifiedUtf8.encodeString s

theorem Spaced.append {xs ys : List (Option Constant)} (hx : Spaced xs) (hy : Spaced ys) : Spaced (xs ++ ys) := by
  induction hx with
  | nil => exact hy
  | narrow hwide _ ih => exact .narrow hwide ih
  | wide hwide _ ih => exact .wide hwide ih

namespace PoolBuilder

/-- Slot 0 is empty, the others are laid out as those of a pool, and texts are spelled in their canonical encoding. -/
structure Sound (b : PoolBuilder) : Prop where
  spaced : ∃ slots, b.pool.toList = none :: slots ∧ Spaced slots
  texts : ∀ c, some c ∈ b.pool → c.Spelled

/-- What was there stays where it was, and a sound pool stays sound. -/
structure Grows (b b' : PoolBuilder) : Prop where
  entries : b.pool.toList <+: b'.pool.toList
  sound : b.Sound → b'.Sound

variable {b b' b'' : PoolBuilder} {c : Constant} {i : UInt16} {s name desc : String}

theorem sound_empty : Sound {} := by
  refine ⟨⟨[], rfl, .nil⟩, fun c hc => ?_⟩
  rw [← Array.mem_toList_iff] at hc
  cases List.mem_singleton.1 hc

namespace Grows

theorem refl (b : PoolBuilder) : b.Grows b := ⟨List.prefix_refl _, id⟩

theorem trans (h : b.Grows b') (h' : b'.Grows b'') : b.Grows b'' := ⟨h.entries.trans h'.entries, h'.sound ∘ h.sound⟩

theorem size_le (h : b.Grows b') : b.pool.size ≤ b'.pool.size := h.entries.length_le

/-- What an index leads to, it leads to later. -/
theorem entry (h : b.Grows b') (hi : b.pool.entry i = .ok c) : b'.pool.entry i = .ok c := by
  unfold ConstantPool.entry at hi ⊢
  split at hi
  · cases hi
  · next hne =>
    rw [if_neg hne]
    split at hi
    · next c' hc' =>
      cases hi
      have hlater : b'.pool[i.toNat]? = some (some c) := by
        obtain ⟨rest, hrest⟩ := h.entries
        rw [← Array.getElem?_toList] at hc' ⊢
        obtain ⟨hlt, -⟩ := List.getElem?_eq_some_iff.1 hc'
        rw [← hrest, List.getElem?_append_left hlt, hc']
      rw [hlater]
    · cases hi

theorem utf8 (h : b.Grows b') (hi : b.pool.utf8 i = .ok s) : b'.pool.utf8 i = .ok s := by
  unfold ConstantPool.utf8 ConstantPool.utf8Raw at hi ⊢
  cases hentry : b.pool.entry i with
  | error f =>
    rw [hentry] at hi
    cases hi
  | ok c =>
    rw [hentry] at hi
    rw [h.entry hentry]
    exact hi

theorem className (h : b.Grows b') (hi : b.pool.className i = .ok name) : b'.pool.className i = .ok name := by
  unfold ConstantPool.className at hi ⊢
  cases hentry : b.pool.entry i with
  | error f =>
    rw [hentry] at hi
    cases hi
  | ok c =>
    rw [hentry] at hi
    rw [h.entry hentry]
    cases c with
    | «class» n => exact h.utf8 hi
    | _ => cases hi

end Grows

/-! ## Additions -/

/-- A constant whose key is there is found, and nothing is added. -/
theorem add_of_lookup (h : b.index.lookup c.key = some i) : b.add c = (i, b) := by
  unfold add
  split
  · next found hfound =>
    cases hfound.symm.trans h
    rfl
  · next hnew => cases hnew.symm.trans h

/-- The slots that a new constant takes. -/
def slotsOf (c : Constant) : List (Option Constant) := if c.isWide then [some c, none] else [some c]

/-- A constant whose key is new goes to the end. -/
theorem add_of_new (h : b.index.lookup c.key = none) :
    (b.add c).1 = UInt16.ofNat b.pool.size ∧ (b.add c).2.pool.toList = b.pool.toList ++ slotsOf c ∧
      (b.add c).2.index = (c.key, UInt16.ofNat b.pool.size) :: b.index := by
  unfold add slotsOf
  split
  · next hfound => cases hfound.symm.trans h
  · dsimp only
    split
    · refine ⟨rfl, ?_, rfl⟩
      rw [Array.toList_push, Array.toList_push, List.append_assoc]
      rfl
    · exact ⟨rfl, Array.toList_push, rfl⟩

theorem spaced_slotsOf (c : Constant) : Spaced (slotsOf c) := by
  unfold slotsOf
  split
  · next hwide => exact .wide hwide .nil
  · next hwide => exact .narrow (Bool.eq_false_iff.mpr hwide) .nil

theorem mem_slotsOf {c' : Constant} (h : some c' ∈ slotsOf c) : c' = c := by
  unfold slotsOf at h
  split at h <;> simpa using h

theorem grows_add (hc : c.Spelled) (b : PoolBuilder) : b.Grows (b.add c).2 := by
  cases h : b.index.lookup c.key with
  | some i =>
    rw [add_of_lookup h]
    exact .refl b
  | none =>
    obtain ⟨-, hpool, -⟩ := add_of_new h
    refine ⟨⟨_, hpool.symm⟩, fun hb => ?_⟩
    obtain ⟨slots, hslots, hspaced⟩ := hb.spaced
    refine ⟨⟨slots ++ slotsOf c, ?_, hspaced.append (spaced_slotsOf c)⟩, fun c' hc' => ?_⟩
    · rw [hpool, hslots]
      rfl
    · rw [← Array.mem_toList_iff, hpool, List.mem_append] at hc'
      rcases hc' with hold | hnew
      · exact hb.texts c' (Array.mem_toList_iff.1 hold)
      · exact mem_slotsOf hnew ▸ hc

/-- The constant stands at the index that is given. -/
theorem getElem?_add (hsize : (b.add c).2.pool.size ≤ 65535) :
    (b.add c).2.pool[(b.add c).1.toNat]? = some (some c) := by
  cases h : b.index.lookup c.key with
  | some i =>
    rw [add_of_lookup h] at hsize ⊢
    obtain ⟨n, c', hat, hkey, rfl⟩ := (b.indexed _ _).1 h
    obtain rfl := Constant.key_inj.1 hkey
    obtain ⟨hlt, -⟩ := Array.getElem?_eq_some_iff.1 hat
    rw [UInt16.toNat_ofNat_of_lt' (Nat.lt_of_lt_of_le hlt (Nat.le_succ_of_le hsize))]
    exact hat
  | none =>
    obtain ⟨hindex, hpool, -⟩ := add_of_new h
    have hgrown : b.pool.size < (b.add c).2.pool.size := by
      rw [← Array.length_toList, ← Array.length_toList, hpool, List.length_append, slotsOf]
      split <;> exact Nat.lt_add_of_pos_right (Nat.zero_lt_succ _)
    rw [hindex, UInt16.toNat_ofNat_of_lt' (show b.pool.size < 65536 by omega), ← Array.getElem?_toList, hpool,
      ← Array.length_toList, List.getElem?_append_right (Nat.le_refl _), Nat.sub_self, slotsOf]
    split <;> rfl

/-- Slot 0 stays empty. -/
theorem getElem?_zero_add (hzero : b.pool[0]? = some none) : (b.add c).2.pool[0]? = some none := by
  cases h : b.index.lookup c.key with
  | some i =>
    rw [add_of_lookup h]
    exact hzero
  | none =>
    obtain ⟨-, hpool, -⟩ := add_of_new h
    obtain ⟨hpos, -⟩ := Array.getElem?_eq_some_iff.1 hzero
    rw [← Array.getElem?_toList, hpool, List.getElem?_append_left (by rw [Array.length_toList]; exact hpos),
      Array.getElem?_toList]
    exact hzero

theorem index_add_ne_zero (hzero : b.pool[0]? = some none) (hsize : (b.add c).2.pool.size ≤ 65535) :
    (b.add c).1 ≠ 0 := by
  intro h
  have hat := getElem?_add hsize
  rw [h] at hat
  cases hat.symm.trans (getElem?_zero_add hzero)

/-- The index that is given leads to the constant. -/
theorem holds_add (h : b.Sound) (hsize : (b.add c).2.pool.size ≤ 65535) : (b.add c).2.pool.entry (b.add c).1 = .ok c := by
  obtain ⟨slots, hslots, -⟩ := h.spaced
  have hzero : b.pool[0]? = some none := by
    rw [← Array.getElem?_toList, hslots]
    rfl
  rw [ConstantPool.entry, if_neg (index_add_ne_zero hzero hsize), getElem?_add hsize]

theorem spelled_utf8 (s : String) : (Constant.utf8 (ModifiedUtf8.encodeString s)).Spelled := by
  intro raw h
  cases h
  exact ⟨s, rfl⟩

theorem grows_utf8 (s : String) (b : PoolBuilder) : b.Grows (b.utf8 s).2 := grows_add (spelled_utf8 s) b

theorem grows_className (name : String) (b : PoolBuilder) : b.Grows (b.className name).2 :=
  (grows_utf8 name b).trans (grows_add (by nofun) _)

theorem grows_string (s : String) (b : PoolBuilder) : b.Grows (b.string s).2 :=
  (grows_utf8 s b).trans (grows_add (by nofun) _)

theorem grows_nameAndType (name desc : String) (b : PoolBuilder) : b.Grows (b.nameAndType name desc).2 :=
  (grows_utf8 name b).trans ((grows_utf8 desc _).trans (grows_add (by nofun) _))

theorem grows_memberRef (kind : MemberKind) (owner name desc : String) (b : PoolBuilder) :
    b.Grows (b.memberRef kind owner name desc).2 :=
  (grows_className owner b).trans ((grows_nameAndType name desc _).trans (grows_add (by nofun) _))

theorem grows_methodType (desc : String) (b : PoolBuilder) : b.Grows (b.methodType desc).2 :=
  (grows_utf8 desc b).trans (grows_add (by nofun) _)

theorem grows_methodHandle (kind : UInt8) (reference : UInt16) (b : PoolBuilder) :
    b.Grows (b.methodHandle kind reference).2 := grows_add (by nofun) b

theorem grows_invokeDynamic (bootstrap : UInt16) (name desc : String) (b : PoolBuilder) :
    b.Grows (b.invokeDynamic bootstrap name desc).2 :=
  (grows_nameAndType name desc b).trans (grows_add (by nofun) _)

/-- A text is found at its index. -/
theorem utf8_utf8 (h : b.Sound) (hsize : (b.utf8 s).2.pool.size ≤ 65535) :
    (b.utf8 s).2.pool.utf8 (b.utf8 s).1 = .ok s := by
  have hentry := holds_add (c := .utf8 (ModifiedUtf8.encodeString s)) h hsize
  rw [ConstantPool.utf8, ConstantPool.utf8Raw]
  change Constant.text <$> (((b.add _).2.pool.entry (b.add _).1) >>= _) = _
  rw [hentry]
  change Except.ok (Constant.text _) = _
  rw [Constant.text, ModifiedUtf8.decodeString_encodeString]
  rfl

/-- The name of a class is found at its index. -/
theorem className_className (h : b.Sound) (hsize : (b.className name).2.pool.size ≤ 65535) :
    (b.className name).2.pool.className (b.className name).1 = .ok name := by
  have hname := grows_utf8 name b
  have hclass : (b.utf8 name).2.Grows (b.className name).2 := grows_add (by nofun) _
  have hentry : (b.className name).2.pool.entry (b.className name).1 = .ok (.class (b.utf8 name).1) :=
    holds_add (hname.sound h) hsize
  have hutf8 := hclass.utf8 (utf8_utf8 h (Nat.le_trans hclass.size_le hsize))
  rw [ConstantPool.className, hentry]
  exact hutf8

end PoolBuilder

/-- Both steps of a result that is there gave one. -/
theorem exists_of_bind_ok {ε α β : Type} {r : Except ε α} {f : α → Except ε β} {y : β} (h : (r >>= f) = .ok y) :
    ∃ x, r = .ok x ∧ f x = .ok y := by
  cases r with
  | error e => cases h
  | ok x => exact ⟨x, rfl, h⟩

/-- The attributes of a body that was assembled: a line table, or none. -/
def CodeBody.Lined (pool : ConstantPool) (c : CodeBody) : Prop :=
  c.attributes = [] ∨ ∃ i rows, c.attributes = [.mk i "LineNumberTable" (.lines rows)] ∧
    pool.utf8 i = .ok "LineNumberTable"

namespace CodeBuilder

variable {b b' : CodeBuilder}

/-! ## What leaves the pool alone -/

@[simp] theorem pool_emitBytes (data : List UInt8) (b : CodeBuilder) : (b.emitBytes data).pool = b.pool := rfl

@[simp] theorem pool_emit (op : Opcode) (b : CodeBuilder) : (b.emit op).pool = b.pool := rfl

@[simp] theorem pool_emitU8 (op : Opcode) (v : UInt8) (b : CodeBuilder) : (b.emitU8 op v).pool = b.pool := rfl

@[simp] theorem pool_emitU16 (op : Opcode) (v : UInt16) (b : CodeBuilder) : (b.emitU16 op v).pool = b.pool := rfl

@[simp] theorem pool_emitWide (op : Opcode) (i : UInt16) (b : CodeBuilder) : (b.emitWide op i).pool = b.pool := rfl

@[simp] theorem pool_emitI32 (v : Int32) (b : CodeBuilder) : (b.emitI32 v).pool = b.pool := rfl

@[simp] theorem pool_emitOffset (origin : Nat) (wide : Bool) (label : String) (b : CodeBuilder) :
    (b.emitOffset origin wide label).pool = b.pool := rfl

@[simp] theorem pool_pad (b : CodeBuilder) : b.pad.pool = b.pool := rfl

@[simp] theorem pool_setMaxLocals (n : Int) (b : CodeBuilder) : (b.setMaxLocals n).pool = b.pool := by
  unfold setMaxLocals
  split <;> rfl

@[simp] theorem pool_emitLocal (op : Opcode) (i : Int) (b : CodeBuilder) : (b.emitLocal op i).pool = b.pool := by
  unfold emitLocal
  dsimp only
  split <;> simp

@[simp] theorem pool_emitIinc (i delta : Int) (b : CodeBuilder) : (b.emitIinc i delta).pool = b.pool := by
  unfold emitIinc
  dsimp only
  split <;> simp

@[simp] theorem pool_ldc (i : UInt16) (b : CodeBuilder) : (b.ldc i).pool = b.pool := by
  unfold ldc
  split <;> simp

theorem pool_emitTargets (origin : Nat) (targets : List String) (b : CodeBuilder) :
    (targets.foldl (fun b t => b.emitOffset origin true t) b).pool = b.pool := by
  induction targets generalizing b with
  | nil => rfl
  | cons t rest ih => rw [List.foldl_cons, ih, pool_emitOffset]

@[simp] theorem pool_emitTableSwitch (low : Int32) (default : String) (targets : List String) (b : CodeBuilder) :
    (b.emitTableSwitch low default targets).pool = b.pool := by
  unfold emitTableSwitch
  dsimp only
  rw [pool_emitTargets, pool_emitI32, pool_emitI32, pool_emitOffset, pool_pad, pool_emit]

theorem pool_emitPairs {origin : Nat} {keys : List Int32} {targets : List String}
    (h : emitPairs origin keys targets b = .ok b') : b'.pool = b.pool := by
  induction keys generalizing targets b with
  | nil =>
    cases h
    rfl
  | cons k keys ih =>
    cases targets with
    | nil => cases h
    | cons t targets =>
      rw [emitPairs] at h
      rw [ih h, pool_emitOffset, pool_emitI32]

theorem pool_emitLookupSwitch {default : String} {keys : List Int32} {targets : List String}
    (h : b.emitLookupSwitch default keys targets = .ok b') : b'.pool = b.pool := by
  unfold emitLookupSwitch at h
  rw [pool_emitPairs h, pool_emitI32, pool_emitOffset, pool_pad, pool_emit]

/-! ## What adds to the pool -/

theorem grows_of_pool (h : b'.pool = b.pool) : b.pool.Grows b'.pool := by
  rw [h]
  exact .refl _

/-- An instruction on a constant that is added for it. -/
theorem grows_withPool {r : UInt16 × PoolBuilder} {use : UInt16 → CodeBuilder → CodeBuilder} (h : b.pool.Grows r.2)
    (huse : ∀ i b, (use i b).pool = b.pool) : b.pool.Grows (b.withPool r use).pool := by
  rw [withPool, huse]
  exact h

theorem grows_addHandler (start stop handler catchClass : String) (b : CodeBuilder) :
    b.pool.Grows (b.addHandler start stop handler catchClass).pool := by
  unfold addHandler
  dsimp only
  split
  · exact .refl _
  · exact grows_withPool (PoolBuilder.grows_className _ _) fun _ _ => rfl

theorem grows_pushInt (v : Int32) (b : CodeBuilder) : b.pool.Grows (b.pushInt v).pool := by
  unfold pushInt
  split
  · exact .refl _
  · split
    · exact .refl _
    · split
      · exact .refl _
      · exact grows_withPool (PoolBuilder.grows_add (by nofun) _) pool_ldc

theorem grows_invoke {op : Opcode} {onInterface : Bool} {owner name desc : String}
    (h : b.invoke op onInterface owner name desc = .ok b') : b.pool.Grows b'.pool := by
  unfold invoke at h
  split at h
  · split at h
    · cases h
    · cases h
      exact grows_withPool (PoolBuilder.grows_memberRef _ _ _ _ _) fun _ _ => rfl
  · cases h
    exact grows_withPool (PoolBuilder.grows_memberRef _ _ _ _ _) fun _ _ => rfl

theorem grows_mark {label : String} (h : b.mark label = .ok b') : b.pool.Grows b'.pool := by
  unfold mark at h
  split at h
  · cases h
  · cases h
    exact .refl _

/-- A statement only adds to the pool. -/
theorem grows_statement {s : Statement} (h : b.statement s = .ok b') : b.pool.Grows b'.pool := by
  cases s with
  | label => exact grows_mark h
  | handler => cases h; exact grows_addHandler _ _ _ _ _
  | int => cases h; exact grows_pushInt _ _
  | long => cases h; exact grows_withPool (PoolBuilder.grows_add (by nofun) _) fun _ _ => rfl
  | float => cases h; exact grows_withPool (PoolBuilder.grows_add (by nofun) _) pool_ldc
  | double => cases h; exact grows_withPool (PoolBuilder.grows_add (by nofun) _) fun _ _ => rfl
  | string => cases h; exact grows_withPool (PoolBuilder.grows_string _ _) pool_ldc
  | «class» => cases h; exact grows_withPool (PoolBuilder.grows_className _ _) pool_ldc
  | methodType => cases h; exact grows_withPool (PoolBuilder.grows_methodType _ _) pool_ldc
  | methodHandle =>
    cases h
    exact grows_withPool ((PoolBuilder.grows_memberRef _ _ _ _ _).trans (PoolBuilder.grows_methodHandle _ _ _)) pool_ldc
  | dynamic => cases h; exact grows_withPool (PoolBuilder.grows_invokeDynamic _ _ _ _) fun _ _ => rfl
  | field => cases h; exact grows_withPool (PoolBuilder.grows_memberRef _ _ _ _ _) fun _ _ => rfl
  | invoke => exact grows_invoke h
  | type => cases h; exact grows_withPool (PoolBuilder.grows_className _ _) fun _ _ => rfl
  | multiArray => cases h; exact grows_withPool (PoolBuilder.grows_className _ _) fun _ _ => rfl
  | lookupSwitch => exact grows_of_pool (pool_emitLookupSwitch h)
  | _ =>
    cases h
    exact grows_of_pool (by simp [lineNumber, setMaxStack, emitJump, emitJumpWide])

theorem grows_statements {body : List Statement} (h : b.statements body = .ok b') : b.pool.Grows b'.pool := by
  unfold statements at h
  induction body generalizing b with
  | nil =>
    cases h
    exact .refl _
  | cons s rest ih =>
    rw [List.foldlM_cons] at h
    obtain ⟨b₁, hb₁, h⟩ := exists_of_bind_ok h
    exact (grows_statement hb₁).trans (ih h)

/-! ## What is built -/

/-- A body that is built has its name and that of its line table in the pool. -/
theorem built_build {i : UInt16} {body : CodeBody} {pool : PoolBuilder} (h : b.build = .ok (i, body, pool)) :
    b.pool.Grows pool ∧ (b.pool.Sound → pool.pool.size ≤ 65535 →
      pool.pool.utf8 i = .ok codeName ∧ body.Lined pool.pool) := by
  have hname : b.pool.Grows (b.pool.utf8 codeName).2 := PoolBuilder.grows_utf8 _ _
  have htable := PoolBuilder.grows_utf8 "LineNumberTable" (b.pool.utf8 codeName).2
  unfold build at h
  obtain ⟨code, -, h⟩ := exists_of_bind_ok h
  obtain ⟨handlers, -, h⟩ := exists_of_bind_ok h
  by_cases hlines : b.lines.isEmpty
  · rw [if_pos hlines] at h
    cases h
    exact ⟨hname, fun hsound hsize => ⟨PoolBuilder.utf8_utf8 hsound hsize, .inl rfl⟩⟩
  · rw [if_neg hlines] at h
    cases h
    refine ⟨hname.trans htable, fun hsound hsize => ⟨?_, .inr ⟨_, _, rfl, ?_⟩⟩⟩
    · exact htable.utf8 (PoolBuilder.utf8_utf8 hsound (Nat.le_trans htable.size_le hsize))
    · exact PoolBuilder.utf8_utf8 (hname.sound hsound) hsize

end CodeBuilder

end JavaMachine
