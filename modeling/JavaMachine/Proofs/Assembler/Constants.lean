import JavaMachine.Proofs.Assembler.Workbench

/-!
What a pool holds after additions in any order. An addition gives the index at which the constant that it asks for stands,
together with those that this one refers to; `PoolCall.HeldAt` says so. What is held is found again, nothing else stands at
its index, and no slot changes later. Main result: `PoolBuilder.constants_kept`.
-/

namespace JavaMachine

open Text

/-! ## What stands at an index -/

namespace ConstantPool

/-- The text of a constant. -/
def HoldsText (pool : ConstantPool) (i : UInt16) (s : String) : Prop :=
  pool.entry i = .ok (.utf8 (ModifiedUtf8.encodeString s))

/-- A class with its name. -/
def HoldsClass (pool : ConstantPool) (i : UInt16) (name : String) : Prop :=
  ∃ n, pool.entry i = .ok (.class n) ∧ pool.HoldsText n name

/-- A name with a descriptor. -/
def HoldsNameAndType (pool : ConstantPool) (i : UInt16) (name desc : String) : Prop :=
  ∃ n d, pool.entry i = .ok (.nameAndType n d) ∧ pool.HoldsText n name ∧ pool.HoldsText d desc

end ConstantPool

/-- The constant that an addition asks for stands at an index. -/
def PoolCall.HeldAt (pool : ConstantPool) (i : UInt16) : PoolCall → Prop
  | .utf8 s => pool.HoldsText i s
  | .int v => pool.entry i = .ok (.int v)
  | .float bits => pool.entry i = .ok (.float bits)
  | .long v => pool.entry i = .ok (.long v)
  | .double bits => pool.entry i = .ok (.double bits)
  | .class name => pool.HoldsClass i name
  | .string s => ∃ n, pool.entry i = .ok (.string n) ∧ pool.HoldsText n s
  | .nameAndType name desc => pool.HoldsNameAndType i name desc
  | .member kind owner name desc =>
    ∃ c nt, pool.entry i = .ok (.member kind c nt) ∧ pool.HoldsClass c owner ∧ pool.HoldsNameAndType nt name desc
  | .methodType desc => ∃ d, pool.entry i = .ok (.methodType d) ∧ pool.HoldsText d desc
  | .methodHandle kind reference => pool.entry i = .ok (.methodHandle kind reference)
  | .invokeDynamic bootstrap name desc =>
    ∃ nt, pool.entry i = .ok (.invokeDynamic bootstrap nt) ∧ pool.HoldsNameAndType nt name desc

/-- The addition that the lookups of a pool read off an index. -/
def PoolCall.read (pool : ConstantPool) (i : UInt16) : Except IndexFault PoolCall := do
  match ← pool.entry i with
  | .utf8 _ => .utf8 <$> pool.utf8 i
  | .int v => return .int v
  | .float bits => return .float bits
  | .long v => return .long v
  | .double bits => return .double bits
  | .class _ => .class <$> pool.className i
  | .string text => .string <$> pool.utf8 text
  | .nameAndType .. => (fun (name, desc) => .nameAndType name desc) <$> pool.nameAndType i
  | .member kind .. => (fun (owner, name, desc) => .member kind owner name desc) <$> pool.memberRef i
  | .methodType desc => .methodType <$> pool.utf8 desc
  | .methodHandle kind reference => return .methodHandle kind reference
  | .invokeDynamic bootstrap nt => (fun (name, desc) => .invokeDynamic bootstrap name desc) <$> pool.nameAndType nt

/-- The pool after additions one after another. -/
def PoolBuilder.built (calls : List PoolCall) : PoolBuilder := calls.foldl (fun b call => (call.perform b).2) {}

/-! ## Indexes lead to one constant each -/

namespace ConstantPool

variable {pool : ConstantPool} {i : UInt16} {c : Constant} {s t name name' desc desc' : String}

theorem entry_eq_ok_iff : pool.entry i = .ok c ↔ i ≠ 0 ∧ pool[i.toNat]? = some (some c) := by
  unfold entry
  split
  · next hzero => simp [hzero]
  · next hne =>
    split
    · next c' hc' => simp [hne, hc']
    · next hno => exact iff_of_false nofun fun h => hno c h.2

theorem index_of_entry (h : pool.entry i = .ok c) : 1 ≤ i.toNat ∧ i.toNat < pool.size := by
  obtain ⟨hne, hat⟩ := entry_eq_ok_iff.1 h
  have hpos : i.toNat ≠ 0 := fun hzero => hne (UInt16.toNat_inj.1 hzero)
  exact ⟨by omega, (Array.getElem?_eq_some_iff.1 hat).1⟩

theorem HoldsText.utf8 (h : pool.HoldsText i s) : pool.utf8 i = .ok s := by
  have hentry : pool.entry i = .ok (.utf8 (ModifiedUtf8.encodeString s)) := h
  rw [ConstantPool.utf8, utf8Raw, hentry]
  change Except.ok (Constant.text _) = _
  rw [Constant.text, ModifiedUtf8.decodeString_encodeString]
  rfl

theorem HoldsClass.className (h : pool.HoldsClass i name) : pool.className i = .ok name := by
  obtain ⟨n, hentry, hname⟩ := h
  rw [ConstantPool.className, hentry]
  exact hname.utf8

theorem HoldsNameAndType.nameAndType (h : pool.HoldsNameAndType i name desc) : pool.nameAndType i = .ok (name, desc) := by
  obtain ⟨n, d, hentry, hname, hdesc⟩ := h
  rw [ConstantPool.nameAndType, hentry]
  change (do return (← pool.utf8 n, ← pool.utf8 d)) = _
  rw [hname.utf8, hdesc.utf8]
  rfl

end ConstantPool

open ConstantPool

namespace PoolCall

variable {pool : ConstantPool} {i : UInt16} {call call' : PoolCall}

/-- Something stands at an index where an addition is held. -/
theorem HeldAt.entry (h : call.HeldAt pool i) : ∃ c, pool.entry i = .ok c := by
  cases call with
  | utf8 | int | float | long | double | methodHandle => exact ⟨_, h⟩
  | «class» | string | methodType | invokeDynamic =>
    obtain ⟨_, hentry, _⟩ := h
    exact ⟨_, hentry⟩
  | nameAndType | member =>
    obtain ⟨_, _, hentry, _⟩ := h
    exact ⟨_, hentry⟩

/-- What is held is what the lookups read. -/
theorem HeldAt.read (h : call.HeldAt pool i) : read pool i = .ok call := by
  cases call with
  | utf8 s =>
    rw [PoolCall.read, show pool.entry i = _ from h]
    exact congrArg (PoolCall.utf8 <$> ·) (HoldsText.utf8 h)
  | int | float | long | double | methodHandle =>
    rw [PoolCall.read, show pool.entry i = _ from h]
    rfl
  | «class» name =>
    have hname := HoldsClass.className h
    obtain ⟨n, hentry, -⟩ := h
    rw [PoolCall.read, hentry]
    exact congrArg (PoolCall.class <$> ·) hname
  | string s =>
    obtain ⟨n, hentry, htext⟩ := h
    rw [PoolCall.read, hentry]
    exact congrArg (PoolCall.string <$> ·) htext.utf8
  | nameAndType name desc =>
    have hmember := HoldsNameAndType.nameAndType h
    obtain ⟨n, d, hentry, -⟩ := h
    rw [PoolCall.read, hentry]
    exact congrArg ((fun p => PoolCall.nameAndType p.1 p.2) <$> ·) hmember
  | member kind owner name desc =>
    obtain ⟨c, nt, hentry, howner, hmember⟩ := h
    have href : pool.memberRef i = .ok (owner, name, desc) := by
      rw [memberRef, hentry]
      change (do return (← pool.className c, ← pool.nameAndType nt)) = _
      rw [howner.className, hmember.nameAndType]
      rfl
    rw [PoolCall.read, hentry]
    exact congrArg ((fun p => PoolCall.member kind p.1 p.2.1 p.2.2) <$> ·) href
  | methodType desc =>
    obtain ⟨d, hentry, htext⟩ := h
    rw [PoolCall.read, hentry]
    exact congrArg (PoolCall.methodType <$> ·) htext.utf8
  | invokeDynamic bootstrap name desc =>
    obtain ⟨nt, hentry, hmember⟩ := h
    rw [PoolCall.read, hentry]
    exact congrArg ((fun p => PoolCall.invokeDynamic bootstrap p.1 p.2) <$> ·) hmember.nameAndType

/-- What stands at an index was asked for in one way only. -/
theorem HeldAt.unique (h : call.HeldAt pool i) (h' : call'.HeldAt pool i) : call = call' :=
  Except.ok.inj (h.read.symm.trans h'.read)

end PoolCall

/-! ## What is held is found -/

namespace PoolBuilder

variable {b b' : PoolBuilder} {i : UInt16} {c : Constant} {s name desc : String} {call : PoolCall}

theorem add_of_entry (h : b.pool.entry i = .ok c) : b.add c = (i, b) := by
  obtain ⟨-, hat⟩ := entry_eq_ok_iff.1 h
  exact add_of_lookup ((b.indexed _ _).2 ⟨i.toNat, c, hat, rfl, UInt16.ofNat_toNat⟩)

theorem utf8_of_holds (h : b.pool.HoldsText i s) : b.utf8 s = (i, b) := add_of_entry h

theorem className_of_holds (h : b.pool.HoldsClass i name) : b.className name = (i, b) := by
  obtain ⟨n, hentry, hname⟩ := h
  rw [className, utf8_of_holds hname]
  exact add_of_entry hentry

theorem nameAndType_of_holds (h : b.pool.HoldsNameAndType i name desc) : b.nameAndType name desc = (i, b) := by
  obtain ⟨n, d, hentry, hname, hdesc⟩ := h
  simp only [nameAndType, utf8_of_holds hname, utf8_of_holds hdesc]
  exact add_of_entry hentry

/-- Asking for what is held gives the index at which it stands, and changes nothing. -/
theorem perform_of_heldAt (h : call.HeldAt b.pool i) : call.perform b = (i, b) := by
  cases call with
  | utf8 s => exact utf8_of_holds h
  | int | float | long | double | methodHandle => exact add_of_entry h
  | «class» name => exact className_of_holds h
  | string s =>
    obtain ⟨n, hentry, htext⟩ := h
    simp only [PoolCall.perform, string, utf8_of_holds htext]
    exact add_of_entry hentry
  | nameAndType name desc => exact nameAndType_of_holds h
  | member kind owner name desc =>
    obtain ⟨n, nt, hentry, howner, hmember⟩ := h
    simp only [PoolCall.perform, memberRef, className_of_holds howner, nameAndType_of_holds hmember]
    exact add_of_entry hentry
  | methodType desc =>
    obtain ⟨d, hentry, hdesc⟩ := h
    simp only [PoolCall.perform, methodType, utf8_of_holds hdesc]
    exact add_of_entry hentry
  | invokeDynamic bootstrap name desc =>
    obtain ⟨nt, hentry, hmember⟩ := h
    simp only [PoolCall.perform, invokeDynamic, nameAndType_of_holds hmember]
    exact add_of_entry hentry

/-! ## What is asked for is held -/

namespace Grows

variable (h : b.Grows b')

include h

theorem holdsText (hs : b.pool.HoldsText i s) : b'.pool.HoldsText i s := h.entry hs

theorem holdsClass (hc : b.pool.HoldsClass i name) : b'.pool.HoldsClass i name := by
  obtain ⟨n, hentry, hname⟩ := hc
  exact ⟨n, h.entry hentry, h.holdsText hname⟩

theorem holdsNameAndType (hm : b.pool.HoldsNameAndType i name desc) : b'.pool.HoldsNameAndType i name desc := by
  obtain ⟨n, d, hentry, hname, hdesc⟩ := hm
  exact ⟨n, d, h.entry hentry, h.holdsText hname, h.holdsText hdesc⟩

/-- What is held stays held, at the same index. -/
theorem heldAt (hcall : call.HeldAt b.pool i) : call.HeldAt b'.pool i := by
  cases call with
  | utf8 | int | float | long | double | methodHandle => exact h.entry hcall
  | «class» => exact h.holdsClass hcall
  | nameAndType => exact h.holdsNameAndType hcall
  | string | methodType =>
    obtain ⟨n, hentry, htext⟩ := hcall
    exact ⟨n, h.entry hentry, h.holdsText htext⟩
  | member =>
    obtain ⟨n, nt, hentry, howner, hmember⟩ := hcall
    exact ⟨n, nt, h.entry hentry, h.holdsClass howner, h.holdsNameAndType hmember⟩
  | invokeDynamic =>
    obtain ⟨nt, hentry, hmember⟩ := hcall
    exact ⟨nt, h.entry hentry, h.holdsNameAndType hmember⟩

end Grows

theorem holdsText_utf8 (h : b.Sound) (hsize : (b.utf8 s).2.pool.size ≤ 65535) :
    (b.utf8 s).2.pool.HoldsText (b.utf8 s).1 s := holds_add h hsize

theorem holdsClass_className (h : b.Sound) (hsize : (b.className name).2.pool.size ≤ 65535) :
    (b.className name).2.pool.HoldsClass (b.className name).1 name := by
  have hgrows : (b.utf8 name).2.Grows (b.className name).2 := grows_add (by nofun) _
  have htext := holdsText_utf8 h (Nat.le_trans hgrows.size_le hsize)
  exact ⟨_, holds_add ((grows_utf8 name b).sound h) hsize, hgrows.holdsText htext⟩

theorem holdsNameAndType_nameAndType (h : b.Sound) (hsize : (b.nameAndType name desc).2.pool.size ≤ 65535) :
    (b.nameAndType name desc).2.pool.HoldsNameAndType (b.nameAndType name desc).1 name desc := by
  have hname := grows_utf8 name b
  have hdesc := grows_utf8 desc (b.utf8 name).2
  have hadd : ((b.utf8 name).2.utf8 desc).2.Grows (b.nameAndType name desc).2 := grows_add (by nofun) _
  have hdescsize := Nat.le_trans hadd.size_le hsize
  have htext := holdsText_utf8 h (Nat.le_trans hdesc.size_le hdescsize)
  refine ⟨_, _, holds_add (hdesc.sound (hname.sound h)) hsize, (hdesc.trans hadd).holdsText htext, ?_⟩
  exact hadd.holdsText (holdsText_utf8 (hname.sound h) hdescsize)

/-- What is asked for stands at the index that is given. -/
theorem heldAt_perform (h : b.Sound) (hsize : (call.perform b).2.pool.size ≤ 65535) :
    call.HeldAt (call.perform b).2.pool (call.perform b).1 := by
  cases call with
  | utf8 | int | float | long | double | methodHandle => exact holds_add h hsize
  | «class» name => exact holdsClass_className h hsize
  | nameAndType name desc => exact holdsNameAndType_nameAndType h hsize
  | string s =>
    have hgrows : (b.utf8 s).2.Grows (b.string s).2 := grows_add (by nofun) _
    have htext := holdsText_utf8 h (Nat.le_trans hgrows.size_le hsize)
    exact ⟨_, holds_add ((grows_utf8 s b).sound h) hsize, hgrows.holdsText htext⟩
  | methodType desc =>
    have hgrows : (b.utf8 desc).2.Grows (b.methodType desc).2 := grows_add (by nofun) _
    have htext := holdsText_utf8 h (Nat.le_trans hgrows.size_le hsize)
    exact ⟨_, holds_add ((grows_utf8 desc b).sound h) hsize, hgrows.holdsText htext⟩
  | member kind owner name desc =>
    have howner := grows_className owner b
    have hmember := grows_nameAndType name desc (b.className owner).2
    have hadd : ((b.className owner).2.nameAndType name desc).2.Grows (b.memberRef kind owner name desc).2 :=
      grows_add (by nofun) _
    have hmembersize := Nat.le_trans hadd.size_le hsize
    have hclass := holdsClass_className h (Nat.le_trans hmember.size_le hmembersize)
    refine ⟨_, _, holds_add (hmember.sound (howner.sound h)) hsize, (hmember.trans hadd).holdsClass hclass, ?_⟩
    exact hadd.holdsNameAndType (holdsNameAndType_nameAndType (howner.sound h) hmembersize)
  | invokeDynamic bootstrap name desc =>
    have hmember := grows_nameAndType name desc b
    have hadd : (b.nameAndType name desc).2.Grows (b.invokeDynamic bootstrap name desc).2 := grows_add (by nofun) _
    have hheld := holdsNameAndType_nameAndType h (Nat.le_trans hadd.size_le hsize)
    exact ⟨_, holds_add (hmember.sound h) hsize, hadd.holdsNameAndType hheld⟩

end PoolBuilder

/-! ## Slots -/

namespace Spaced

variable {slots : List (Option Constant)}

theorem head_ne_none (h : Spaced slots) : slots[0]? ≠ some none := by
  cases h <;> simp

/-- The slots that follow a wide constant are empty, and no others after the first. -/
theorem succ_eq_none_iff (h : Spaced slots) (n : Nat) :
    slots[n + 1]? = some none ↔ ∃ c, slots[n]? = some (some c) ∧ c.isWide := by
  induction h generalizing n with
  | nil => simp
  | @narrow c rest hc hrest ih =>
    cases n with
    | zero => simpa [hc] using head_ne_none hrest
    | succ n => exact ih n
  | @wide c rest hc hrest ih =>
    match n with
    | 0 => simp [hc]
    | 1 => simpa using head_ne_none hrest
    | n + 2 => exact ih n

end Spaced

namespace PoolBuilder

variable {b b' : PoolBuilder}

/-- A slot is empty if it is the first one or follows a wide constant, and no other is. -/
theorem Sound.empty_iff (h : b.Sound) (n : Nat) :
    b.pool[n]? = some none ↔ n = 0 ∨ ∃ c, b.pool[n - 1]? = some (some c) ∧ c.isWide := by
  obtain ⟨slots, hslots, hspaced⟩ := h.spaced
  simp only [← Array.getElem?_toList, hslots]
  match n with
  | 0 => simp
  | 1 => simpa using hspaced.head_ne_none
  | n + 2 => simpa using hspaced.succ_eq_none_iff n

/-! ## Additions in any order -/

theorem built_append (before after : List PoolCall) :
    built (before ++ after) = after.foldl (fun b call => (call.perform b).2) (built before) := List.foldl_append

theorem built_concat (before : List PoolCall) (call : PoolCall) :
    built (before ++ [call]) = (call.perform (built before)).2 := built_append before [call]

theorem grows_built (before after : List PoolCall) : (built before).Grows (built (before ++ after)) := by
  rw [built_append]
  generalize built before = b
  induction after generalizing b with
  | nil => exact .refl b
  | cons call after ih => exact (Workbench.grows_perform call b).trans (ih _)

theorem sound_built (calls : List PoolCall) : (built calls).Sound := (grows_built [] calls).sound sound_empty

/-- What was asked for is held at once and at any later time, at the index that was given. -/
theorem heldAt_built {before after : List PoolCall} {call : PoolCall}
    (hsize : (built (before ++ call :: after)).pool.size ≤ 65535) :
    call.HeldAt (call.perform (built before)).2.pool (call.perform (built before)).1 ∧
      call.HeldAt (built (before ++ call :: after)).pool (call.perform (built before)).1 := by
  have hgrows := grows_built (before ++ [call]) after
  rw [List.append_assoc, built_concat] at hgrows
  have hheld := heldAt_perform (sound_built before) (Nat.le_trans hgrows.size_le hsize)
  exact ⟨hheld, hgrows.heldAt hheld⟩

/-- In a pool of at most 65535 slots, each addition gave the index of the constant that it asked for. Asking again at any
later time gives that index and changes nothing, and other constants have other indexes. The slots that are empty are the
first and those after wide constants, and what a pool once held it holds at the same place later. -/
theorem constants_kept (calls : List PoolCall) (hsize : (built calls).pool.size ≤ 65535) :
    (∀ before call after, calls = before ++ call :: after → ∀ i b, call.perform (built before) = (i, b) →
      1 ≤ i.toNat ∧ i.toNat ≤ b.pool.size - 1 ∧ call.HeldAt b.pool i ∧ call.HeldAt (built calls).pool i ∧
        call.perform (built calls) = (i, built calls)) ∧
    (∀ before call after before' call' after', calls = before ++ call :: after → calls = before' ++ call' :: after' →
      ((call.perform (built before)).1 = (call'.perform (built before')).1 ↔ call = call')) ∧
    (∀ n, (built calls).pool[n]? = some none ↔
      n = 0 ∨ ∃ c, (built calls).pool[n - 1]? = some (some c) ∧ c.isWide) ∧
    ∀ before after, calls = before ++ after → (built before).pool.toList <+: (built calls).pool.toList := by
  refine ⟨?_, ?_, (sound_built calls).empty_iff, ?_⟩
  · rintro before call after rfl i b hb
    obtain ⟨hnow, hlater⟩ := heldAt_built hsize
    rw [hb] at hnow hlater
    obtain ⟨c, hc⟩ := hnow.entry
    obtain ⟨hpos, hlt⟩ := index_of_entry hc
    exact ⟨hpos, Nat.le_sub_one_of_lt hlt, hnow, hlater, perform_of_heldAt hlater⟩
  · intro before call after before' call' after' hcalls hcalls'
    have hheld : call.HeldAt (built calls).pool (call.perform (built before)).1 := by
      rw [hcalls] at hsize ⊢
      exact (heldAt_built hsize).2
    have hheld' : call'.HeldAt (built calls).pool (call'.perform (built before')).1 := by
      rw [hcalls'] at hsize ⊢
      exact (heldAt_built hsize).2
    refine ⟨fun hsame => hheld.unique (hsame ▸ hheld'), ?_⟩
    rintro rfl
    exact (Prod.mk.inj ((perform_of_heldAt hheld).symm.trans (perform_of_heldAt hheld'))).1
  · rintro before after rfl
    exact (grows_built before after).entries

/-- A long, which takes two slots, the same bits as a double and as a float, a member of a class, the class again, and
zeros of both signs. -/
def sampleAdditions : List PoolCall :=
  [.long 1, .double 1, .float 1, .member .method "A" "m" "()V", .class "A", .string "A", .float 0, .float 0x80000000, .long 1]

/-- The long at the end is the one at the start, and zero is told from its negative. -/
theorem constants_kept_sample : (built sampleAdditions).pool.size ≤ 65535 ∧
    ((PoolCall.long 1).perform {}).1 = ((PoolCall.long 1).perform (built (sampleAdditions.take 8))).1 ∧
    ((PoolCall.float 0).perform (built (sampleAdditions.take 6))).1 ≠
      ((PoolCall.float 0x80000000).perform (built (sampleAdditions.take 7))).1 := by
  have hsize : (built sampleAdditions).pool.size ≤ 65535 := by decide +kernel
  obtain ⟨-, hindex, -⟩ := constants_kept sampleAdditions hsize
  refine ⟨hsize, ?_, fun hsame => ?_⟩
  · exact (hindex [] (.long 1) (sampleAdditions.drop 1) (sampleAdditions.take 8) (.long 1) [] rfl rfl).2 rfl
  · exact nomatch (hindex (sampleAdditions.take 6) (.float 0) (sampleAdditions.drop 7)
      (sampleAdditions.take 7) (.float 0x80000000) (sampleAdditions.drop 8) rfl rfl).1 hsame

end PoolBuilder

end JavaMachine
