import JavaMachine.Proofs.Loading.Knowledge

/-!
The two ways in which loaders learn. A loader is told of a class that is there (`Evolves.record`), or a class is
admitted: it is added to the machine and its own loader is told (`Evolves.admitted`). `Admissible` says which classes
may be. Classes of class files are admitted when they are published, and array classes when they are made.
-/

namespace JavaMachine

open M

variable {g : Guard} {m : Machine}

/-! ## Loaders that are told -/

/-- Every class in a list of classes with the latest first has its supertypes in the list too. -/
theorem Machine.Ordered.supertype {list : List (String × ClassId)} (h : m.Ordered list) {n : String}
    {c d : ClassId} (hc : (n, c) ∈ list) (hd : d ∈ (m.classAt c).supertypes) : ∃ n', (n', d) ∈ list := by
  induction list with
  | nil => cases hc
  | cons entry rest ih =>
    rcases List.mem_cons.1 hc with rfl | hc
    · obtain ⟨n', hn'⟩ := h.1 d hd
      exact ⟨n', List.mem_cons_of_mem _ hn'⟩
    · obtain ⟨n', hn'⟩ := ih h.2 hc
      exact ⟨n', List.mem_cons_of_mem _ hn'⟩

namespace Machine

/-- What the loaders know when one of them was told of a class. -/
theorem mem_classes_record {l l' : Nat} {n n' : String} {c c' : ClassId}
    (h : (n', c') ∈ ((m.record l n c).loaderAt l').classes) :
    (l = l' ∧ n' = n ∧ c' = c) ∨ (n', c') ∈ (m.loaderAt l').classes := by
  rw [classes_record] at h
  split at h
  · next hl =>
    rcases List.mem_cons.1 h with heq | hold
    · cases heq
      exact .inl ⟨hl.1, rfl, rfl⟩
    · exact .inr hold
  · exact .inr h

theorem suffix_classes_record (m : Machine) (l l' : Nat) (n : String) (c : ClassId) :
    (m.loaderAt l').classes <:+ ((m.record l n c).loaderAt l').classes := by
  rw [classes_record]
  split
  · exact List.suffix_cons ..
  · exact List.suffix_refl _

/-- A loader that is told of a class is as it was but for the classes that it knows. -/
theorem loaderAt_record {α : Type} (f : Loader → α) (hf : ∀ x classes, f { x with classes } = f x) (m : Machine)
    (l l' : Nat) (n : String) (c : ClassId) : f ((m.record l n c).loaderAt l') = f (m.loaderAt l') := by
  have h := m.loaderAt_modify l l' fun x => { x with classes := (n, c) :: x.classes }
  rw [record, h, apply_ite f, hf, ite_self]

/-- The bootstrap loader, told only what it knows, takes names for the same classes. -/
theorem loaded?_record {l : Nat} {n : String} {c : ClassId} (hboot : l = 0 → m.loaded? 0 n = some c) (n' : String) :
    (m.record l n c).loaded? 0 n' = m.loaded? 0 n' := by
  rw [loaded?, classes_record]
  split
  · next hl =>
    rw [List.lookup_cons]
    split
    · next hn => rw [eq_of_beq hn, hboot hl.1]
    · rfl
  · rfl

theorem succeeds_record {l : Nat} {n : String} {c : ClassId} (hboot : l = 0 → m.loaded? 0 n = some c) :
    Succeeds m (m.record l n c) where
  size := Nat.le_refl _
  plans _ _ := rfl
  loaders := by simp [record]
  lists l' := (m.suffix_classes_record l l' n c).subset
  newer n' k k' hk hk' := by
    rw [loaded?_record hboot] at hk'
    exact .inl (Option.some.inj (hk'.symm.trans hk))

end Machine

/-- A machine stays sound when a loader is told of one of its classes. The bootstrap loader is told only what
it knows. -/
theorem Machine.Sound.record (h : m.Sound) {l : Nat} {n : String} {c : ClassId} (hc : c.index < m.classes.size)
    (hname : (m.classAt c).name = n) (hboot : l = 0 → m.loaded? 0 n = some c) : (m.record l n c).Sound := by
  have hsub (l' : Nat) := (m.suffix_classes_record l l' n c).subset
  have hsize : (m.record l n c).loaders.size = m.loaders.size := by simp [Machine.record]
  have hold {n' : String} {c' : ClassId} (hmem : (n', c') ∈ ((m.record l n c).loaderAt 0).classes) :
      (n', c') ∈ (m.loaderAt 0).classes := by
    rcases mem_classes_record hmem with ⟨rfl, rfl, rfl⟩ | hold
    · exact mem_of_loaded? (hboot rfl)
    · exact hold
  have hs := succeeds_record hboot
  refine ⟨h.fit.onward hs rfl (fun _ => .inl) fun _ _ => .inl, ⟨hsize ▸ h.boot.1, ?_⟩, ?_,
    fun c hc => hsize ▸ h.homes c hc, h.announced, ?_, ?_, ?_, ?_, h.primitives, h.letters, ?_⟩
  · rw [loaderAt_record Loader.mirror fun _ _ => rfl]
    exact h.boot.2
  · exact fun c hc => (h.laid c hc).mono (Nat.le_of_lt hc) hs
  · exact fun c hc hprimitive => hsub _ (h.known c hc hprimitive)
  · intro l' n' c' hmem
    rcases mem_classes_record hmem with ⟨rfl, rfl, rfl⟩ | hmem
    · refine ⟨hc, hname, ?_⟩
      rintro rfl
      exact (h.named 0 _ _ (mem_of_loaded? (hboot rfl))).2.2 rfl
    · exact h.named l' n' c' hmem
  · exact fun n' c' d hn hc hd => h.alone n' c' d hn (hold hc) (hold hd)
  · have hrest : (m.record l n c).Ordered (m.loaderAt 0).classes := h.ordered.mono fun _ _ _ => rfl
    rw [classes_record]
    split
    · next hl => exact ⟨fun d hd => h.ordered.supertype (mem_of_loaded? (hboot hl.1)) hd, hrest⟩
    · exact hrest
  · exact ⟨isSome_loaded?_mono (hsub 0) ∘ h.strings.1, isSome_loaded?_mono (hsub 0) ∘ h.strings.2⟩

/-- A loader may be told of a class. -/
theorem Grows.record (h : m.Sound) {l : Nat} {n : String} {c : ClassId} (hc : c.index < m.classes.size)
    (hname : (m.classAt c).name = n) (hboot : l = 0 → m.loaded? 0 n = some c) : Grows m (m.record l n c) where
  evolves := {
    toSucceeds := Machine.succeeds_record hboot
    options := rfl
    mirrors := fun l' _ => m.loaderAt_record Loader.mirror (fun _ _ => rfl) l l' n c
    recorded := fun l' => m.suffix_classes_record l l' n c
    charArray := fun _ _ hk => (Machine.loaded?_record hboot _).trans hk
    fresh := .ofSize (Nat.le_refl _)
    strings := ⟨id, id⟩
    sound := h.record hc hname hboot }
  defining := funext fun l' => m.loaderAt_record Loader.defining (fun _ _ => rfl) l l' n c

/-! ## Classes that are admitted -/

/-- A change of the class that was added last. -/
theorem modify_push (classes : Array Class) (k : Class) (f : Class → Class) :
    (classes.push k).modify classes.size f = classes.push (f k) := by
  apply Array.ext_getElem?
  intro i
  simp only [Array.getElem?_modify, Array.getElem?_push]
  grind

/-- Adds a class to the machine and to its own loader. -/
def Machine.admitted (m : Machine) (k : Class) (journal : Journal) : Machine :=
  { m with
    classes := m.classes.push k
    journal
    loaders := m.loaders.modify k.loader fun x => { x with classes := (k.name, ⟨m.classes.size⟩) :: x.classes } }

/-- A class that may be admitted. The bootstrap loader has to know its supertypes and none of its name, but for
another class of char arrays while that is not settled. -/
structure Admissible (g : Guard) (m : Machine) (k : Class) : Prop where
  home : k.loader < m.loaders.size
  laid : m.Laid ⟨m.classes.size⟩ k
  primitive : k.primitive = none
  owns : k.Owns ⟨m.classes.size⟩
  pool : ∀ e ∈ k.pool, e.unresolved = e
  unmarked : k.component = none → k.name ∉ g.marked k.loader
  known : k.loader = 0 → ∀ d ∈ k.supertypes, ∃ n, (n, d) ∈ (m.loaderAt 0).classes
  unknown : k.loader = 0 → k.name ≠ Machine.charArrayName → m.loaded? 0 k.name = none
  unsettled : k.loader = 0 → k.name = Machine.charArrayName → ¬ g.settled

namespace Machine

variable {k : Class} {j : Journal}

theorem classAt_admitted (m : Machine) (k : Class) (j : Journal) (c : ClassId) :
    (m.admitted k j).classAt c = if c.index = m.classes.size then k else m.classAt c := by
  simp only [admitted, classAt, Array.getD_eq_getD_getElem?, Array.getElem?_push]
  split <;> rfl

theorem size_admitted (m : Machine) (k : Class) (j : Journal) : (m.admitted k j).classes.size = m.classes.size + 1 := by
  simp [admitted]

theorem classes_admitted (m : Machine) (k : Class) (j : Journal) (l : Nat) :
    ((m.admitted k j).loaderAt l).classes =
      if k.loader = l ∧ k.loader < m.loaders.size then (k.name, ⟨m.classes.size⟩) :: (m.loaderAt l).classes
      else (m.loaderAt l).classes := m.classes_record k.loader l k.name ⟨m.classes.size⟩

theorem succeeds_admitted (m : Machine) (k : Class) (j : Journal) : Succeeds m (m.admitted k j) where
  size := Nat.le.intro (m.size_admitted k j).symm
  plans c hc := by rw [classAt_admitted, if_neg (Nat.ne_of_lt hc)]
  loaders := by simp [admitted]
  lists l := (m.suffix_classes_record k.loader l k.name ⟨m.classes.size⟩).subset
  newer n c c' hc hc' := by
    rw [loaded?, classes_admitted] at hc'
    split at hc'
    · rw [List.lookup_cons] at hc'
      split at hc'
      · exact .inr (Nat.le_of_eq (congrArg ClassId.index (Option.some.inj hc')))
      · exact .inl (Option.some.inj (hc'.symm.trans hc))
    · exact .inl (Option.some.inj (hc'.symm.trans hc))

/-- An old class or the one that was admitted. -/
theorem lt_or_eq_of_admitted {c : ClassId} (h : c.index < (m.admitted k j).classes.size) :
    c.index < m.classes.size ∨ c = ⟨m.classes.size⟩ := by
  rw [size_admitted] at h
  rcases Nat.lt_or_eq_of_le (Nat.le_of_lt_succ h) with hlt | heq
  · exact .inl hlt
  · exact .inr (congrArg ClassId.mk heq)

/-- A machine stays sound when a class is admitted to it and announced, if it has no constants. -/
theorem Sound.admitted (h : m.Sound) (hk : Admissible g m k) (hevents : m.journal <:+ j)
    (hannounced : k.HasConstants ∨ (m.admitted k j).Announced ⟨m.classes.size⟩) : (m.admitted k j).Sound := by
  have hs := m.succeeds_admitted k j
  have hnew : (m.admitted k j).classAt ⟨m.classes.size⟩ = k := by rw [classAt_admitted, if_pos rfl]
  have hold {c : ClassId} (hc : c.index < m.classes.size) : (m.admitted k j).classAt c = m.classAt c := by
    rw [classAt_admitted, if_neg (Nat.ne_of_lt hc)]
  have hloaders : (m.admitted k j).loaders.size = m.loaders.size := by simp [Machine.admitted]
  have hlist (l : Nat) : ((m.admitted k j).loaderAt l).classes = _ := m.classes_record k.loader l k.name ⟨m.classes.size⟩
  have hmem {l : Nat} {n : String} {c : ClassId} (hc : (n, c) ∈ ((m.admitted k j).loaderAt l).classes) :
      (k.loader = l ∧ n = k.name ∧ c = ⟨m.classes.size⟩) ∨ (n, c) ∈ (m.loaderAt l).classes :=
    mem_classes_record hc
  have hsub (l : Nat) : (m.loaderAt l).classes ⊆ ((m.admitted k j).loaderAt l).classes :=
    (m.suffix_classes_record k.loader l k.name ⟨m.classes.size⟩).subset
  refine ⟨?_, ⟨hloaders ▸ h.boot.1, ?_⟩, ?_, ?_, ?_, ?_, ?_, ?_, ?_, ?_, ?_, ?_⟩
  · have hlater {c : ClassId} (hc : m.classes.size ≤ c.index) :
        c = ⟨m.classes.size⟩ ∨ (m.admitted k j).classAt c = default := by
      rcases Nat.eq_or_lt_of_le hc with heq | hlt
      · exact .inl (congrArg ClassId.mk heq.symm)
      · exact .inr (classAt_of_le (m.size_admitted k j ▸ hlt))
    refine h.fit.later hs (fun _ => .inl) (fun c e he => ?_) (fun c hc => ?_) fun c hc => ?_
    · rw [classAt_admitted] at he
      split at he
      · exact .inr (PoolEntry.fits_of_unresolved (hk.pool e he) _ _)
      · exact .inl he
    · rcases hlater hc with rfl | hnone
      · rw [hnew]
        exact hk.laid.follows
      · rw [hnone]
        exact ⟨nofun, nofun, nofun⟩
    · rcases hlater hc with rfl | hnone
      · rw [hnew]
        exact hk.owns
      · rw [hnone]
        exact ⟨nofun, nofun⟩
  · exact (m.loaderAt_record Loader.mirror (fun _ _ => rfl) ..).trans h.boot.2
  · intro c hc
    rcases lt_or_eq_of_admitted hc with hlt | rfl
    · exact hs.laid hlt (h.laid c hlt)
    · rw [hnew]
      exact hk.laid.mono (Nat.le_refl _) hs
  · intro c hc
    rw [hloaders]
    rcases lt_or_eq_of_admitted hc with hlt | rfl
    · rw [hold hlt]
      exact h.homes c hlt
    · rw [hnew]
      exact ⟨hk.home, fun hprimitive => absurd hk.primitive hprimitive⟩
  · intro c hc
    rcases lt_or_eq_of_admitted hc with hlt | rfl
    · rw [hold hlt]
      exact (h.announced c hlt).imp_right fun hold => hold.mono hevents
    · rwa [hnew]
  · intro c hc hprimitive
    rcases lt_or_eq_of_admitted hc with hlt | rfl
    · rw [hold hlt] at hprimitive ⊢
      exact hsub _ (h.known c hlt hprimitive)
    · rw [hnew, hlist, if_pos ⟨rfl, hk.home⟩]
      exact List.mem_cons_self
  · intro l n c hc
    rcases hmem hc with ⟨rfl, rfl, rfl⟩ | hc
    · rw [hnew, size_admitted]
      exact ⟨Nat.lt_succ_self _, rfl, fun hl => ⟨hl, hk.primitive⟩⟩
    · obtain ⟨hlt, hrest⟩ := h.named l n c hc
      rw [hold hlt, size_admitted]
      exact ⟨Nat.lt_succ_of_lt hlt, hrest⟩
  · -- the bootstrap loader did not know the name, unless it is that of the char arrays
    intro n c d hn hc hd
    have hclash {c : ClassId} (hl : k.loader = 0) (hn : k.name ≠ charArrayName)
        (hc : (k.name, c) ∈ (m.loaderAt 0).classes) : False := by
      have hsome := isSome_loaded?_of_mem hc
      rw [hk.unknown hl hn] at hsome
      cases hsome
    rcases hmem hc with ⟨hl, rfl, rfl⟩ | hc
    · rcases hmem hd with ⟨-, -, rfl⟩ | hd
      · rfl
      · exact (hclash hl hn hd).elim
    · rcases hmem hd with ⟨hl, rfl, rfl⟩ | hd
      · exact (hclash hl hn hc).elim
      · exact h.alone n c d hn hc hd
  · have hrest : (m.admitted k j).Ordered (m.loaderAt 0).classes :=
      h.ordered.mono fun n c hc => by rw [hold (h.named 0 n c hc).1]
    rw [hlist]
    split
    · next hl =>
      refine ⟨fun d hd => ?_, hrest⟩
      rw [hnew] at hd
      exact hk.known hl.1 d hd
    · exact hrest
  · intro n c hc
    obtain ⟨hlt, hrest⟩ := h.primitives n c hc
    rw [hold hlt, size_admitted]
    exact ⟨Nat.lt_succ_of_lt hlt, hrest⟩
  · intro c hc letter hletter
    rcases lt_or_eq_of_admitted hc with hlt | rfl
    · rw [hold hlt] at hletter ⊢
      exact h.letters c hlt letter hletter
    · rw [hnew, hk.primitive] at hletter
      cases hletter
  · exact ⟨isSome_loaded?_mono (hsub 0) ∘ h.strings.1, isSome_loaded?_mono (hsub 0) ∘ h.strings.2⟩

theorem defining_admitted (m : Machine) (k : Class) (j : Journal) : (m.admitted k j).defining = m.defining :=
  funext fun _ => m.loaderAt_record Loader.defining (fun _ _ => rfl) ..

end Machine

/-- What holds of a class that is admitted holds of all that is new. -/
theorem adds_admitted {P : Class → Prop} {k : Class} (h : P k.plan) (j : Journal) : Adds P m (m.admitted k j) := by
  intro c hc hc'
  rcases Machine.lt_or_eq_of_admitted hc' with hlt | rfl
  · exact absurd hc (Nat.not_le.2 hlt)
  · rwa [Machine.classAt_admitted, if_pos rfl]

/-- A machine evolves when a class is admitted to it and announced, if it has no constants. -/
theorem Evolves.admitted {k : Class} {j : Journal} (h : m.Sound) (hk : Admissible g m k) (hevents : m.journal <:+ j)
    (hannounced : k.HasConstants ∨ (m.admitted k j).Announced ⟨m.classes.size⟩) : Evolves g m (m.admitted k j) where
  toSucceeds := m.succeeds_admitted k j
  options := rfl
  mirrors _ _ := m.loaderAt_record Loader.mirror (fun _ _ => rfl) ..
  recorded l := m.suffix_classes_record k.loader l k.name ⟨m.classes.size⟩
  charArray hg c hc := by
    rw [Machine.loaded?, Machine.classes_admitted]
    split
    · next hl =>
      rw [List.lookup_cons]
      split
      · next hn => exact absurd hg (hk.unsettled hl.1 (eq_of_beq hn).symm)
      · exact hc
    · exact hc
  fresh := adds_admitted hk.unmarked j
  strings := ⟨id, id⟩
  sound := h.admitted hk hevents hannounced

end JavaMachine
