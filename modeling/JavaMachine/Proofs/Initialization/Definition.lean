import JavaMachine.Proofs.Initialization.Calls

/-!
Definition of classes. A class enters the journal when it is added to the machine, and it becomes linked
after its constants are set; nothing that happens in between touches its state. Main result: `served_publish`,
that adding a class keeps the chronicle and the frames, so that loading it does.
-/

namespace JavaMachine

open M

/-! ## New classes -/

theorem Machine.classAt_addClass (m : Machine) (k : Class) (c : ClassId) :
    (m.addClass k).1.classAt c =
      if c.index = m.classes.size then
        k.placed ⟨m.classes.size⟩ ((k.super.map fun s => (m.classAt s).instanceSlots).getD 0)
      else m.classAt c := by
  simp only [Machine.addClass, Machine.classAt, Array.getD_eq_getD_getElem?, Array.getElem?_push]
  split <;> rfl

theorem Class.state_placed (k : Class) (id : ClassId) (inherited : Nat) :
    (k.placed id inherited).state = k.state := rfl

theorem Class.owner_placed {k : Class} {id : ClassId} {inherited : Nat} {method : Method}
    (h : method ∈ (k.placed id inherited).methods) : method.owner = id := by
  obtain ⟨_, _, rfl⟩ := List.mem_map.1 h
  rfl

theorem Extends.addClass (m : Machine) (k : Class) : Extends m (m.addClass k).1 where
  journal := List.suffix_cons ..
  size := by simp [Machine.addClass]
  descent c hc := by rw [Machine.classAt_addClass, if_neg (Nat.ne_of_lt hc)]
  unlinked c hc hu := by rwa [Machine.classAt_addClass, if_neg (Nat.ne_of_lt hc)]

/-- A class is added that is not linked, or that needs no initialization. -/
theorem Chronicle.addClass {m : Machine} (h : Chronicle m) {k : Class}
    (hk : k.state = .unlinked ∨ k.state = .initialized) : Chronicle (m.addClass k).1 where
  states c := by
    rw [Machine.classAt_addClass]
    change (if (⟨m.classes.size⟩ : ClassId) = c then k.state else m.journal.stateOf c) = _
    split
    · next hc =>
      subst hc
      rw [if_pos rfl, Class.state_placed]
    · next hc =>
      rw [if_neg, h.states]
      intro hi
      exact hc (congrArg ClassId.mk hi.symm)
  known c hc := by
    have hpushed : .pushed c ∈ m.journal := by simpa [Machine.addClass] using hc
    exact Nat.lt_of_lt_of_le (h.known c hpushed) (Extends.addClass m k).size
  owners c method hmethod := by
    rw [Machine.classAt_addClass] at hmethod
    split at hmethod
    · next hc => exact (Class.owner_placed hmethod).trans (congrArg ClassId.mk hc.symm)
    · exact h.owners c method hmethod
  legal := by
    have hfresh : m.journal.stateOf ⟨m.classes.size⟩ = .unlinked :=
      (h.states _).trans (congrArg Class.state (Machine.classAt_of_le (Nat.le_refl _)))
    refine ⟨?_, h.legal⟩
    rcases hk with hk | hk
    · rw [hk]
      exact hfresh
    · rw [hk]
      exact .inl hfresh
  ordered := by
    have hord := h.ordered.congr h.legal fun c hc => (Extends.addClass m k).superOf h hc
    exact hord

theorem Continued.addClass {m : Machine} (h : Chronicle m) {k : Class}
    (hk : k.state = .unlinked ∨ k.state = .initialized) : Continued m (m.addClass k).1 := by
  refine .of_count (h.addClass hk) (.addClass m k) rfl rfl (fun _ => Nat.le_refl _) fun c hc => if_neg ?_
  rintro rfl
  exact absurd (h.known _ hc) (Nat.lt_irrefl _)

/-! ## Arrays -/

theorem Quiet.record (m : Machine) (l : Nat) (name : String) (c : ClassId) : Quiet m (m.record l name c) :=
  .ofSame rfl rfl rfl rfl

theorem quiet_instanceSlots (m : Machine) (c : ClassId) (n : Nat) :
    Quiet m { m with classes := m.classes.modify c.index fun k => { k with instanceSlots := n } } :=
  ⟨rfl, rfl, rfl, outline_modify (f := fun k => { k with instanceSlots := n }) fun _ => rfl⟩

theorem continued_addArrayClass {m : Machine} (hm : Chronicle m) {k : Class} (hk : k.state = .initialized)
    (asked : Nat) : Continued m (m.addArrayClass k asked).2 := by
  have hadd := Continued.addClass hm (.inr hk)
  have hslots := hadd.trans (.of_quiet (quiet_instanceSlots _ ⟨m.classes.size⟩ 0) rfl hadd.chronicle)
  have hown := hslots.trans (.of_quiet (.record _ k.loader k.name ⟨m.classes.size⟩) rfl hslots.chronicle)
  simp only [Machine.addArrayClass]
  split
  · exact hown
  · exact hown.trans (.of_quiet (.record ..) rfl hown.chronicle)

theorem marks_addArrayClass (m : Machine) (k : Class) (asked : Nat) :
    (m.addArrayClass k asked).2.marks = m.marks := by
  simp only [Machine.addArrayClass]
  split <;> rfl

instance : Defining Served where
  loaders _ := .of_quiet (.ofSame rfl rfl rfl rfl) rfl
  afterLoaders _ h := h.calm (.ofSame rfl rfl rfl rfl) rfl
  strings _ _ := .of_quiet (.ofSame rfl rfl rfl rfl) rfl
  arrays k asked hk hm := ⟨continued_addArrayClass hm hk asked, marks_addArrayClass _ k asked⟩

/-! ## Publication -/

variable {s : Services}

namespace Linking

/-- A new class becomes linked. -/
theorem continued_link {m m' : Machine} (h : Continued m m') {c : ClassId} (hnew : m.classes.size ≤ c.index)
    (hlt : c.index < m'.classes.size) (hc : (m'.classAt c).state = .unlinked) :
    Continued m (m'.enter c .linked (.state c .linked)) := by
  have hstate : m'.journal.stateOf c = .unlinked := (h.chronicle.states c).trans hc
  have hpushed : .pushed c ∉ m'.journal := by
    intro hp
    have := h.chronicle.legal.begun_of_pushed hp
    grind
  refine ⟨h.chronicle.enter hlt ⟨hpushed, by grind⟩ (.inl rfl), ?_, h.current, fun away ht => ?_⟩
  · refine ⟨h.extend.journal.trans (List.suffix_cons ..), ?_, ?_, ?_⟩
    · simpa [Machine.enter] using h.extend.size
    · exact fun k hk => (m'.descent_enter c k _ _).trans (h.extend.descent k hk)
    · intro k hk hu
      rw [Machine.state_enter hlt, if_neg]
      · exact h.extend.unlinked k hk hu
      · rintro rfl
        exact absurd hk (Nat.not_lt.2 hnew)
  · obtain ⟨htended, hoptions⟩ := h.tended away ht
    refine ⟨htended.mono rfl (List.suffix_cons ..) (fun _ => Nat.le_refl _) fun k hk => .inl (if_neg ?_), hoptions⟩
    rintro rfl
    exact hpushed hk

/-- Adding a class to the machine keeps the chronicle and the frames. -/
theorem served_publish (h : Hosted Served s) (l : Nat) (k : Class) (hk : k.state = .unlinked)
    (_ : k.mirror = none) :
    Attempt.Keeps Served (publish s l k) := by
  refine keeps_served fun m hm => ?_
  let c : ClassId := ⟨m.classes.size⟩
  let added : Machine := (m.addClass k).1.record l k.name c
  have hadd : Continued m added :=
    (Continued.addClass hm (.inl hk)).trans
      (.of_quiet (.record ..) rfl (hm.addClass (.inl hk)))
  have hlt : c.index < added.classes.size := by
    change m.classes.size < (m.classes.push _).size
    simp
  have hc : (added.classAt c).state = .unlinked := by
    change ((m.addClass k).1.classAt c).state = _
    rw [Machine.classAt_addClass, if_pos rfl, Class.state_placed, hk]
  rw [publish, Attempt.after_bind_iff, Attempt.after_modifyGet_iff]
  change After (ExceptT.run (do
    seed s c (← classAt c).fields
    setState c .linked
    return c)) added _ _
  rw [Attempt.after_bind_iff, Attempt.after_lift_iff, after_classAt]
  dsimp only
  rw [Attempt.after_bind_iff]
  -- constants may load classes before the new one is linked, and it is still unlinked after that
  refine (keeps_seed (fun _ _ => Resolution.keeps_remember) (keeps_ensureStringClasses h) added).mono ?_ ?_
  · intro r seeded hserved
    obtain ⟨hcont, hsame⟩ := hserved hadd.chronicle
    cases r with
    | error f => exact ⟨hadd.trans hcont, hsame⟩
    | ok _ =>
      rw [Attempt.after_bind_iff, Attempt.after_lift_iff]
      refine ⟨continued_link (hadd.trans hcont) (Nat.le_refl _) ?_ (hcont.extend.unlinked c hlt hc), hsame⟩
      exact Nat.lt_of_lt_of_le hlt hcont.extend.size
  · intro seeded hserved
    obtain ⟨hcont, hsame⟩ := hserved hadd.chronicle
    exact ⟨hadd.trans hcont, hsame⟩

end Linking

end JavaMachine
