import JavaMachine.Proofs.Loading.Definition

/-!
Resolution in a machine that grows. What a reference is resolved to is what it means to the class that has it, so it
may be remembered in the pool of that class, whose entries then fit. Main results: `ends_classEntry`, `ends_fieldEntry`
and `ends_methodEntry`, what references are resolved to; and `growing_resolution`, that the machine grows meanwhile.
-/

namespace JavaMachine

open M Attempt

variable {m : Machine} {s : Services} {holder : ClassId} {index : Nat} {name desc : String}

/-- The reference at an index of the pool of a class, before it was resolved to anything. -/
def Machine.reference (m : Machine) (holder : ClassId) (index : Nat) : PoolEntry :=
  ((m.classAt holder).pool.getD index .empty).unresolved

/-- A class whose pool has a reference is there. -/
theorem Machine.lt_of_reference (h : m.reference holder index ≠ .empty) : holder.index < m.classes.size :=
  m.lt_of_classAt (P := fun k => (k.pool.getD index .empty).unresolved ≠ .empty) h fun hne => hne rfl

theorem Succeeds.reference {m' : Machine} (h : Succeeds m m') (hholder : holder.index < m.classes.size) :
    m'.reference holder index = m.reference holder index := h.entry hholder index

/-- A reference in the pool of a class is to another class. -/
def Machine.RefersToClass (m : Machine) (holder : ClassId) (index : Nat) (c : ClassId) : Prop :=
  ∃ name, m.reference holder index = .class name none ∧ m.Stands holder name c

/-- A reference in the pool of a class is to a field. -/
def Machine.RefersToField (m : Machine) (holder : ClassId) (index : Nat) (f : Field) : Prop :=
  ∃ owner name desc c, m.reference holder index = .field owner name desc none none ∧ m.Stands holder owner c ∧
    m.MeansField holder c name desc f

/-- A reference in the pool of a class is to a method, which is looked for in a class. -/
def Machine.RefersToMethod (m : Machine) (holder : ClassId) (index : Nat) (c : ClassId) (method : Method) : Prop :=
  ∃ owner name desc onInterface, m.reference holder index = .method owner name desc onInterface none none ∧
    m.Stands holder owner c ∧ m.MeansMethod holder c name desc onInterface method

section refers

variable {m' : Machine} (hr : m.Rooted) (hs : Succeeds m m')
include hr hs

theorem Machine.RefersToClass.mono {c : ClassId} (h : m.RefersToClass holder index c) :
    m'.RefersToClass holder index c := by
  obtain ⟨name, href, hstands⟩ := h
  have hholder : holder.index < m.classes.size := m.lt_of_reference (by rw [href]; nofun)
  exact ⟨name, (hs.reference hholder).trans href, hstands.mono hr hs hholder⟩

theorem Machine.RefersToField.mono {f : Field} (h : m.RefersToField holder index f) :
    m'.RefersToField holder index f := by
  obtain ⟨owner, name, desc, c, href, hstands, hmeans⟩ := h
  have hholder : holder.index < m.classes.size := m.lt_of_reference (by rw [href]; nofun)
  exact ⟨owner, name, desc, c, (hs.reference hholder).trans href, hstands.mono hr hs hholder,
    hmeans.mono hr hs hholder hstands.valid⟩

theorem Machine.RefersToMethod.mono {c : ClassId} {method : Method} (h : m.RefersToMethod holder index c method) :
    m'.RefersToMethod holder index c method := by
  obtain ⟨owner, name, desc, onInterface, href, hstands, hmeans⟩ := h
  have hholder : holder.index < m.classes.size := m.lt_of_reference (by rw [href]; nofun)
  exact ⟨owner, name, desc, onInterface, (hs.reference hholder).trans href, hstands.mono hr hs hholder,
    hmeans.mono hr hs hholder hstands.valid⟩

end refers

/-- The machine grows after it has grown by a steady change. -/
theorem Grows.steadied {m' m'' : Machine} (h : Grows m m') (hsteady : Steady m' m'') : Grows m m'' :=
  h.trans (.steady h.sound hsteady)

namespace Resolution

/-! ## Steps -/

theorem ends_entry_bind {α : Type} {f : PoolEntry → Attempt α} {P : α → Machine → Prop} {E : Machine → Prop} (hE : E m)
    (hf : ∀ e, (m.classAt holder).pool.getD index .empty = e → e ≠ .empty → Ends (f e) m P E) :
    Ends (liftM (entry holder index) >>= f) m P E := by
  refine (ends_lift ((after_entry (m := m) holder index).mono (fun _ _ => id) ?_)).bind ?_
  · rintro _ rfl
    exact hE
  · rintro e _ ⟨rfl, he, hne⟩
    exact hf e he hne

/-- An entry remembers what the reference means. -/
theorem ends_remember_bind {α : Type} {e : PoolEntry} {f : Unit → Attempt α} {P : α → Machine → Prop}
    {E : Machine → Prop} (href : e.unresolved = m.reference holder index) (hfits : e.Fits m holder)
    (hf : ∀ m', Steady m m' → Ends (f ()) m' P E) : Ends (liftM (remember holder index e) >>= f) m P E := by
  have hremember : After (remember holder index e) m (fun _ => Steady m) E :=
    (still_setEntry href fun _ _ => hfits).toSteady
  exact (ends_lift hremember).bind fun _ m' hsteady => hf m' hsteady

theorem ends_wrongKind {α : Type} {e : PoolEntry} {wanted : String} {P : α → Machine → Prop} {E : Machine → Prop}
    (hE : E m) : Ends (Attempt.lift (wrongKind holder index e wanted)) m P E := ends_lift hE

/-! ## Classes -/

/-- A class that is loaded for code stands for its name there. -/
theorem ends_loadFor (h : Loads s) (hm : m.Sound) (hholder : holder.index < m.classes.size) :
    Ends (loadFor s holder name) m (fun c m' => Grows m m' ∧ m'.Stands holder name c) (Grows m) := by
  have hload := (h.load m.guard (m.classAt holder).loader name m).ends ⟨hm, .refl _⟩
  unfold loadFor
  rw [ends_classAt_bind]
  refine (hload.mono (fun _ _ => id) fun m' ⟨_, hstep⟩ => ⟨hstep.evolves, hstep.defining⟩).bind ?_
  intro c m' ⟨_, hstep, hloaded⟩
  have hgrows : Grows m m' := ⟨hstep.evolves, hstep.defining⟩
  have hloader : (m'.classAt holder).loader = (m.classAt holder).loader := hgrows.succeeds.loader hholder
  rw [ends_get_bind]
  refine ends_haltFor_bind (fun _ => hgrows) fun helement => ?_
  split
  · next haccessible =>
    refine ends_pure ⟨hgrows, hloaded.answers.valid, fun hl => ?_, helement, haccessible, fun hl d hd => .inl ?_⟩
    · exact hloaded.answers.known (hloader ▸ hl)
    · exact Option.some.inj (hd.symm.trans (hloaded.latest (hloader ▸ hl)))
  · exact ends_fail hgrows

/-- What a reference to a class is resolved to. -/
theorem ends_classEntry (h : Loads s) (hm : m.Sound) :
    Ends (classEntry s holder index) m (fun c m' => Grows m m' ∧ m'.RefersToClass holder index c) (Grows m) := by
  have hstays : Grows m m := .steady hm (.refl m)
  unfold classEntry
  refine ends_entry_bind hstays fun e he hne => ?_
  have href : m.reference holder index = e.unresolved := congrArg PoolEntry.unresolved he
  have hfits : e.Fits m holder := he ▸ hm.fit.entry holder index
  split
  · next name c => exact ends_pure ⟨hstays, name, href, hfits c rfl⟩
  · next name =>
    have hholder : holder.index < m.classes.size := m.lt_of_reference (by rw [href]; nofun)
    refine (ends_loadFor h hm hholder).bind fun c m₁ ⟨hgrows, hstands⟩ => ?_
    have href : m₁.reference holder index = .class name none := (hgrows.succeeds.reference hholder).trans href
    refine ends_remember_bind href.symm (fun _ hc => ?_) fun m₂ hsteady => ends_pure ⟨hgrows.steadied hsteady, ?_⟩
    · cases hc
      exact hstands
    · exact Machine.RefersToClass.mono hgrows.sound.fit.rooted hsteady.succeeds ⟨name, href, hstands⟩
  · exact ends_wrongKind hstays

theorem ends_ownerOf (h : Loads s) (hm : m.Sound) (hholder : holder.index < m.classes.size) {known : Option ClassId}
    (hknown : ∀ c, known = some c → m.Stands holder name c) :
    Ends (ownerOf s holder name known) m (fun c m' => Grows m m' ∧ m'.Stands holder name c) (Grows m) := by
  cases known with
  | some c => exact ends_pure ⟨.steady hm (.refl m), hknown c rfl⟩
  | none => exact ends_loadFor h hm hholder

/-- An entry remembers the class in which the member of its reference is looked for. -/
theorem ends_remembered_bind {α : Type} {m₁ : Machine} {owner : String} {c : ClassId} {e e' : PoolEntry}
    {f : Unit → Attempt α} {P : α → Machine → Prop} (hgrows : Grows m m₁) (hholder : holder.index < m.classes.size)
    (href : m.reference holder index = e) (he : e'.unresolved = e) (hstands : m₁.Stands holder owner c)
    (hfits : e'.Fits m₁ holder)
    (hf : ∀ m₂, Grows m m₂ → m₂.reference holder index = e → m₂.Stands holder owner c →
      Ends (f ()) m₂ P (Grows m)) : Ends (liftM (remember holder index e') >>= f) m₁ P (Grows m) := by
  have href₁ : m₁.reference holder index = e := (hgrows.succeeds.reference hholder).trans href
  refine ends_remember_bind (he.trans href₁.symm) hfits fun m₂ hsteady => ?_
  have hgrows₂ := hgrows.steadied hsteady
  refine hf m₂ hgrows₂ ((hgrows₂.succeeds.reference hholder).trans href) ?_
  exact hstands.mono hgrows.sound.fit.rooted hsteady.succeeds
    (Nat.lt_of_lt_of_le hholder hgrows.succeeds.size)

/-! ## Members -/

/-- An entry remembers the field that its reference means. -/
theorem ends_rememberField {m₂ : Machine} {owner : String} {c : ClassId} {f : Field} (hgrows : Grows m m₂)
    (href : m₂.reference holder index = .field owner name desc none none)
    (hstands : m₂.Stands holder owner c) (hmeans : m₂.MeansField holder c name desc f) :
    Ends (do
      remember holder index (.field owner name desc (some c) (some f))
      return f : Attempt Field) m₂ (fun f m' => Grows m m' ∧ m'.RefersToField holder index f) (Grows m) := by
  refine ends_remember_bind href.symm ⟨fun _ hc => ?_, fun _ hf => ?_⟩ fun m₃ hsteady => ends_pure ?_
  · cases hc
    exact hstands
  · cases hf
    exact ⟨c, rfl, hmeans⟩
  · exact ⟨hgrows.steadied hsteady, .mono hgrows.sound.fit.rooted hsteady.succeeds
      ⟨owner, name, desc, c, href, hstands, hmeans⟩⟩

/-- What a reference to a field is resolved to. -/
theorem ends_fieldEntry (h : Loads s) (hm : m.Sound) :
    Ends (fieldEntry s holder index) m (fun f m' => Grows m m' ∧ m'.RefersToField holder index f) (Grows m) := by
  have hstays : Grows m m := .steady hm (.refl m)
  unfold fieldEntry
  refine ends_entry_bind hstays fun e he hne => ?_
  have href : m.reference holder index = e.unresolved := congrArg PoolEntry.unresolved he
  have hfits : e.Fits m holder := he ▸ hm.fit.entry holder index
  split
  · next owner name desc known f =>
    obtain ⟨c, hc, hmeans⟩ := hfits.2 f rfl
    exact ends_pure ⟨hstays, owner, name, desc, c, href, hfits.1 c hc, hmeans⟩
  · next owner name desc known =>
    have hholder : holder.index < m.classes.size := m.lt_of_reference (by rw [href]; nofun)
    refine (ends_ownerOf h hm hholder hfits.1).bind fun c m₁ ⟨hgrows₁, hstands₁⟩ => ?_
    refine ends_remembered_bind hgrows₁ hholder href rfl hstands₁ ⟨fun _ hc => ?_, nofun⟩ ?_
    · cases hc
      exact hstands₁
    intro m₂ hgrows₂ href₂ hstands₂
    rw [ends_get_bind]
    split
    · exact ends_fail hgrows₂
    · next f hf =>
      refine ends_failIf_bind (fun _ => hgrows₂) fun hallowed => ?_
      exact ends_rememberField hgrows₂ href₂ hstands₂
        ⟨hf, hgrows₂.sound.fit.lookupField hf, by simpa using hallowed⟩
  · exact ends_wrongKind hstays

/-- An entry remembers the method that its reference means. -/
theorem ends_rememberMethod {m₂ : Machine} {owner : String} {onInterface : Bool} {c : ClassId} {method : Method}
    (hgrows : Grows m m₂) (href : m₂.reference holder index = .method owner name desc onInterface none none)
    (hstands : m₂.Stands holder owner c) (hmeans : m₂.MeansMethod holder c name desc onInterface method) :
    Ends (do
      remember holder index (.method owner name desc onInterface (some c) (some method))
      return (c, method) : Attempt (ClassId × Method)) m₂
      (fun r m' => Grows m m' ∧ m'.RefersToMethod holder index r.1 r.2) (Grows m) := by
  refine ends_remember_bind href.symm ⟨fun _ hc => ?_, fun _ hmethod => ?_⟩ fun m₃ hsteady => ends_pure ?_
  · cases hc
    exact hstands
  · cases hmethod
    exact ⟨c, rfl, hmeans⟩
  · exact ⟨hgrows.steadied hsteady, .mono hgrows.sound.fit.rooted hsteady.succeeds
      ⟨owner, name, desc, onInterface, href, hstands, hmeans⟩⟩

/-- What a reference to a method is resolved to: the class that it is looked for in, and the method. -/
theorem ends_methodEntry (h : Loads s) (hm : m.Sound) :
    Ends (methodEntry s holder index) m (fun r m' => Grows m m' ∧ m'.RefersToMethod holder index r.1 r.2)
      (Grows m) := by
  have hstays : Grows m m := .steady hm (.refl m)
  unfold methodEntry
  refine ends_entry_bind hstays fun e he hne => ?_
  have href : m.reference holder index = e.unresolved := congrArg PoolEntry.unresolved he
  have hfits : e.Fits m holder := he ▸ hm.fit.entry holder index
  split
  · next owner name desc onInterface c method =>
    obtain ⟨_, ⟨⟩, hmeans⟩ := hfits.2 method rfl
    exact ends_pure ⟨hstays, owner, name, desc, onInterface, href, hfits.1 c rfl, hmeans⟩
  · next owner name desc onInterface known resolved _ =>
    have hholder : holder.index < m.classes.size := m.lt_of_reference (by rw [href]; nofun)
    refine (ends_ownerOf h hm hholder hfits.1).bind fun c m₁ ⟨hgrows₁, hstands₁⟩ => ?_
    refine ends_remembered_bind hgrows₁ hholder href rfl hstands₁ ⟨fun _ hc => ?_, nofun⟩ ?_
    · cases hc
      exact hstands₁
    intro m₂ hgrows₂ href₂ hstands₂
    rw [ends_get_bind]
    split
    · exact ends_throw hgrows₂
    · next method hfound =>
      dsimp only
      split
      · have htext : After (methodText method) m₂ (fun _ => Minor m₂) (Grows m) :=
          (keeps_methodText (R := fun _ => Minor) m₂).mono (fun _ _ => id) fun _ hminor => hgrows₂.steadied hminor.toSteady
        refine (ends_lift htext).bind fun text m₃ hminor => ?_
        exact (ends_fail (P := fun _ _ => False) (hgrows₂.steadied hminor.toSteady)).bind fun _ _ h => h.elim
      · next hallowed =>
        refine ends_rememberMethod hgrows₂ href₂ hstands₂ ⟨hfound, ?_, by simpa using hallowed⟩
        exact (hgrows₂.sound.fit.declared (Machine.declared_of_selectMethod hfound)).1
  · exact ends_wrongKind hstays

end Resolution

/-! ## Growth -/

/-- An attempt that ends in a machine that has grown keeps growth. -/
theorem Attempt.keeps_of_ends {α : Type} {act : Attempt α} {P : Machine → α → Machine → Prop}
    (h : ∀ m, m.Sound → Ends act m (fun a m' => Grows m m' ∧ P m a m') (Grows m)) : Attempt.Keeps Growing act := by
  intro m
  unfold After
  have h (hm : m.Sound) := (h m hm).outcome
  generalize act.run m = r at *
  rcases r with ⟨_ | a, m'⟩ | ⟨e, m'⟩
  · exact h
  · exact fun hm => (h hm).1
  · exact h

/-- The machine grows with resolution, if loads lead to classes. -/
theorem growing_resolution (h : Loads s) : Resolving Growing s where
  classEntry _ _ := Attempt.keeps_of_ends fun _ hm => Resolution.ends_classEntry h hm
  fieldEntry _ _ := Attempt.keeps_of_ends fun _ hm => Resolution.ends_fieldEntry h hm
  methodEntry _ _ := Attempt.keeps_of_ends fun _ hm => Resolution.ends_methodEntry h hm

end JavaMachine
