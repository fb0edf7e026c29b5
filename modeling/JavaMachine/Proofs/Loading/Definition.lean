import JavaMachine.Proofs.Initialization.Definition
import JavaMachine.Proofs.Loading.Layout
import JavaMachine.Proofs.Loading.Steps

/-!
Definitions in a machine that grows. While a class is defined its name is marked, so no class comes under it from
the loads that the definition makes; the class is admitted after them, and the loads for its constants come last.
Main result: `leads_defineClass`, that a definition leads to a class that its loader knows if loads do (`Loads`).
-/

namespace JavaMachine

open M Attempt

/-! ## What loading does -/

/-- A class of the bootstrap loader. It is not named like an array class unless it is one. -/
structure Class.Booted (k : Class) : Prop where
  loader : k.loader = 0
  named : k.component = none → k.name.startsWith "[" = false

/-- A class is no array class but that of the char arrays. -/
def Class.Plain (k : Class) : Prop := k.component ≠ none → k.name = Machine.charArrayName

/-- The machine evolves and is defining the same names. Where it is asked for, new classes are the bootstrap loader's. -/
structure Expands (g : Guard) (asked : Prop) (a b : Machine) : Prop where
  evolves : Evolves g a b
  defining : b.defining = a.defining
  booted : asked → Adds Class.Booted a b

/-- What a load may do. That new classes are the bootstrap loader's is asked of that loader. -/
def expanding (g : Guard) (asked : Prop) : Contract where
  holds m := m.Sound ∧ g.Within m.guard
  step := Expands g asked
  fails _ := True
  halts _ := True

namespace Expands

variable {g : Guard} {asked : Prop} {a b c : Machine}

theorem trans (h : Expands g asked a b) (h' : Expands g asked b c) : Expands g asked a c where
  evolves := h.evolves.trans h'.evolves
  defining := h'.defining.trans h.defining
  booted hasked := (h.booted hasked).trans (h'.booted hasked) h'.evolves.toSucceeds

/-- What has to be respected stays so. -/
theorem guard (h : Expands g asked a b) : a.guard.Within b.guard where
  marked l := by
    change a.defining l ⊆ b.defining l
    rw [h.defining]
    exact List.Subset.refl _
  settled := h.evolves.isSome_loaded?

theorem holds (h : Expands g asked a b) (hg : g.Within a.guard) : (expanding g asked).holds b :=
  ⟨h.evolves.sound, hg.trans h.guard⟩

/-- A change without new classes. -/
theorem alike (h : a.Sound) (hs : Alike a b) (hdefining : b.defining = a.defining) : Expands g asked a b :=
  ⟨.alike h hs, hdefining, fun _ => .ofSize (Nat.le_of_eq hs.sameSize)⟩

theorem steady (h : (expanding g asked).holds a) (hs : Steady a b) :
    (expanding g asked).holds b ∧ Expands g asked a b := by
  have hstep : Expands g asked a b := .alike h.1 hs.alike (funext hs.defining)
  exact ⟨hstep.holds h.2, hstep⟩

end Expands

variable {g : Guard} {asked : Prop} {m : Machine} {s : Services}

instance : (expanding g asked).Fair where
  slight hm hslight := Expands.steady hm hslight.toSteady
  succeeds h := h.evolves.toSucceeds
  trans := Expands.trans
  fails _ _ _ _ := trivial
  halts _ _ := trivial

/-- What an attempt leads to when less is to be respected or asked. -/
theorem Attempt.Leads.expanding {α : Type} {g' : Guard} {asked' : Prop} {act : Attempt α} {Q : α → Machine → Prop}
    (h : Leads (expanding g asked) act m Q) (hg : g.Within m.guard) (hg' : g'.Within g) (hasked : asked' → asked) :
    Leads (JavaMachine.expanding g' asked') act m Q := by
  refine h.under (fun hm => ⟨hm.1, hg⟩) (fun m' hm hm' hs => ?_) (fun _ => id) fun _ => id
  have hstep : Expands g' asked' m m' := ⟨hs.evolves.weaken hg', hs.defining, hs.booted ∘ hasked⟩
  exact ⟨hstep.holds hm.2, hstep⟩

/-- What holds of new classes adds up. -/
theorem gain_adds (P : Class → Prop) : (expanding g asked).Gain (Adds P) where
  steady h := .ofSize (Nat.le_of_eq h.size)
  trans hs h h' := h.trans h' hs.evolves.toSucceeds

/-- A class is the answer to the request for a name. -/
structure Machine.Answers (m : Machine) (l : Nat) (name : String) (c : ClassId) : Prop where
  valid : c.index < m.classes.size
  named : (m.classAt c).name = name
  known : l = 0 → (name, c) ∈ (m.loaderAt 0).classes

theorem Machine.Answers.mono {g : Guard} {a b : Machine} {l : Nat} {name : String} {c : ClassId}
    (h : a.Answers l name c) (hs : Evolves g a b) : b.Answers l name c where
  valid := Nat.lt_of_lt_of_le h.valid hs.size
  named := (hs.name h.valid).trans h.named
  known hl := hs.lists 0 (h.known hl)

/-- The supertypes of a class are what its loader answers for the names that it declares. -/
structure Machine.Backs (m : Machine) (k : Class) : Prop where
  super : ∀ c, k.super = some c → m.Answers k.loader k.superName c ∧ (m.classAt c).component = none
  root : k.super = none → k.superName = ""
  interfaces : ∀ i ∈ k.interfaces, m.Answers k.loader (m.classAt i).name i
  interfaceNames : k.interfaces.map (fun i => (m.classAt i).name) = k.interfaceNames
  kinds : m.Kinds k

/-- The bootstrap loader takes a name for what it answers, but that of the char arrays, for which it may know two
classes. -/
theorem Machine.Answers.latest {name : String} {c : ClassId} (h : m.Answers 0 name c) (hm : m.Sound)
    (hname : name ≠ Machine.charArrayName) : m.loaded? 0 name = some c := by
  obtain ⟨d, hd⟩ := Option.isSome_iff_exists.1 (Machine.isSome_loaded?_of_mem (h.known rfl))
  rw [hd, hm.alone name d c hname (Machine.mem_of_loaded? hd) (h.known rfl)]

/-- A class is the answer, which the bootstrap loader takes the name for then, and that loader has added no array
classes for it but that of the char arrays, unless an array class was asked for. -/
structure Loaded (l : Nat) (name : String) (m : Machine) (c : ClassId) (m' : Machine) : Prop where
  answers : m'.Answers l name c
  latest : l = 0 → m'.loaded? 0 name = some c
  plain : l = 0 → (m'.classAt c).component = none ∨ name = Machine.charArrayName → Adds Class.Plain m m'

/-- Loads lead to answers. -/
structure Loads (s : Services) : Prop where
  load : ∀ g l name m, Leads (expanding g (l = 0)) (s.load l name) m (Loaded l name m)

theorem Loads.loadBoot (h : Loads s) (name : String) :
    Leads (expanding g asked) (s.loadBoot name) m fun c m' =>
      m'.Answers 0 name c ∧
        ((m'.classAt c).component = none ∨ name = Machine.charArrayName → Adds Class.Plain m m') :=
  .intro fun hm => ((h.load g 0 name m).expanding hm.2 (.refl g) fun _ => rfl).mono
    fun _ _ _ _ hc => ⟨hc.answers, hc.plain rfl⟩

/-- An answer that is no array class, by the rules for array classes. -/
theorem Machine.Answers.component {l : Nat} {name : String} {c : ClassId} (h : m.Answers l name c) (hm : m.Sound)
    (hplain : ¬ (m.classAt c).OfArrays) : (m.classAt c).component = none := by
  rw [← Option.not_isSome_iff_eq_none, Option.isSome_iff_ne_none]
  exact fun harray => hplain ((hm.laid c h.valid).array harray)

namespace Linking

/-! ## Strings -/

/-- The machine is told of a class that strings need, which the bootstrap loader knows. -/
theorem alike_strings {charArrayClass stringClass : Option ClassId}
    (hcharArray : charArrayClass = m.charArrayClass ∨
      charArrayClass.isSome ∧ (m.loaded? 0 Machine.charArrayName).isSome)
    (hstring : stringClass = m.stringClass ∨ stringClass.isSome ∧ (m.loaded? 0 "java/lang/String").isSome) :
    Alike m { m with charArrayClass, stringClass } where
  toSucceeds := .of_same rfl rfl
  events := List.suffix_refl _
  sameSize := rfl
  options := rfl
  primitives := rfl
  known _ := rfl
  mirrors _ _ := rfl
  fit hfit := hfit.congr rfl rfl rfl
  charArray := hcharArray
  string := hstring

theorem leads_ensureCharArrayClass (h : Loads s) :
    Leads (expanding g asked) (ensureCharArrayClass s) m fun _ m' =>
      Adds Class.Plain m m' ∧ m'.charArrayClass.isSome := by
  unfold ensureCharArrayClass
  rw [leads_get_bind]
  split
  · refine (h.loadBoot Machine.charArrayName).bind fun c m' _ hc => leads_modify fun hm => ?_
    have hknown := Machine.isSome_loaded?_of_mem (hc.1.known rfl)
    have hstep : Expands g asked m' { m' with charArrayClass := some c } :=
      .alike hm.1 (alike_strings (.inr ⟨rfl, hknown⟩) (.inl rfl)) rfl
    exact ⟨hstep.holds hm.2, hstep, hc.2 (.inr rfl), rfl⟩
  · next hsome =>
    rw [Option.isNone_iff_eq_none, ← ne_eq, ← Option.isSome_iff_ne_none] at hsome
    exact leads_pure fun _ => ⟨.ofSize (Nat.le_refl _), hsome⟩

theorem leads_ensureStringClasses (h : Loads s) :
    Leads (expanding g asked) (ensureStringClasses s) m fun _ m' =>
      Adds Class.Plain m m' ∧ m'.charArrayClass.isSome ∧ m'.stringClass.isSome := by
  unfold ensureStringClasses
  refine (leads_ensureCharArrayClass h).bind fun _ m₁ _ ⟨hplain, hsome⟩ => ?_
  rw [leads_get_bind]
  split
  · refine (h.loadBoot "java/lang/String").bind fun c m₂ hstep₂ hc => leads_modify fun hm => ?_
    have hknown := Machine.isSome_loaded?_of_mem (hc.1.known rfl)
    have hstep : Expands g asked m₂ { m₂ with stringClass := some c } :=
      .alike hm.1 (alike_strings (.inl rfl) (.inr ⟨rfl, hknown⟩)) rfl
    refine ⟨hstep.holds hm.2, hstep, ?_, hstep₂.evolves.strings.1 hsome, rfl⟩
    have hcomponent : (m₂.classAt c).component = none :=
      hc.1.component hm.1 fun harray => absurd (hc.1.named ▸ harray.name) (by simp)
    have hadds := hplain.trans (hc.2 (.inl hcomponent)) hstep₂.evolves.toSucceeds
    exact hadds
  · next hstring =>
    rw [Option.isNone_iff_eq_none, ← ne_eq, ← Option.isSome_iff_ne_none] at hstring
    exact leads_pure fun _ => ⟨hplain, hsome, hstring⟩

/-! ## Definitions -/

theorem answers_of_forall₂ {l : Nat} {names : List String} {is : List ClassId}
    (h : List.Forall₂ (m.Answers l · ·) names is) :
    (∀ i ∈ is, m.Answers l (m.classAt i).name i) ∧ is.map (fun i => (m.classAt i).name) = names := by
  induction h with
  | nil => exact ⟨nofun, rfl⟩
  | cons hi _ ih =>
    refine ⟨List.forall_mem_cons.2 ⟨?_, ih.1⟩, ?_⟩
    · rwa [hi.named]
    · rw [List.map_cons, hi.named, ih.2]

/-- What a class has for a superclass. -/
structure Super (m : Machine) (k : Class) (super : Option ClassId) : Prop where
  answers : ∀ c, super = some c → m.Answers k.loader k.superName c ∧ (m.classAt c).component = none
  root : super = none → k.superName = ""
  object : super = none ↔ k.name = Machine.objectName
  kind : ∀ c, super = some c →
    (m.classAt c).isInterface = false ∧ (k.isInterface → (m.classAt c).name = Machine.objectName)

/-- A superclass is no array class, for those are final. -/
theorem leads_super (h : Loads s) {k : Class} :
    Leads (expanding g (k.loader = 0)) (superclass s k) m fun super m' =>
      Super m' k super ∧ (k.loader = 0 → Adds Class.Plain m m') := by
  refine (leads_superclass fun _ => h.load g k.loader k.superName m).mono fun super m' hm _ ⟨hroot, hsuper⟩ => ?_
  cases super with
  | none =>
    obtain ⟨hnone, hobject, rfl⟩ := hroot rfl
    exact ⟨⟨nofun, fun _ => hnone, ⟨fun _ => hobject, fun _ => rfl⟩, nofun⟩, fun _ => .ofSize (Nat.le_refl _)⟩
  | some c =>
    obtain ⟨⟨hanswers, -, hplain⟩, hfinal, hname, hkind⟩ := hsuper c rfl
    have hcomponent : (m'.classAt c).component = none :=
      hanswers.component hm.1 fun harray => absurd harray.final (by simp [hfinal])
    refine ⟨⟨?_, nofun, ⟨nofun, fun hobject => absurd hobject hname⟩, ?_⟩, fun hl => hplain hl (.inl hcomponent)⟩
    · rintro _ ⟨⟩
      exact ⟨hanswers, hcomponent⟩
    · rintro _ ⟨⟩
      exact hkind

/-- Superinterfaces are no array classes, for those are no interfaces. -/
theorem leads_interfaces (h : Loads s) {k : Class} {names : List String} :
    Leads (expanding g (k.loader = 0)) (superinterfaces s k names) m fun is m' =>
      (((∀ i ∈ is, m'.Answers k.loader (m'.classAt i).name i) ∧ is.map (fun i => (m'.classAt i).name) = names) ∧
        ∀ i ∈ is, (m'.classAt i).isInterface) ∧ (k.loader = 0 → Adds Class.Plain m m') := by
  have hload (name : String) (m : Machine) :
      Leads (expanding g (k.loader = 0)) (s.load k.loader name) m fun i m' =>
        m'.Answers k.loader name i ∧ ((m'.classAt i).isInterface → k.loader = 0 → Adds Class.Plain m m') := by
    refine (h.load g k.loader name m).mono fun i m' hm _ ⟨hanswers, _, hplain⟩ => ⟨hanswers, fun hinterface hl => ?_⟩
    refine hplain hl (.inl (hanswers.component hm.1 fun harray => ?_))
    rw [harray.interface] at hinterface
    cases hinterface
  refine (leads_superinterfaces ((gain_adds Class.Plain).imp (k.loader = 0)) (fun hs hi => ?_)
    fun name _ => hload name).mono fun is m' _ _ ⟨⟨his, hkind⟩, hplain⟩ =>
      ⟨⟨answers_of_forall₂ his, hkind⟩, hplain⟩
  exact hi.mono hs.evolves

/-- A class with its supertypes, for which the machine evolved. -/
structure Resolved (m : Machine) (k k' : Class) (m' : Machine) : Prop where
  same : ∃ super interfaces, k' = { k with super, interfaces }
  backs : m'.Backs k'
  evolves : Evolves m.guard m m'
  plain : k.loader = 0 → Adds Class.Plain m m'

theorem leads_resolveSupertypes (h : Loads s) {k : Class} (hasked : asked → k.loader = 0) :
    Leads (expanding g asked) (resolveSupertypes s k) m (Resolved m k) := by
  refine .intro fun ⟨_, hg⟩ => ?_
  unfold resolveSupertypes
  -- the loads for supertypes respect what is marked in the machine that they start from
  refine (((leads_super h).mono fun _ _ _ hstep hq => And.intro hstep hq).expanding (.refl _) hg
    hasked).bind fun super m₁ _ ⟨hstep₁, hsuper, hplain₁⟩ => ?_
  refine (((leads_interfaces h).mono fun _ _ _ hstep hq => And.intro hstep hq).expanding hstep₁.guard hg
    hasked).bind fun interfaces m₂ _ ⟨hstep₂, ⟨⟨his, hnames⟩, hkinds⟩, hplain₂⟩ => leads_pure fun _ => ?_
  have hs₂ := hstep₂.evolves.toSucceeds
  refine ⟨⟨super, interfaces, rfl⟩, ⟨fun c hc => ?_, hsuper.root, his, hnames, hsuper.object, fun c hc => ?_, hkinds⟩,
    (hstep₁.trans hstep₂).evolves, fun hl => ?_⟩
  · obtain ⟨hanswers, hc⟩ := hsuper.answers c hc
    exact ⟨hanswers.mono hstep₂.evolves, (hs₂.component hanswers.valid).trans hc⟩
  · have hvalid := (hsuper.answers c hc).1.valid
    rw [hs₂.part hvalid Class.isInterface fun _ => rfl, hs₂.name hvalid]
    exact hsuper.kind c hc
  · exact (hplain₁ hl).trans (hplain₂ hl) hstep₂.evolves.toSucceeds

/-- A class with its supertypes may be admitted, in any state, if its name was not known and was marked from before
they were resolved. -/
theorem Resolved.admissible {m₀ : Machine} {k k' : Class} {cf : ClassFile} (h : Resolved m₀ k k' m)
    (hfile : Class.OfFile k.loader cf k) (h₀ : m₀.Sound) (hg : g.Within m₀.guard) (hhome : k.loader < m₀.loaders.size)
    (hunknown : m₀.loaded? k.loader k.name = none) (hmarked : k.name ∈ m₀.defining k.loader)
    (hfree : k.name ∉ g.marked k.loader) (state : ClassState) :
    Admissible g m { k'.placed ⟨m.classes.size⟩ (m.inherited k') with state } := by
  obtain ⟨⟨super, interfaces, rfl⟩, hbacks, hevolves, hplain⟩ := h
  refine ⟨Nat.lt_of_lt_of_le hhome hevolves.loaders, ?_, hfile.primitive, ?_, hfile.pool, fun _ => hfree,
    fun hl d hd => ?_, fun hl hname => ?_, fun hl hname hset => ?_⟩
  · refine (Machine.laid_placed (k := { k with super, interfaces }) hfile.component hfile.fields (fun c hc => ?_)
      hbacks.root ?_ hbacks.interfaceNames ?_).of_plan rfl
    · obtain ⟨hanswers, hc⟩ := hbacks.super c hc
      exact ⟨hanswers.valid, hanswers.named, hc⟩
    · exact fun i hi => (hbacks.interfaces i hi).valid
    · exact ⟨hbacks.kinds.root, hbacks.kinds.super, hbacks.kinds.interfaces⟩
  · have howns := Class.owns_placed (k := { k with super, interfaces }) hfile.methods ⟨m.classes.size⟩
      (m.inherited { k with super, interfaces })
    exact ⟨howns.fields, howns.methods⟩
  · rcases List.mem_append.1 hd with hd | hd
    · exact ⟨_, (hbacks.super d (Option.mem_toList.1 hd)).1.known hl⟩
    · exact ⟨_, (hbacks.interfaces d hd).known hl⟩
  · change m.loaded? 0 k.name = none
    have hl : k.loader = 0 := hl
    rw [hl] at hunknown hmarked
    -- what came under the name is no class of a class file, for those respect the mark, and no array class
    refine Option.not_isSome_iff_eq_none.1 fun hsome => ?_
    obtain ⟨c, hc⟩ := Machine.exists_mem_of_isSome hsome
    obtain ⟨hvalid, hnamed, hboot⟩ := hevolves.sound.named 0 _ c hc
    have hnew := hevolves.le_of_unknown h₀ hunknown hc
    cases hcomponent : (m.classAt c).component with
    | none =>
      refine hevolves.fresh c hnew hvalid hcomponent ?_
      change (m.classAt c).name ∈ m₀.defining (m.classAt c).loader
      rwa [hnamed, (hboot rfl).1]
    | some d =>
      refine hname (hnamed.symm.trans (hplain hl c hnew hvalid ?_))
      change (m.classAt c).component ≠ none
      rw [hcomponent]
      exact Option.some_ne_none d
  · have hsome : (m₀.loaded? 0 Machine.charArrayName).isSome := hg.settled hset
    have hl : k.loader = 0 := hl
    have hname : k.name = Machine.charArrayName := hname
    rw [hl, hname] at hunknown
    rw [hunknown] at hsome
    cases hsome

theorem classAt_published (m : Machine) (k : Class) (state : ClassState) (j : Journal) :
    (published m k state j).classAt ⟨m.classes.size⟩ =
      { k.placed ⟨m.classes.size⟩ (m.inherited k) with state } := by
  rw [published, Machine.classAt_admitted, if_pos rfl]

theorem answers_published {k : Class} (hhome : k.loader < m.loaders.size) (state : ClassState) (j : Journal) :
    (published m k state j).Answers k.loader k.name ⟨m.classes.size⟩ := by
  refine ⟨?_, ?_, fun hl => ?_⟩
  · rw [published, Machine.size_admitted]
    exact Nat.lt_succ_self _
  · rw [classAt_published]
    rfl
  · rw [published, Machine.classes_admitted, if_pos ⟨hl, hhome⟩]
    exact List.mem_cons_self

theorem leads_published (h : Loads s) {k : Class} (hhome : k.loader < m.loaders.size) (hcomponent : k.component = none)
    (hadmits : ∀ state, Admissible g m { k.placed ⟨m.classes.size⟩ (m.inherited k) with state })
    (hasked : asked → k.loader = 0 ∧ k.name.startsWith "[" = false) :
    Leads (expanding g asked) (publish s k.loader k) m fun c m' =>
      m'.Answers k.loader k.name c ∧ (m'.classAt c).component = none ∧ Adds Class.Plain m m' := by
  have hstrings (m : Machine) : Leads (expanding g asked) (ensureStringClasses s) m fun _ m' => Adds Class.Plain m m' :=
    (leads_ensureStringClasses h).mono fun _ _ _ _ h => h.1
  refine (leads_publish (gain_adds Class.Plain) hstrings
    (fun hm hs _ => Expands.steady hm hs) fun state j hevents hannounced hm => ?_).mono ?_
  · have hstep : Expands g asked m (published m k state j) :=
      ⟨.admitted hm.1 (hadmits state) hevents hannounced, m.defining_admitted ..,
        fun ha => adds_admitted ⟨(hasked ha).1, fun _ => (hasked ha).2⟩ _⟩
    exact ⟨hstep.holds hm.2, hstep⟩
  · rintro _ m' _ _ ⟨rfl, state, j, hstep, hplain⟩
    have hanswers := answers_published hhome state j
    refine ⟨hanswers.mono hstep.evolves, ?_, ?_⟩
    · rw [hstep.evolves.component hanswers.valid, classAt_published]
      exact hcomponent
    · exact (adds_admitted (fun harray => absurd hcomponent harray) _).trans hplain hstep.evolves.toSucceeds

theorem leads_defineMarked (h : Loads s) {l : Nat} {cf : ClassFile} {size : Nat} {source : String}
    (hhome : l < m.loaders.size) (hmarked : cf.className ∈ m.defining l) (hfree : cf.className ∉ g.marked l)
    (hasked : asked → l = 0 ∧ cf.className.startsWith "[" = false) :
    Leads (expanding g asked) (defineMarked s l cf size source) m fun c m' =>
      m'.Answers l cf.className c ∧ (m'.classAt c).component = none ∧ (l = 0 → Adds Class.Plain m m') := by
  refine .intro fun ⟨hsound, hg⟩ => ?_
  unfold defineMarked
  refine leads_refuseKnown.bind fun _ m₀ _ hknown => ?_
  obtain ⟨hunknown, rfl⟩ := hknown
  have hfile := Class.gives_ofFile l cf
  split
  · exact leads_throw trivial
  · exact leads_outside
  · next k he =>
    rw [he] at hfile
    have hfile : Class.OfFile l cf k := hfile
    obtain rfl := hfile.loader
    rw [← hfile.name] at hmarked hfree hunknown hasked ⊢
    refine (leads_resolveSupertypes h fun ha => (hasked ha).1).bind fun k' m₂ _ hresolved => ?_
    have hadmits := hresolved.admissible hfile hsound hg hhome hunknown hmarked hfree
    obtain ⟨⟨super, interfaces, rfl⟩, _, hevolves, hplain⟩ := hresolved
    have hhome₂ : k.loader < m₂.loaders.size := Nat.lt_of_lt_of_le hhome hevolves.loaders
    refine (leads_published (k := { k with super, interfaces }) h hhome₂ hfile.component hadmits
      hasked).bind fun c m₃ hstep₃ ⟨hanswers, hc, hplain₃⟩ => ?_
    refine (leads_lift keeps_reportLoaded prompt_reportLoaded fun _ _ hminor _ => hminor).bind
      fun _ m₄ hstep₄ hminor => leads_pure fun _ => ⟨hanswers.mono hstep₄.evolves, ?_, fun hl => ?_⟩
    · exact (hstep₄.evolves.component hanswers.valid).trans hc
    · have hplain := (hplain hl).trans hplain₃ hstep₃.evolves.toSucceeds
      exact hplain.trans (.ofSize (Nat.le_of_eq hminor.toSteady.size)) hstep₄.evolves.toSucceeds

/-! ## Marks -/

theorem alike_defining (f : List String → List String) (m : Machine) (l : Nat) :
    Alike m { m with loaders := m.loaders.modify l fun x => { x with defining := f x.defining } } := by
  have hknown (l' : Nat) : ({ m with loaders := m.loaders.modify l fun x => { x with defining := f x.defining } }.loaderAt
      l').classes = (m.loaderAt l').classes := by
    rw [m.loaderAt_modify, apply_ite Loader.classes, ite_self]
  have hsucceeds : Succeeds m { m with loaders := m.loaders.modify l fun x => { x with defining := f x.defining } } :=
    .of_known (Nat.le_refl _) (fun _ _ => rfl) (by simp) hknown
  refine ⟨hsucceeds, List.suffix_refl _, rfl, rfl, rfl, hknown, fun l' _ => ?_, fun hm => ?_, .inl rfl, .inl rfl⟩
  · rw [m.loaderAt_modify, apply_ite Loader.mirror, ite_self]
  · exact hm.onward hsucceeds rfl (fun _ => .inl) fun _ _ => .inl

theorem defining_modify (f : List String → List String) (m : Machine) {l : Nat} (hl : l < m.loaders.size) (l' : Nat) :
    { m with loaders := m.loaders.modify l fun x => { x with defining := f x.defining } }.defining l' =
      if l = l' then f (m.defining l') else m.defining l' := by
  rw [Machine.defining, m.loaderAt_modify, apply_ite Loader.defining, Machine.defining]
  simp [hl]

theorem alike_beginDefine (m : Machine) (l : Nat) (name : String) : Alike m (m.beginDefine l name) :=
  alike_defining (name :: ·) m l

theorem alike_endDefine (m : Machine) (l : Nat) (name : String) : Alike m (m.endDefine l name) :=
  alike_defining (·.erase name) m l

theorem defining_beginDefine (m : Machine) {l : Nat} (hl : l < m.loaders.size) (name : String) (l' : Nat) :
    (m.beginDefine l name).defining l' = if l = l' then name :: m.defining l' else m.defining l' :=
  defining_modify (name :: ·) m hl l'

theorem defining_endDefine (m : Machine) {l : Nat} (hl : l < m.loaders.size) (name : String) (l' : Nat) :
    (m.endDefine l name).defining l' = if l = l' then (m.defining l').erase name else m.defining l' :=
  defining_modify (·.erase name) m hl l'

/-- Between the two ends of a definition a machine does what it does in the whole of it. -/
theorem expands_marked {m' : Machine} {l : Nat} {name : String} (hm : m.Sound) (hl : l < m.loaders.size)
    (h : Expands g asked (m.beginDefine l name) m') : Expands g asked m (m'.endDefine l name) where
  evolves := (Evolves.alike hm (alike_beginDefine m l name)).trans
    (h.evolves.trans (.alike h.evolves.sound (alike_endDefine m' l name)))
  defining := by
    have hl' : l < m'.loaders.size :=
      Nat.lt_of_lt_of_le hl (Nat.le_trans (alike_beginDefine m l name).loaders h.evolves.loaders)
    funext l'
    rw [defining_endDefine m' hl', h.defining, defining_beginDefine m hl]
    split
    · exact List.erase_cons_head ..
    · rfl
  booted hasked := h.booted hasked

theorem leads_defineClass (h : Loads s) {l : Nat} {expected source : String} {data : List UInt8}
    (hasked : asked → l = 0 ∧ expected ≠ "" ∧ expected.startsWith "[" = false) :
    Leads (expanding g asked) (defineClass s l expected data source) m fun c m' =>
      (∃ name, (expected ≠ "" → name = expected) ∧ m'.Answers l name c) ∧ (m'.classAt c).component = none ∧
        (l = 0 → Adds Class.Plain m m') := by
  unfold defineClass
  split
  · split <;> exact leads_throw trivial
  · next cf _ =>
    refine leads_failIf_bind (by decide) fun hname => ?_
    have hname (he : expected ≠ "") : cf.className = expected := by simpa [he] using hname
    rw [leads_get_bind]
    refine leads_some!_bind fun loader hloader => leads_check_bind (fun _ => trivial) fun hfree => ?_
    obtain ⟨hl, rfl⟩ := Array.getElem?_eq_some_iff.1 hloader
    have hfree : cf.className ∉ m.defining l := by
      rw [Machine.defining, Machine.loaderAt, Array.getD, dif_pos hl]
      simpa using hfree
    have hbegin := alike_beginDefine m l cf.className
    have hmarks := defining_beginDefine m hl cf.className
    refine .intro fun hholds => ?_
    obtain ⟨hm, hg⟩ := hholds
    refine leads_between (leads_defineMarked h (Nat.lt_of_lt_of_le hl hbegin.loaders) ?_
      (fun hmem => hfree (hg.marked l hmem)) fun ha => ?_) (fun _ => ⟨hm.alike hbegin, ?_⟩)
      (fun m' _ hm' hstep => ?_) (fun _ => id) (fun _ => id) fun c m' hstep hdefined => ?_
    · rw [hmarks, if_pos rfl]
      exact List.mem_cons_self
    · obtain ⟨hboot, hgiven, hplain⟩ := hasked ha
      exact ⟨hboot, (hname hgiven).symm ▸ hplain⟩
    · refine hg.trans ⟨fun l' => ?_, (Evolves.alike (g := g) hm hbegin).isSome_loaded?⟩
      change m.defining l' ⊆ (m.beginDefine l cf.className).defining l'
      rw [hmarks]
      split
      · exact List.subset_cons_self ..
      · exact List.Subset.refl _
    · have hstep := expands_marked hm hl hstep
      exact ⟨hstep.holds hg, hstep⟩
    · obtain ⟨hanswers, hc, hplain⟩ := hdefined
      refine ⟨⟨_, hname, hanswers.mono (.alike hstep.evolves.sound (alike_endDefine m' l _) (g := g))⟩, hc, ?_⟩
      exact fun hl => hplain hl

theorem leads_define (h : Loads s) {l : Nat} {data : List UInt8} :
    Leads (expanding g False) (define s l data) m fun _ _ => True := by
  unfold define
  refine (leads_lift (Q := fun _ _ => True) keeps_loaderText prompt_loaderText fun _ _ _ _ => trivial).bind ?_
  exact fun source _ _ _ => (leads_defineClass h nofun).mono fun _ _ _ _ _ => trivial

end Linking

end JavaMachine
