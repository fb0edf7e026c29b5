import JavaMachine.Proofs.Loading.Declarations
import JavaMachine.Proofs.Loading.Renewal

/-!
Loads as a search. A load of the bootstrap loader goes from the name that is asked for to the names that are declared
on the way, and marks those whose definition has begun: each of them leads to the name that is loaded next
(`searching`). So a name that is marked already closes a cycle, and the depth of the search is bounded.

Main result: `leads_search`, by induction on the level, for a machine that was set up.
-/

namespace JavaMachine

open M Attempt

/-- The classes that are supertypes of all array classes. -/
def coreNames : List String := [Machine.objectName, "java/lang/Cloneable", "java/io/Serializable"]

/-- A machine in which loads are under way that were begun in another. What it knows was declared as the other may
find it, supertypes and element classes before what depends on them. -/
structure Machine.Seeking (b m : Machine) : Prop where
  options : m.options = b.options
  storage : b.options.classPath.Asked b.storage m.storage
  known : ∀ n, (b.loaded? 0 n).isSome → (m.loaded? 0 n).isSome
  strings : m.charArrayClass.isSome ∧ m.stringClass.isSome
  core : ∀ n ∈ coreNames, (m.loaded? 0 n).isSome
  booted : ∀ c, c.index < m.classes.size → (m.classAt c).Booted
  sources : ∀ n c, m.loaded? 0 n = some c → n.startsWith "[" = false →
    ∃ s, b.options.classPath.Asked b.storage s ∧ b.declares s n = (m.classAt c).supertypeNames
  elements : ∀ n c, m.loaded? 0 n = some c → n.startsWith "[" →
    ∀ n' ∈ elementNames n, ∃ d, m.loaded? 0 n' = some d ∧ d.index < c.index

namespace Machine.Seeking

variable {g : Guard} {b m m' : Machine}

/-- Without new classes a search goes on. -/
theorem kept (h : b.Seeking m) (hoptions : m'.options = m.options)
    (hstorage : b.options.classPath.Asked m.storage m'.storage) (hknown : ∀ n, m'.loaded? 0 n = m.loaded? 0 n)
    (hsize : m'.classes.size = m.classes.size) (hplans : ∀ c, (m'.classAt c).plan = (m.classAt c).plan)
    (hstrings : m'.charArrayClass = m.charArrayClass ∧ m'.stringClass = m.stringClass) : b.Seeking m' where
  options := hoptions.trans h.options
  storage := h.storage.trans hstorage
  known n hn := by
    rw [hknown]
    exact h.known n hn
  strings := by
    rw [hstrings.1, hstrings.2]
    exact h.strings
  core n hn := by
    rw [hknown]
    exact h.core n hn
  booted c hc := by
    have hold := h.booted c (hsize ▸ hc)
    refine ⟨?_, fun hcomponent => ?_⟩
    · rw [Class.of_plan Class.loader (fun _ => rfl) (hplans c)]
      exact hold.loader
    · rw [Class.of_plan Class.component (fun _ => rfl) (hplans c)] at hcomponent
      rw [Class.of_plan Class.name (fun _ => rfl) (hplans c)]
      exact hold.named hcomponent
  sources n c hc hn := by
    rw [hknown] at hc
    rw [Class.of_plan Class.supertypeNames (fun _ => rfl) (hplans c)]
    exact h.sources n c hc hn
  elements n c hc hn n' hn' := by
    rw [hknown] at hc ⊢
    exact h.elements n c hc hn n' hn'

theorem steady (h : b.Seeking m) (hs : Steady m m') (hstorage : m'.storage = m.storage) : b.Seeking m' := by
  refine h.kept hs.options (hstorage ▸ .refl) (fun n => ?_) hs.size hs.plans ⟨hs.charArrayClass, hs.stringClass⟩
  rw [loaded?, hs.known, loaded?]

/-- What the bootstrap loader knows when a class of its own was admitted. -/
theorem loaded?_admitted {k : Class} {j : Journal} (hk : Admissible g m k) (hloader : k.loader = 0) (n : String) :
    (m.admitted k j).loaded? 0 n = if n = k.name then some ⟨m.classes.size⟩ else m.loaded? 0 n := by
  rw [loaded?, classes_admitted, if_pos ⟨hloader, hk.home⟩, List.lookup_cons]
  split
  · next hn => rw [if_pos (eq_of_beq hn)]
  · next hn => rw [if_neg (ne_of_beq_false hn), loaded?]

/-- A search goes on when a class is admitted that was declared as it may be found, and whose element class is
known if it is an array class. -/
theorem admitted (h : b.Seeking m) (hm : m.Sound) {k : Class} {j : Journal} (hk : Admissible g m k) (hboot : k.Booted)
    (hunknown : m.loaded? 0 k.name = none)
    (hsource : k.name.startsWith "[" = false →
      ∃ s, b.options.classPath.Asked b.storage s ∧ b.declares s k.name = k.supertypeNames)
    (helements : k.name.startsWith "[" → ∀ n ∈ elementNames k.name, (m.loaded? 0 n).isSome) :
    b.Seeking (m.admitted k j) := by
  have hknown (n : String) := loaded?_admitted (j := j) hk hboot.loader n
  have hsome {n : String} (hn : (m.loaded? 0 n).isSome) : (m.admitted k j).loaded? 0 n = m.loaded? 0 n := by
    rw [hknown, if_neg]
    rintro rfl
    rw [hunknown] at hn
    cases hn
  have hvalid {n : String} {c : ClassId} (hc : m.loaded? 0 n = some c) : c.index < m.classes.size :=
    (hm.named 0 n c (mem_of_loaded? hc)).1
  have hold {n : String} {c : ClassId} (hc : m.loaded? 0 n = some c) : (m.admitted k j).classAt c = m.classAt c := by
    rw [classAt_admitted, if_neg (Nat.ne_of_lt (hvalid hc))]
  have hnew {n : String} {c : ClassId} (hc : (m.admitted k j).loaded? 0 n = some c) :
      (n = k.name ∧ c = ⟨m.classes.size⟩) ∨ m.loaded? 0 n = some c := by
    rw [hknown] at hc
    split at hc
    · next hn => exact .inl ⟨hn, (Option.some.inj hc).symm⟩
    · exact .inr hc
  refine ⟨h.options, h.storage, fun n hn => ?_, h.strings, fun n hn => ?_, fun c hc => ?_, fun n c hc hn => ?_,
    fun n c hc hn n' hn' => ?_⟩
  · rw [hsome (h.known n hn)]
    exact h.known n hn
  · rw [hsome (h.core n hn)]
    exact h.core n hn
  · rw [classAt_admitted]
    split
    · exact hboot
    · next hne =>
      rw [size_admitted] at hc
      exact h.booted c (by omega)
  · rcases hnew hc with ⟨rfl, rfl⟩ | hc
    · rw [classAt_admitted, if_pos rfl]
      exact hsource hn
    · rw [hold hc]
      exact h.sources n c hc hn
  · rcases hnew hc with ⟨rfl, rfl⟩ | hc
    · obtain ⟨d, hd⟩ := Option.isSome_iff_exists.1 (helements hn n' hn')
      exact ⟨d, (hsome (Option.isSome_of_eq_some hd)).trans hd, hvalid hd⟩
    · obtain ⟨d, hd, hlt⟩ := h.elements n c hc hn n' hn'
      exact ⟨d, (hsome (Option.isSome_of_eq_some hd)).trans hd, hlt⟩

end Machine.Seeking

/-! ## The search -/

/-- What a load of a name may do while names are marked. It may fail for circularity only if the name leads to a
cycle, and it is not to be stuck if there are enough levels. -/
def searching (g : Guard) (b : Machine) (marks : List String) (enough : Prop) (name : String) : Contract where
  holds m := (expanding g True).holds m ∧ b.Seeking m ∧ m.defining 0 = marks
  step := Expands g True
  fails f := f.java?.map (·.1) = some Throwables.circularity → LeadsToCycle b.MayDeclare name
  halts h := enough → h ≠ .stuck

variable {g : Guard} {b m : Machine} {marks : List String} {enough : Prop} {name : String} {s : Services}

theorem Failure.java?_java (name message : String) (cause : Option Failure) :
    (Failure.java name message cause).java? = some (name, message, cause) := by
  cases cause <;> rfl

instance : (searching g b marks enough name).Fair where
  slight hm hslight := by
    obtain ⟨hholds, hstep⟩ := Expands.steady hm.1 hslight.toSteady
    exact ⟨⟨hholds, hm.2.1.steady hslight.toSteady hslight.storage, (hslight.toSteady.defining 0).trans hm.2.2⟩, hstep⟩
  succeeds h := h.evolves.toSucceeds
  trans := Expands.trans
  fails n message cause hn hcircular := by
    rw [Failure.java?_java] at hcircular
    exact absurd (Option.some.inj hcircular) hn
  halts _ hne _ := hne

namespace Attempt

variable {α : Type} {C D : Contract}

/-- What an attempt leads to by two contracts. -/
theorem Leads.and {act : Attempt α} {P Q : α → Machine → Prop} (h : Leads D act m Q) (h' : Leads C act m P)
    (hholds : D.holds m → C.holds m) : Leads D act m fun a m' => Q a m' ∧ P a m' := by
  refine ⟨fun hm => ?_⟩
  have h' := h'.outcome (hholds hm)
  have h := h.outcome hm
  generalize act.run m = r at *
  rcases r with ⟨_ | _, _⟩ | _
  · exact h
  · exact ⟨h.1, h.2.1, h.2.2, h'.2.2⟩
  · exact h

/-- An attempt that cannot but end with a value, and leaves the machine as it is. -/
theorem Ends.leads [C.Fair] {act : Attempt α} {P : α → Prop} (h : Ends act m (fun a m' => P a ∧ m' = m) fun _ => False) :
    Leads C act m fun a m' => P a ∧ m' = m := by
  refine ⟨fun hm => ?_⟩
  have h := h.outcome
  generalize act.run m = r at *
  rcases r with ⟨_ | a, m'⟩ | _
  · exact h.elim
  · obtain ⟨ha, rfl⟩ := h
    exact ⟨hm, step_refl hm, ha, rfl⟩
  · exact h.elim

end Attempt

namespace Linking

/-! ### Supertypes and constants -/

/-- The supertypes of a class lead on if the loads of their names do. -/
theorem leads_supertypes {C : Contract} [C.Fair] {k : Class}
    (hload : ∀ n ∈ k.supertypeNames, ∀ m, Leads C (s.load k.loader n) m fun _ _ => True) :
    Leads C (resolveSupertypes s k) m fun _ _ => True := by
  have hgain : C.Gain fun _ _ => True := ⟨fun _ => trivial, fun _ _ _ => trivial⟩
  unfold resolveSupertypes
  refine (leads_superclass (P := fun _ _ => True) fun hsuper => ?_).bind fun super m₁ _ _ => ?_
  · refine hload _ ?_ m
    rw [Class.supertypeNames, if_neg hsuper]
    exact List.mem_cons_self
  · refine (leads_superinterfaces (P := fun _ _ _ => True) hgain (fun _ _ => trivial) fun n hn m => ?_).bind
      fun _ _ _ _ => leads_pure fun _ => trivial
    exact (hload n (List.mem_append_right _ hn) m).mono fun _ _ _ _ _ => ⟨trivial, fun _ => trivial⟩

/-- Nothing is loaded for strings in a machine that was set up. -/
theorem leads_strings : Leads (searching g b marks enough name) (ensureStringClasses s) m fun _ _ => True := by
  refine .intro fun ⟨_, hseeking, _⟩ => ?_
  obtain ⟨hchars, hstring⟩ := hseeking.strings
  unfold ensureStringClasses ensureCharArrayClass
  rw [← Option.not_isNone] at hchars hstring
  have hchars : m.charArrayClass.isNone = false := by simpa using hchars
  have hstring : m.stringClass.isNone = false := by simpa using hstring
  refine Leads.bind (P := fun _ m' => m' = m) ?_ ?_
  · rw [leads_get_bind, hchars]
    exact leads_pure fun _ => rfl
  · rintro _ _ - rfl
    rw [leads_get_bind, hstring]
    exact leads_pure fun _ => trivial

/-! ### Definitions -/

/-- A class file that is read, and what its name declares by that. -/
structure Found (b : Machine) (name : String) (cf : ClassFile) : Prop where
  named : cf.className = name
  stored : cf ∈ b.storage.classFiles
  declared : ∃ s, b.options.classPath.Asked b.storage s ∧ b.declares s name = cf.supertypeNames

theorem Found.mayDeclare {cf : ClassFile} (h : Found b name cf) {n : String} (hn : n ∈ cf.supertypeNames) :
    b.MayDeclare name n := by
  obtain ⟨s, hs, hdeclared⟩ := h.declared
  exact ⟨s, hs, hdeclared ▸ hn⟩

/-- A class is published in a search that was declared as it may be found. -/
theorem leads_search_publish {k : Class} (hloader : k.loader = 0) (hplain : k.name.startsWith "[" = false)
    (hadmits : ∀ state, Admissible g m { k.placed ⟨m.classes.size⟩ (m.inherited k) with state })
    (hsource : ∃ s, b.options.classPath.Asked b.storage s ∧ b.declares s k.name = k.supertypeNames) :
    Leads (searching g b marks enough name) (publish s 0 k) m fun _ _ => True := by
  have hpublish : Leads (searching g b marks enough name) (publish s k.loader k) m fun _ _ => True := by
    refine (leads_publish (R := fun _ _ => True) ⟨fun _ => trivial, fun _ _ _ => trivial⟩ (fun m => leads_strings)
      (fun hm hs hstorage => ?_) fun state j hevents hannounced hm => ?_).mono fun _ _ _ _ _ => trivial
    · obtain ⟨hholds, hstep⟩ := Expands.steady hm.1 hs
      exact ⟨⟨hholds, hm.2.1.steady hs hstorage, (hs.defining 0).trans hm.2.2⟩, hstep⟩
    · have hboot : Class.Booted { k.placed ⟨m.classes.size⟩ (m.inherited k) with state } := ⟨hloader, fun _ => hplain⟩
      have hadds : Adds Class.Booted m (published m k state j) := adds_admitted ⟨hloader, fun _ => hplain⟩ _
      have hstep : Expands g True m (published m k state j) :=
        ⟨.admitted hm.1.1 (hadmits state) hevents hannounced, m.defining_admitted .., fun _ => hadds⟩
      have hunknown : m.loaded? 0 k.name = none := by
        refine (hadmits state).unknown hloader fun hchars => ?_
        have hchars : k.name = Machine.charArrayName := hchars
        rw [hchars] at hplain
        exact absurd hplain (by decide +kernel)
      have harray : ¬ k.name.startsWith "[" := Bool.eq_false_iff.1 hplain
      exact ⟨⟨hstep.holds hm.1.2, hm.2.1.admitted hm.1.1 (hadmits state) hboot hunknown (fun _ => hsource)
        fun h => absurd h harray, (congrFun hstep.defining 0).trans hm.2.2⟩, hstep⟩
  rwa [hloader] at hpublish

theorem leads_search_marked (h : Loads s) {cf : ClassFile} {size : Nat} {source : String} (hfound : Found b name cf)
    (hplain : name.startsWith "[" = false) (hfree : name ∉ g.marked 0)
    (hload : ∀ n ∈ cf.supertypeNames, ∀ m,
      Leads (searching g b (name :: marks) enough name) (s.load 0 n) m fun _ _ => True) :
    Leads (searching g b (name :: marks) enough name) (defineMarked s 0 cf size source) m fun _ _ => True := by
  refine .intro fun ⟨⟨hsound, hg⟩, _, hmarks⟩ => ?_
  obtain rfl := hfound.named
  unfold defineMarked
  refine leads_refuseKnown.bind fun _ m₀ _ hknown => ?_
  obtain ⟨hunknown, rfl⟩ := hknown
  have hfile := Class.gives_ofFile 0 cf
  split
  · next f he =>
    rw [he] at hfile
    obtain ⟨message, cause, rfl⟩ := hfile
    exact leads_throw (Contract.Fair.fails _ _ _ (by decide))
  · exact leads_outside
  · next k he =>
    rw [he] at hfile
    have hfile : Class.OfFile 0 cf k := hfile
    have hnames : k.supertypeNames = cf.supertypeNames := by
      rw [Class.supertypeNames, hfile.superName, hfile.interfaceNames, ClassFile.supertypeNames]
    have hresolve : Leads (searching g b (cf.className :: marks) enough cf.className) (resolveSupertypes s k) m₀
        fun _ _ => True := by
      refine leads_supertypes fun n hn m => ?_
      rw [hfile.loader]
      exact hload n (hnames ▸ hn) m
    have hchecked : Leads (expanding g True) (resolveSupertypes s k) m₀ (Resolved m₀ k) :=
      leads_resolveSupertypes h fun _ => hfile.loader
    refine (hresolve.and hchecked (·.1)).bind fun k' m₂ _ ⟨_, hresolved⟩ => ?_
    have hadmits := hresolved.admissible (g := g) (hfile.loader ▸ hfile) hsound hg (hfile.loader ▸ hsound.boot.1)
      (by rw [hfile.loader, hfile.name]; exact hunknown)
      (by rw [hfile.loader, hfile.name, hmarks]; exact List.mem_cons_self)
      (by rw [hfile.loader, hfile.name]; exact hfree)
    obtain ⟨⟨super, interfaces, rfl⟩, -, -, -⟩ := hresolved
    refine (leads_search_publish (k := { k with super, interfaces }) hfile.loader (hfile.name ▸ hplain) hadmits ?_).bind
      fun c m₃ _ _ => ?_
    · obtain ⟨s, hs, hdeclared⟩ := hfound.declared
      exact ⟨s, hs, (hfile.name ▸ hdeclared).trans hnames.symm⟩
    · exact (leads_lift (Q := fun _ _ => True) keeps_reportLoaded prompt_reportLoaded fun _ _ _ _ => trivial).bind
        fun _ _ _ _ => leads_pure fun _ => trivial

theorem leads_search_define (h : Loads s) {data : List UInt8} {source : String} (hne : name ≠ "")
    (hplain : name.startsWith "[" = false) (hmarks : ∀ n ∈ marks, Relation.TransGen b.MayDeclare n name)
    (hfound : ∀ cf, ClassFile.parse data = .ok cf → cf.className = name → Found b name cf)
    (hload : ∀ cf, Found b name cf → name ∉ marks → ∀ n ∈ cf.supertypeNames, ∀ m,
      Leads (searching g b (name :: marks) enough name) (s.load 0 n) m fun _ _ => True) :
    Leads (searching g b marks enough name) (defineClass s 0 name data source) m fun _ _ => True := by
  unfold defineClass
  split
  · split
    all_goals exact leads_throw (Contract.Fair.fails _ _ _ (by decide))
  · next cf hcf =>
    refine leads_failIf_bind (by decide) fun hname => ?_
    have hname : cf.className = name := by simpa [hne] using hname
    have hfound := hfound cf hcf hname
    subst hname
    rw [leads_get_bind]
    refine .intro fun ⟨⟨hm, hg⟩, _, hdefining⟩ => leads_some!_bind fun loader hloader => ?_
    obtain ⟨hl, rfl⟩ := Array.getElem?_eq_some_iff.1 hloader
    have hsame : m.loaders[0].defining = marks := by
      rw [← hdefining, Machine.defining, Machine.loaderAt, Array.getD, dif_pos hl]
      rfl
    rw [hsame]
    refine leads_check_bind (fun hmarked _ => ?_) fun hfree => ?_
    · -- the name is marked already, so it leads to itself
      exact ⟨_, .refl, hmarks _ (by simpa using hmarked)⟩
    · have hfree : cf.className ∉ marks := by simpa using hfree
      have hbegin := alike_beginDefine m 0 cf.className
      have hbegun : (m.beginDefine 0 cf.className).defining 0 = cf.className :: marks := by
        rw [defining_beginDefine m hl, if_pos rfl, hdefining]
      have hunmarked : cf.className ∉ g.marked 0 := fun hmem => hfree (hdefining ▸ hg.marked 0 hmem)
      refine leads_between (leads_search_marked h hfound hplain hunmarked (hload cf hfound hfree))
        (fun hholds => ⟨⟨hm.alike hbegin, ?_⟩, ?_, hbegun⟩) (fun m' hholds hholds' hstep => ?_) (fun _ => id)
        (fun _ => id) fun _ _ _ => id
      · refine hg.trans ⟨fun l' => ?_, (Evolves.alike (g := g) hm hbegin).isSome_loaded?⟩
        change m.defining l' ⊆ (m.beginDefine 0 cf.className).defining l'
        rw [defining_beginDefine m hl]
        split
        · exact List.subset_cons_self ..
        · exact List.Subset.refl _
      · refine hholds.2.1.kept rfl .refl (fun n => ?_) rfl (fun _ => rfl) ⟨rfl, rfl⟩
        rw [Machine.loaded?, hbegin.known, Machine.loaded?]
      · have hstep := expands_marked hm hl hstep
        refine ⟨⟨hstep.holds hg, hholds'.2.1.kept rfl .refl (fun n => ?_) rfl (fun _ => rfl) ⟨rfl, rfl⟩, ?_⟩, hstep⟩
        · rw [Machine.loaded?, (alike_endDefine m' 0 cf.className).known, Machine.loaded?]
        · exact (congrFun hstep.defining 0).trans hdefining

theorem leads_search_file (h : Loads s) (hne : name ≠ "") (hplain : name.startsWith "[" = false)
    (hunknown : m.loaded? 0 name = none) (hmarks : ∀ n ∈ marks, Relation.TransGen b.MayDeclare n name)
    (hload : ∀ cf, Found b name cf → name ∉ marks → ∀ n ∈ cf.supertypeNames, ∀ m,
      Leads (searching g b (name :: marks) enough name) (s.load 0 n) m fun _ _ => True) :
    Leads (searching g b marks enough name) (loadFile s name) m fun _ _ => True := by
  refine .intro fun ⟨⟨hm, hg⟩, hseeking, hdefining⟩ => ?_
  have hnone : b.loaded? 0 name = none := by
    refine Option.not_isSome_iff_eq_none.1 fun hsome => ?_
    have hknown := hseeking.known name hsome
    rw [hunknown] at hknown
    cases hknown
  have hsteady (storage : Storage) : Steady m { m with storage } :=
    .ofSame (List.suffix_refl _) rfl rfl rfl rfl rfl rfl rfl
  have hholds (storage : Storage) (hnext : m.options.classPath.next m.storage name = storage) :
      (searching g b marks enough name).holds { m with storage } ∧ Expands g True m { m with storage } := by
    have hexpanding : (expanding g True).holds m := ⟨hm, hg⟩
    obtain ⟨hholds, hstep⟩ := Expands.steady hexpanding (hsteady storage)
    refine ⟨⟨hholds, hseeking.kept rfl ?_ (fun _ => rfl) rfl (fun _ => rfl) ⟨rfl, rfl⟩, hdefining⟩, hstep⟩
    rw [← hnext, hseeking.options]
    exact .next name .refl
  unfold loadFile
  rw [leads_get_bind]
  refine Leads.bind (P := fun r m' => ∀ data source, r = .ok (data, source) → ∀ cf, ClassFile.parse data = .ok cf →
    cf.className = name → Found b name cf) (leads_onStorage (fun a storage hread _ => ?_) fun f storage hread _ => ?_) ?_
  · obtain ⟨hholds, hstep⟩ := hholds storage (by rw [Entry.next, hread])
    refine ⟨hholds, hstep, ?_⟩
    rintro data source ⟨⟩ cf hcf hname
    have hfile : b.options.classPath.file? m.storage name = some cf := by
      rw [← hseeking.options, Entry.file?, hread]
      dsimp only
      rw [hcf]
      simp [Except.toOption, hname]
    refine ⟨hname, hseeking.storage.classFiles ▸ (Entry.mem_classFiles hfile).1, m.storage, hseeking.storage, ?_⟩
    rw [Machine.declares, if_neg (Bool.eq_false_iff.1 hplain), hnone, hfile]
    rfl
  · obtain ⟨hholds, hstep⟩ := hholds storage (by rw [Entry.next, hread])
    refine ⟨hholds, hstep, fun data source hfailed => ?_⟩
    cases hfailed
  · intro r m' _ hfound
    split
    · exact leads_throw (Contract.Fair.fails _ _ _ (by decide))
    · next data source => exact leads_search_define h hne hplain hmarks (hfound data source rfl) hload

/-! ### Array classes -/

theorem leads_search_described (h : Loads s) (hfield : Descriptor.isField (name.drop 1).toString)
    (hload : ∀ n ∈ elementNames name, ∀ m, Leads (searching g b marks enough name) (s.load 0 n) m fun _ _ => True) :
    Leads (searching g b marks enough name) (describedClass s 0 (name.drop 1).toString) m fun c m' =>
      (c.index < m'.classes.size ∧ (m'.classAt c).loader = 0) ∧
        (m'.classAt c).DescribedBy (name.drop 1).toString ∧ ∀ n ∈ elementNames name, (m'.loaded? 0 n).isSome := by
  have hnames {n : String} (hn : n ∈ elementNames name) :
      (name.drop 1).toString.length ≠ 1 ∧ n = Descriptor.toClassName (name.drop 1).toString := by
    unfold elementNames at hn
    dsimp only at hn
    split at hn
    · next hlength => exact ⟨hlength.2, List.mem_singleton.1 hn⟩
    · cases hn
  have hknown : Leads (searching g b marks enough name) (describedClass s 0 (name.drop 1).toString) m fun _ m' =>
      ∀ n ∈ elementNames name, (m'.loaded? 0 n).isSome := by
    unfold describedClass
    split
    · next letter hletter =>
      rw [leads_get_bind]
      refine leads_some! fun c _ _ n hn => absurd ?_ (hnames hn).1
      rw [← String.length_toList, hletter]
      rfl
    · next hlong =>
      have hlength : (name.drop 1).toString.length ≠ 1 := by
        rw [← String.length_toList, ne_eq, List.length_eq_one_iff]
        rintro ⟨c, hc⟩
        exact hlong c hc
      have hmem : Descriptor.toClassName (name.drop 1).toString ∈ elementNames name := by
        unfold elementNames
        dsimp only
        rw [if_pos ⟨hfield, hlength⟩]
        exact List.mem_singleton_self _
      refine ((hload _ hmem m).and (h.load g 0 _ m) (·.1)).mono fun c m' _ _ ⟨_, hloaded⟩ n hn => ?_
      rw [(hnames hn).2, hloaded.latest rfl]
      rfl
  exact (hknown.and (leads_describedClass (g := g) h) (·.1)).mono
    fun c m' _ _ ⟨hknown, ⟨hvalid, hloader⟩, hdescribed, _⟩ => ⟨⟨hvalid, hloader rfl⟩, hdescribed, hknown⟩

theorem leads_search_array (h : Loads s) (harray : name.startsWith "[")
    (hload : ∀ n ∈ elementNames name, ∀ m, Leads (searching g b marks enough name) (s.load 0 n) m fun _ _ => True)
    (hcore : ∀ n ∈ coreNames, ∀ m, Leads (searching g b marks enough name) (s.loadBoot n) m
      fun c m' => m.loaded? 0 n = some c ∧ m' = m) :
    Leads (searching g b marks enough name) (arrayClass s 0 name) m fun _ _ => True := by
  unfold arrayClass
  dsimp only
  refine leads_failIf_bind (by decide) fun hfield => ?_
  have hfield : Descriptor.isField (name.drop 1).toString := by simpa using hfield
  refine (leads_search_described h hfield hload).bind
    fun component m₁ _ ⟨⟨hvalid, hloader⟩, hdescribed, helements⟩ => ?_
  rw [leads_classAt_bind, leads_get_bind, hloader]
  refine .intro fun ⟨⟨hm, hg⟩, hseeking, hdefining⟩ => ?_
  split
  · next c hc =>
    obtain ⟨hc', hnamed, -⟩ := hm.named 0 name c (Machine.mem_of_loaded? hc)
    have hstep : Expands g True m₁ (m₁.record 0 name c) := expands_record hm hg hc' hnamed fun _ => hc
    refine Leads.bind (P := fun _ _ => True) (leads_modify fun _ => ⟨⟨hstep.holds hg, ?_, ?_⟩, hstep, trivial⟩)
      fun _ _ _ _ => leads_pure fun _ => trivial
    · exact hseeking.kept rfl .refl (Machine.loaded?_record fun _ => hc) rfl (fun _ => rfl) ⟨rfl, rfl⟩
    · exact (congrFun hstep.defining 0).trans hdefining
  · next hunknown =>
    -- the supertypes are known, so nothing comes between the look and the admission
    refine (hcore _ (by decide) m₁).bind ?_
    rintro object m₁ - ⟨hobject, rfl⟩
    refine (hcore _ (by decide) m₁).bind ?_
    rintro cloneable m₁ - ⟨hcloneable, rfl⟩
    refine (hcore _ (by decide) m₁).bind ?_
    rintro serializable m₁ - ⟨hserializable, rfl⟩
    iterate 4 rw [leads_classAt_bind]
    have hanswers {n : String} {c : ClassId} (hc : m₁.loaded? 0 n = some c) : m₁.Answers 0 n c := by
      obtain ⟨hc', hnamed, -⟩ := hm.named 0 n c (Machine.mem_of_loaded? hc)
      exact ⟨hc', hnamed, fun _ => Machine.mem_of_loaded? hc⟩
    have hobject := hanswers hobject
    let k := arrayOf m₁ name 0 component object cloneable serializable
    have hadmits : Admissible g m₁ (arrayPlaced m₁ k) := by
      refine admissible_array harray hfield hm.boot.1 hvalid ⟨hloader, hdescribed⟩ ⟨hobject, ?_⟩ (hanswers hcloneable)
        (hanswers hserializable) (fun _ _ => hunknown) fun _ hchars hsettled => ?_
      · refine hobject.component hm fun hplain => ?_
        have hname := hplain.name
        rw [hobject.named] at hname
        exact absurd hname (by decide +kernel)
      · have hsome := hm.strings.1 hseeking.strings.1
        rw [← hchars, hunknown] at hsome
        cases hsome
    have hboot : (arrayPlaced m₁ k).Booted := ⟨rfl, nofun⟩
    have hadd : Expands g True m₁ (m₁.addArrayClass k 0).2 :=
      (expands_addArrayClass hm hg hadmits (Option.some_ne_none component) nofun (fun _ => rfl) fun _ => rfl).1
    have hadded : (m₁.addArrayClass k 0).2 = arrayAdmitted m₁ k := by
      have hown : 0 = k.loader := rfl
      rw [addArrayClass_eq, if_pos hown]
    refine leads_modifyGet fun _ => ⟨⟨hadd.holds hg, ?_, (congrFun hadd.defining 0).trans hdefining⟩, hadd, trivial⟩
    have hseeking : b.Seeking (arrayAdmitted m₁ k) := by
      refine hseeking.admitted hm hadmits hboot hunknown (fun hplain => ?_) fun _ => helements
      have hplain : name.startsWith "[" = false := hplain
      rw [harray] at hplain
      cases hplain
    rw [← hadded] at hseeking
    exact hseeking

end Linking

/-! ### Levels -/

namespace Interpreter

/-- At a level that is enough a search comes to an end, and from any level on it leads on as it has to. -/
theorem leads_search {level : Nat} (hdepth : enough → b.storage.depth marks name ≤ level)
    (hmarks : ∀ n ∈ marks, Relation.TransGen b.MayDeclare n name) :
    Leads (searching g b marks enough name) ((services Natives.standard level).loadBoot name) m fun _ _ => True := by
  induction level generalizing marks name m with
  | zero =>
    refine ⟨fun hm => ⟨hm, step_refl hm, fun he => absurd (hdepth he) ?_⟩⟩
    unfold Storage.depth
    omega
  | succ level ih =>
    have hloads := (growing_services level).2
    have hnext {n : String} (hn : b.MayDeclare name n) {marks' : List String}
        (hdepth' : enough → b.storage.depth marks' n ≤ level) (hmarks' : ∀ n' ∈ marks', n' = name ∨ n' ∈ marks) (m : Machine) :
        Leads (searching g b marks' enough name) ((services Natives.standard level).load 0 n) m fun _ _ => True := by
      refine (ih hdepth' fun n' hn' => ?_).under id (fun _ _ hh hs => ⟨hh, hs⟩) (fun f hf hcircular => ?_) fun _ => id
      · rcases hmarks' n' hn' with rfl | hn'
        · exact .single hn
        · exact (hmarks n' hn').tail hn
      · exact (hf hcircular).head hn
    change Leads _ (Linking.loadClass (services Natives.standard level) 0 name) m _
    unfold Linking.loadClass
    rw [leads_get_bind]
    split
    · exact leads_pure fun _ => trivial
    · next hunknown =>
      split
      · exact leads_fail (by decide)
      · next hne =>
        split
        · next harray =>
          refine Linking.leads_search_array hloads harray (fun n hn => ?_) fun n hn m => ?_
          · refine hnext ⟨b.storage, .refl, ?_⟩ (fun he => ?_) fun n' hn' => .inr hn'
            · rw [Machine.declares, if_pos harray]
              exact hn
            · have hlt : b.storage.depth marks n < b.storage.depth marks name := Storage.depth_element harray hn
              have hle := hdepth he
              omega
          · refine .intro fun ⟨_, hseeking, _⟩ => ?_
            obtain ⟨c, hc⟩ := Option.isSome_iff_exists.1 (hseeking.core n hn)
            cases level with
            | zero =>
              refine ⟨fun hm => ⟨hm, step_refl hm, fun he => absurd (hdepth he) ?_⟩⟩
              obtain ⟨hlength, hpos⟩ := Storage.arrayNameLength_of_startsWith harray
              unfold Storage.depth
              omega
            | succ level =>
              refine (Resolution.knows_services level m n c hc).leads.mono ?_
              rintro _ _ - - ⟨rfl, rfl⟩
              exact ⟨hc, rfl⟩
        · next hplain =>
          have hplain := Bool.eq_false_iff.2 hplain
          refine .intro fun ⟨⟨hm, _⟩, _⟩ => ?_
          rw [leads_loaderMirror_bind, hm.boot.2]
          refine Linking.leads_search_file hloads hne hplain hunknown hmarks fun cf hfound hfree n hn => ?_
          obtain rfl := hfound.named
          refine hnext (hfound.mayDeclare hn) (fun he => ?_) fun n' hn' => List.mem_cons.1 hn'
          have hlt := Storage.depth_supertype hfound.stored hfree hn
          have hle := hdepth he
          omega

end Interpreter

end JavaMachine
