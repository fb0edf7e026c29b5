import JavaMachine.Proofs.Loading.Admission
import JavaMachine.Proofs.Loading.Leads
import Mathlib.Data.List.Forall2

/-!
The steps of a definition, one lemma for each: what they lead to if the loads that they make do. Each is stated for
any contract, so that different properties of loading share the walk through the code. What is gained along the way
to a value is a relation of its own, for not every load that is made for a definition gains it.
-/

namespace JavaMachine

open M Attempt

/-- A relation between machines that adds up along the steps of a contract. -/
structure Contract.Gain (C : Contract) (R : Machine → Machine → Prop) : Prop where
  steady : ∀ {a b}, Steady a b → R a b
  trans : ∀ {a b c}, C.step b c → R a b → R b c → R a c

/-- What is gained under a condition. -/
theorem Contract.Gain.imp {C : Contract} {R : Machine → Machine → Prop} (h : C.Gain R) (p : Prop) :
    C.Gain fun a b => p → R a b where
  steady hs _ := h.steady hs
  trans hs hr hr' hp := h.trans hs (hr hp) (hr' hp)

namespace Linking

variable {C : Contract} [C.Fair] {s : Services} {m : Machine} {k : Class} {R : Machine → Machine → Prop}

/-! ## Supertypes -/

theorem leads_accessible_bind {α : Type} {c : ClassId} {f : Bool → Attempt α} {Q : α → Machine → Prop}
    (h : ∀ b, Leads C (f b) m Q) : Leads C (liftM (superclass.accessible k c) >>= f) m Q := by
  have hrun : superclass.accessible k c m = (do
      haltFor (m.elementHalt? c)
      pure (let t := m.classAt (m.elementClass c)
        t.isPrimitive || t.isPublic || (t.loader == k.loader && t.package == k.package))) m := rfl
  refine ⟨fun hm => ?_⟩
  rw [Attempt.run_bind, run_lift, hrun]
  have hstuck := elementHalt?_ne_stuck m c
  generalize m.elementHalt? c = halt at hstuck ⊢
  cases halt with
  | none => exact (h _).outcome hm
  | some halt => exact ⟨hm, step_refl hm, Contract.Fair.halts halt fun hs => hstuck (congrArg some hs)⟩

theorem leads_superclass {P : ClassId → Machine → Prop}
    (hload : k.superName ≠ "" → Leads C (s.load k.loader k.superName) m P) :
    Leads C (superclass s k) m fun super m' =>
      (super = none → k.superName = "" ∧ k.name = Machine.objectName ∧ m' = m) ∧
        ∀ c, super = some c → P c m' ∧ (m'.classAt c).isFinal = false ∧ k.name ≠ Machine.objectName ∧
          (m'.classAt c).isInterface = false ∧ (k.isInterface → (m'.classAt c).name = Machine.objectName) := by
  unfold superclass
  split
  · next hroot =>
    refine leads_failIf_bind (by decide) fun hsuper => leads_pure fun _ => ⟨fun _ => ⟨?_, hroot, rfl⟩, nofun⟩
    simpa using hsuper
  · next hname =>
    refine leads_failIf_bind (by decide) fun hsuper => ?_
    refine (hload (by simpa using hsuper)).bind fun c m' _ hc => ?_
    rw [leads_classAt_bind]
    refine leads_failIf_bind (by decide) fun hclass => leads_failIf_bind (by decide) fun hfinal => ?_
    refine leads_accessible_bind fun _ => leads_failIf_bind (by decide) fun _ => ?_
    refine leads_failIf_bind (by decide) fun hinterface => leads_pure fun _ => ⟨nofun, ?_⟩
    rintro _ ⟨⟩
    exact ⟨hc, hfinal, hname, hclass, fun hk => by simpa [hk] using hinterface⟩

theorem leads_superinterfaces {P : String → ClassId → Machine → Prop} {names : List String} (hR : C.Gain R)
    (hP : ∀ {name c a b}, C.step a b → P name c a → P name c b)
    (hload : ∀ name ∈ names, ∀ m, Leads C (s.load k.loader name) m fun c m' =>
      P name c m' ∧ ((m'.classAt c).isInterface → R m m')) :
    Leads C (superinterfaces s k names) m fun is m' =>
      (List.Forall₂ (P · · m') names is ∧ ∀ i ∈ is, (m'.classAt i).isInterface) ∧ R m m' := by
  induction names generalizing m with
  | nil => exact leads_pure fun _ => ⟨⟨.nil, nofun⟩, hR.steady (.refl m)⟩
  | cons name rest ih =>
    unfold superinterfaces
    refine (hload name List.mem_cons_self m).bind fun c m' _ hc => ?_
    rw [leads_classAt_bind]
    refine leads_failIf_bind (by decide) fun hinterface => ?_
    refine leads_accessible_bind fun _ => leads_failIf_bind (by decide) fun _ => ?_
    refine (ih fun n hn => hload n (List.mem_cons_of_mem _ hn)).bind fun is m'' hstep his => leads_pure fun _ => ?_
    have hinterface : (m'.classAt c).isInterface := by simpa using hinterface
    refine ⟨⟨.cons (hP hstep hc.1) his.1.1, List.forall_mem_cons.2 ⟨?_, his.1.2⟩⟩, hR.trans hstep (hc.2 hinterface) his.2⟩
    have hvalid := m'.lt_of_classAt (P := fun k => k.isInterface) hinterface (by decide)
    rwa [(Contract.Fair.succeeds hstep).part hvalid Class.isInterface fun _ => rfl]

/-! ## Names -/

/-- Definition goes on only under a name that the loader does not know. -/
theorem leads_refuseKnown {l : Nat} {name : String} :
    Leads C (refuseKnown l name) m fun _ m' => m.loaded? l name = none ∧ m' = m := by
  unfold refuseKnown
  rw [leads_get_bind]
  split
  · refine (leads_lift (Q := fun _ _ => True) keeps_loaderText prompt_loaderText fun _ _ _ _ => trivial).bind ?_
    exact fun _ _ _ _ => leads_fail (by decide)
  · next h => exact leads_pure fun _ => ⟨Option.not_isSome_iff_eq_none.1 h, rfl⟩

/-! ## Constants -/

theorem leads_constantSlots (hR : C.Gain R)
    (hstrings : ∀ m, Leads C (ensureStringClasses s) m fun _ m' => R m m') {c : ClassId} {f : Field} :
    Leads C (constantSlots s c f) m fun _ m' => R m m' := by
  have hvalue (v : List Slot) : Leads C (pure v) m fun _ m' => R m m' := leads_pure fun _ => hR.steady (.refl m)
  have hrefuse (text : String → String) :
      Leads C (do Attempt.fail Throwables.classFormat (text (← fieldText f))) m
        fun (_ : List Slot) m' => R m m' :=
    (leads_lift (Q := fun _ _ => True) keeps_fieldText prompt_fieldText fun _ _ _ _ => trivial).bind
      fun _ _ _ _ => leads_fail (by decide)
  have hmismatch := hrefuse fun t => s!"{t}: ConstantValue #{f.constant.toNat} does not match descriptor"
  unfold constantSlots
  rw [leads_classAt_bind]
  split
  case h_6 units _ hentry =>
    split
    · refine (hstrings m).bind fun _ m' hstep hgain => ?_
      refine Leads.bind (P := fun _ m'' => R m m'') ?_ fun _ _ _ hgain => leads_pure fun _ => hgain
      -- the entry is still that of the string
      have hc : c.index < m.classes.size :=
        m.lt_of_classAt (P := fun k => k.pool.getD f.constant.toNat .empty = .string units _) hentry nofun
      have hsame := (Contract.Fair.succeeds hstep).entry hc f.constant.toNat
      rw [hentry] at hsame
      refine Leads.intro fun hm => leads_minor (minor_stringConstant _ hsame) prompt_stringConstant fun _ m'' hminor _ => ?_
      exact hR.trans (Contract.Fair.slight hm hminor.toSlight).2 hgain (hR.steady hminor.toSteady)
    · exact hmismatch
  case h_1 => exact hrefuse fun t => s!"{t}: bad ConstantValue index {f.constant.toNat}"
  case h_7 => exact hmismatch
  all_goals
    split
    · exact hvalue _
    · exact hmismatch

/-- The static variables of a class take slots. -/
theorem minor_putStatics (m : Machine) (c : ClassId) (i : Nat) (slots : List Slot) :
    Minor m { m with
      classes := m.classes.modify c.index fun k => { k with statics := putStatics k.statics i slots } } := by
  refine minor_updateClass (f := fun k => { k with statics := putStatics k.statics i slots }) (fun _ => rfl) ?_ rfl rfl
  rw [Class.plan, size_putStatics]
  rfl

theorem leads_seed (hR : C.Gain R)
    (hstrings : ∀ m, Leads C (ensureStringClasses s) m fun _ m' => R m m') {c : ClassId} {fields : List Field} :
    Leads C (seed s c fields) m fun _ m' => R m m' := by
  induction fields generalizing m with
  | nil => exact leads_pure fun _ => hR.steady (.refl m)
  | cons f rest ih =>
    unfold seed
    split
    · refine (leads_constantSlots hR hstrings).bind fun slots m' _ hgain => ?_
      have hset := minor_putStatics m' c f.slot slots
      refine Leads.bind (P := fun _ m'' => R m m'') ?_ fun _ m'' _ hgain => ?_
      · refine leads_modify fun hm => ?_
        obtain ⟨hholds, hstep⟩ := Contract.Fair.slight hm hset.toSlight
        exact ⟨hholds, hstep, hR.trans hstep hgain (hR.steady hset.toSteady)⟩
      · exact ih.mono fun _ _ _ hstep hrest => hR.trans hstep hgain hrest
    · exact ih

/-- Nothing is set where there are no constants. -/
theorem seed_eq_pure {c : ClassId} {fields : List Field} (h : ¬ ∃ f ∈ fields, f.isStatic ∧ f.constant ≠ 0) :
    seed s c fields = pure () := by
  induction fields with
  | nil => rfl
  | cons f rest ih =>
    have hf : (f.isStatic && f.constant != 0) = false := by
      simpa using fun hs hc => h ⟨f, List.mem_cons_self, hs, hc⟩
    unfold seed
    rw [hf]
    refine ih fun hrest => h ?_
    obtain ⟨f, hf, hconstant⟩ := hrest
    exact ⟨f, List.mem_cons_of_mem _ hf, hconstant⟩

/-! ## Publication -/

/-- A class is added to the machine and to its loader. -/
def published (m : Machine) (k : Class) (state : ClassState) (journal : Journal) : Machine :=
  m.admitted { k.placed ⟨m.classes.size⟩ (m.inherited k) with state } journal

omit [C.Fair] in
/-- The class that is added last enters a state. -/
theorem enter_published (m : Machine) (k : Class) (state state' : ClassState) (j : Journal) (e : Event) :
    (published m k state j).enter ⟨m.classes.size⟩ state' e = published m k state' (e :: j) := by
  rw [published, published, Machine.enter, Machine.admitted]
  dsimp only
  rw [modify_push]
  rfl

omit [C.Fair] in
/-- A class without constants is linked as soon as its loader knows it. -/
theorem run_publish (h : ¬ (k.placed ⟨m.classes.size⟩ (m.inherited k)).HasConstants) :
    (publish s k.loader k).run m = .ok (.ok ⟨m.classes.size⟩) (published m k .linked
      (.state ⟨m.classes.size⟩ .linked :: .state ⟨m.classes.size⟩ k.state :: m.journal)) := by
  have hclass : ((published m k k.state (.state ⟨m.classes.size⟩ k.state :: m.journal)).classAt
      ⟨m.classes.size⟩).fields = (k.placed ⟨m.classes.size⟩ (m.inherited k)).fields := by
    rw [published, Machine.classAt_admitted, if_pos rfl]
  have hseed := seed_eq_pure (s := s) (c := ⟨m.classes.size⟩) h
  have hrun : (publish s k.loader k).run m = (do
      seed s ⟨m.classes.size⟩ ((published m k k.state (.state ⟨m.classes.size⟩ k.state :: m.journal)).classAt
        ⟨m.classes.size⟩).fields
      setState ⟨m.classes.size⟩ .linked
      return (⟨m.classes.size⟩ : ClassId) : Attempt ClassId).run
        (published m k k.state (.state ⟨m.classes.size⟩ k.state :: m.journal)) := rfl
  rw [hrun, hclass, hseed, pure_bind]
  exact congrArg (EStateM.Result.ok (Except.ok _)) (enter_published ..)

theorem leads_publish (hR : C.Gain R) (hstrings : ∀ m, Leads C (ensureStringClasses s) m fun _ m' => R m m')
    (hsteady : ∀ {a b}, C.holds a → Steady a b → b.storage = a.storage → C.holds b ∧ C.step a b)
    (hadmits : ∀ state j, m.journal <:+ j →
      (k.placed ⟨m.classes.size⟩ (m.inherited k)).HasConstants ∨ (published m k state j).Announced ⟨m.classes.size⟩ →
      C.holds m → C.holds (published m k state j) ∧ C.step m (published m k state j)) :
    Leads C (publish s k.loader k) m fun c m' =>
      c = ⟨m.classes.size⟩ ∧ ∃ state j, C.step (published m k state j) m' ∧ R (published m k state j) m' := by
  by_cases hconstants : (k.placed ⟨m.classes.size⟩ (m.inherited k)).HasConstants
  · let added := published m k k.state (.state ⟨m.classes.size⟩ k.state :: m.journal)
    unfold publish
    refine Leads.bind (P := fun c m' => c = ⟨m.classes.size⟩ ∧ m' = added) ?_ ?_
    · refine leads_modifyGet fun hm => ?_
      obtain ⟨hholds, hstep⟩ := hadmits k.state _ (List.suffix_cons ..) (.inl hconstants) hm
      exact ⟨hholds, hstep, rfl, rfl⟩
    · rintro _ _ - ⟨rfl, rfl⟩
      rw [leads_classAt_bind]
      refine (leads_seed hR hstrings).bind fun _ m' hseeded hgain => ?_
      refine Leads.bind (P := fun _ m'' => C.step added m'' ∧ R added m'') ?_
        fun _ _ _ hq => leads_pure fun _ => ⟨rfl, _, _, hq⟩
      have henter := steady_enter m' ⟨m.classes.size⟩ .linked (.state ⟨m.classes.size⟩ .linked)
      refine leads_modify fun hm => ?_
      obtain ⟨hholds, hstep⟩ := hsteady hm henter rfl
      exact ⟨hholds, hstep, Contract.Fair.trans hseeded hstep, hR.trans hstep hgain (hR.steady henter)⟩
  · refine leads_of_run (run_publish hconstants) fun hm => ?_
    have hannounced : (published m k .linked (.state ⟨m.classes.size⟩ .linked ::
        .state ⟨m.classes.size⟩ k.state :: m.journal)).Announced ⟨m.classes.size⟩ :=
      ⟨.linked, nofun, List.mem_cons_self⟩
    obtain ⟨hholds, hstep⟩ := hadmits .linked _
      ((List.suffix_cons ..).trans (List.suffix_cons ..)) (.inr hannounced) hm
    exact ⟨hholds, hstep, rfl, _, _, step_refl hholds, hR.steady (.refl _)⟩

end Linking

end JavaMachine
