import JavaMachine.Proofs.Loading.Definition

/-!
Array classes in a machine that grows. Three classes are loaded between the look whether an array class is there
and its admission. They bring no array class but that of the char arrays, which is why there can be several of
those until one is settled. Main result: `leads_arrayClass`.
-/

namespace JavaMachine

open M Attempt

variable {g : Guard} {asked : Prop} {m : Machine} {s : Services}

/-- Only the class of char arrays is named like an array class. -/
def Class.Ordinary (k : Class) : Prop := k.name.startsWith "[" → k.name = Machine.charArrayName

/-- What loads of classes lead to that are not named like arrays. -/
theorem Loads.loadOrdinary (h : Loads s) {name : String} (hname : name.startsWith "[" = false) :
    Leads (expanding g asked) (s.loadBoot name) m fun c m' =>
      m'.Answers 0 name c ∧ (m'.classAt c).component = none ∧ Adds Class.Ordinary m m' ∧ Adds Class.Plain m m' := by
  refine .intro fun hm => ((h.load g 0 name m).mono fun c m' hm' hstep hc => ?_).expanding hm.2 (.refl g)
    fun _ => rfl
  have hcomponent : (m'.classAt c).component = none := by
    refine hc.answers.component hm'.1 fun harray => ?_
    have harray := harray.name
    rw [hc.answers.named, hname] at harray
    cases harray
  have hplain := hc.plain rfl (.inl hcomponent)
  refine ⟨hc.answers, hcomponent, fun k hk hk' harray => hplain k hk hk' fun hnone => ?_, hplain⟩
  rw [(hstep.booted rfl k hk hk').named hnone] at harray
  cases harray

namespace Linking

/-- The class of the elements: a primitive class or one that the loader answers with. -/
theorem leads_describedClass (h : Loads s) {l : Nat} {desc : String} :
    Leads (expanding g (l = 0)) (describedClass s l desc) m fun c m' =>
      (c.index < m'.classes.size ∧ (l = 0 → (m'.classAt c).loader = 0)) ∧ (m'.classAt c).DescribedBy desc ∧
        (desc = "C" → m' = m) := by
  unfold describedClass
  split
  · next letter hletter =>
    rw [leads_get_bind]
    refine leads_some! fun c hc hm => ?_
    obtain ⟨n, hn, hlookup⟩ := Option.bind_eq_some_iff.1 hc
    obtain ⟨_, _, hlist, -⟩ := List.lookup_eq_some_iff.1 hlookup
    obtain ⟨hvalid, hloader, -, letter', hprimitive, hn'⟩ := hm.1.primitives n c (by simp [hlist])
    have hsame := (Descriptor.of_primitiveName? hn).2.1.symm.trans (Descriptor.of_primitiveName? hn').2.1
    obtain rfl := Option.some_inj.1 hsame
    refine ⟨⟨hvalid, fun _ => hloader⟩, ⟨fun letter' hletter' => ?_, fun hlong => absurd hletter (hlong letter)⟩,
      fun _ => rfl⟩
    rw [hletter] at hletter'
    cases hletter'
    exact hprimitive
  · next hlong =>
    refine (h.load g l _ m).mono fun c m' hm _ hc => ⟨⟨hc.answers.valid, fun hl => ?_⟩, ?_, ?_⟩
    · exact ((hm.1.named 0 _ c (hc.answers.known hl)).2.2 rfl).1
    · exact ⟨fun letter hletter => absurd hletter (hlong letter), fun _ => hc.answers.named⟩
    · rintro rfl
      exact absurd rfl (hlong 'C')

/-! ## Admission -/

/-- An array class as it is admitted. -/
def arrayPlaced (m : Machine) (k : Class) : Class :=
  { k.placed ⟨m.classes.size⟩ (m.inherited k) with instanceSlots := 0 }

/-- An array class is added to the machine and to its own loader. -/
def arrayAdmitted (m : Machine) (k : Class) : Machine :=
  m.admitted (arrayPlaced m k) (.state ⟨m.classes.size⟩ k.state :: m.journal)

/-- An array class is admitted, and the loader that was asked for it is told of it. -/
theorem addArrayClass_eq (m : Machine) (k : Class) (l : Nat) :
    m.addArrayClass k l =
      (⟨m.classes.size⟩,
        if l = k.loader then arrayAdmitted m k else (arrayAdmitted m k).record l k.name ⟨m.classes.size⟩) := by
  simp only [Machine.addArrayClass, Machine.addClass, modify_push]
  rfl

/-- The class of arrays of a name, with its component and its supertypes. -/
def arrayOf (m : Machine) (name : String) (owner : Nat) (component object cloneable serializable : ClassId) : Class where
  name := name
  flags := ⟨((m.classAt component).flags.bits &&& Flags.publicMask) ||| Flags.finalMask ||| Flags.abstractMask⟩
  loader := owner
  superName := (m.classAt object).name
  interfaceNames := [(m.classAt cloneable).name, (m.classAt serializable).name]
  super := some object
  interfaces := [cloneable, serializable]
  state := .initialized
  component := some component

theorem and_arrayFlags (bits mask : UInt16) :
    ((bits &&& Flags.publicMask) ||| Flags.finalMask ||| Flags.abstractMask) &&& mask =
      (bits &&& (Flags.publicMask &&& mask)) ||| (Flags.finalMask &&& mask) ||| (Flags.abstractMask &&& mask) := by
  apply UInt16.toBitVec_inj.1
  simp only [UInt16.toBitVec_and, UInt16.toBitVec_or, BitVec.and_or_distrib_right, BitVec.and_assoc]

theorem final_arrayFlags (bits : UInt16) :
    (⟨(bits &&& Flags.publicMask) ||| Flags.finalMask ||| Flags.abstractMask⟩ : Flags).isFinal = true := by
  have hpublic : Flags.publicMask &&& Flags.finalMask = 0 := by decide
  rw [Flags.isFinal, Flags.has, and_arrayFlags, hpublic, UInt16.and_zero]
  decide

theorem interface_arrayFlags (bits : UInt16) :
    (⟨(bits &&& Flags.publicMask) ||| Flags.finalMask ||| Flags.abstractMask⟩ : Flags).isInterface = false := by
  have hpublic : Flags.publicMask &&& Flags.interfaceMask = 0 := by decide
  rw [Flags.isInterface, Flags.has, and_arrayFlags, hpublic, UInt16.and_zero]
  decide

theorem admissible_array {name : String} {owner : Nat} {component object cloneable serializable : ClassId}
    (hname : name.startsWith "[") (hfield : Descriptor.isField (name.drop 1).toString)
    (hhome : owner < m.loaders.size) (hcomponent : component.index < m.classes.size)
    (helement : (m.classAt component).loader = owner ∧ (m.classAt component).DescribedBy (name.drop 1).toString)
    (hobject : m.Answers 0 Machine.objectName object ∧ (m.classAt object).component = none)
    (hcloneable : m.Answers 0 "java/lang/Cloneable" cloneable)
    (hserializable : m.Answers 0 "java/io/Serializable" serializable)
    (hunknown : owner = 0 → name ≠ Machine.charArrayName → m.loaded? 0 name = none)
    (hunsettled : owner = 0 → name = Machine.charArrayName → ¬ g.settled) :
    Admissible g m (arrayPlaced m (arrayOf m name owner component object cloneable serializable)) where
  home := hhome
  laid := by
    refine ⟨?_, nofun, ?_, rfl, nofun, nofun, rfl, ?_, fun _ => ⟨?_, ?_, rfl, hname, hfield, ?_, ?_⟩,
      nofun, ?_⟩
    · rintro _ ⟨⟩
      exact ⟨hobject.1.valid, rfl, hobject.2⟩
    · exact List.forall_mem_cons.2 ⟨hcloneable.valid, List.forall_mem_singleton.2 hserializable.valid⟩
    · rintro _ ⟨⟩
      exact hcomponent
    · exact final_arrayFlags _
    · exact interface_arrayFlags _
    · exact hobject.1.named
    · change [(m.classAt cloneable).name, (m.classAt serializable).name] = _
      rw [hcloneable.named, hserializable.named]
    · rintro _ ⟨⟩
      exact helement
  primitive := rfl
  owns := ⟨nofun, nofun⟩
  pool := fun _ he => absurd he (Array.not_mem_empty _)
  unmarked := nofun
  known _ := by
    refine List.forall_mem_cons.2 ⟨⟨_, hobject.1.known rfl⟩, List.forall_mem_cons.2 ⟨⟨_, hcloneable.known rfl⟩, ?_⟩⟩
    exact List.forall_mem_singleton.2 ⟨_, hserializable.known rfl⟩
  unknown := hunknown
  unsettled := hunsettled

/-- A loader that is told of a class grows as a load does. -/
theorem expands_record {l : Nat} {name : String} {c : ClassId} (hm : m.Sound) (hg : g.Within m.guard)
    (hc : c.index < m.classes.size) (hname : (m.classAt c).name = name) (hboot : l = 0 → m.loaded? 0 name = some c) :
    Expands g asked m (m.record l name c) := by
  have hgrows := Grows.record hm hc hname hboot
  exact ⟨hgrows.evolves.weaken hg, hgrows.defining, fun _ => .ofSize (Nat.le_refl _)⟩

/-- An array class is made, and the loader that was asked for it answers with it. -/
theorem expands_addArrayClass {k : Class} {l : Nat} (hm : m.Sound) (hg : g.Within m.guard)
    (hadmits : Admissible g m (arrayPlaced m k)) (harray : k.component ≠ none) (hstate : k.state ≠ .unlinked)
    (hasked : asked → l = 0) (hl : l = 0 → k.loader = 0) :
    Expands g asked m (m.addArrayClass k l).2 ∧ (m.addArrayClass k l).2.Answers l k.name (m.addArrayClass k l).1 ∧
      (l = 0 → (m.addArrayClass k l).2.loaded? 0 k.name = some (m.addArrayClass k l).1) ∧
      ((m.addArrayClass k l).2.classAt (m.addArrayClass k l).1).component ≠ none ∧
      (k.name = Machine.charArrayName → Adds Class.Plain m (m.addArrayClass k l).2) := by
  have hclass : (arrayAdmitted m k).classAt ⟨m.classes.size⟩ = arrayPlaced m k := by
    rw [arrayAdmitted, Machine.classAt_admitted, if_pos rfl]
  have hstep : Expands g asked m (arrayAdmitted m k) := by
    refine ⟨.admitted hm hadmits (List.suffix_cons ..) (.inr ⟨k.state, hstate, List.mem_cons_self⟩), m.defining_admitted ..,
      fun ha => adds_admitted ⟨hl (hasked ha), fun hnone => absurd hnone harray⟩ _⟩
  have hplain (hname : k.name = Machine.charArrayName) : Adds Class.Plain m (arrayAdmitted m k) :=
    adds_admitted (fun _ => hname) _
  have hvalid : m.classes.size < (arrayAdmitted m k).classes.size := by
    rw [arrayAdmitted, Machine.size_admitted]
    exact Nat.lt_succ_self _
  have hnamed : ((arrayAdmitted m k).classAt ⟨m.classes.size⟩).name = k.name := by
    rw [hclass]
    rfl
  have hcomponent : ((arrayAdmitted m k).classAt ⟨m.classes.size⟩).component ≠ none := by
    rwa [hclass]
  rw [addArrayClass_eq]
  dsimp only
  split
  · next hsame =>
    have hlatest (hboot : l = 0) : (arrayAdmitted m k).loaded? 0 k.name = some ⟨m.classes.size⟩ := by
      rw [Machine.loaded?, arrayAdmitted, Machine.classes_admitted, if_pos ⟨hl hboot, hadmits.home⟩]
      exact List.lookup_cons_self
    exact ⟨hstep, ⟨hvalid, hnamed, fun hboot => Machine.mem_of_loaded? (hlatest hboot)⟩, hlatest, hcomponent, hplain⟩
  · next hother =>
    have hboot : l ≠ 0 := fun hboot => hother (hboot.trans (hl hboot).symm)
    have hrecord : Expands g asked (arrayAdmitted m k) _ :=
      expands_record hstep.evolves.sound (hg.trans hstep.guard) hvalid hnamed fun h => absurd h hboot
    exact ⟨hstep.trans hrecord, ⟨hvalid, hnamed, fun h => absurd h hboot⟩, fun h => absurd h hboot, hcomponent,
      hplain⟩

theorem leads_arrayClass (h : Loads s) {l : Nat} {name : String} (hname : name.startsWith "[")
    (hunknown : l = 0 → m.loaded? 0 name = none) :
    Leads (expanding g (l = 0)) (arrayClass s l name) m (Loaded l name m) := by
  have helement (hn : name = Machine.charArrayName) : (name.drop 1).toString = "C" := by
    rw [hn]
    decide +kernel
  unfold arrayClass
  generalize hdrop : (name.drop 1).toString = element at helement ⊢
  refine .intro fun ⟨hm, _⟩ => leads_failIf_bind (by decide) fun hfield => ?_
  refine (leads_describedClass h).bind fun component m₁ hstep₁ ⟨⟨hvalid, hboot⟩, hdescribed, hchars⟩ => ?_
  rw [leads_classAt_bind, leads_get_bind]
  refine .intro fun ⟨hm₁, hg₁⟩ => ?_
  split
  · next c hc =>
    -- the array class came with its component
    obtain ⟨hc', hnamed, -⟩ := hm₁.named _ _ c (Machine.mem_of_loaded? hc)
    have hknown (hl : l = 0) : m₁.loaded? 0 name = some c := hboot hl ▸ hc
    have hstep : Expands g (l = 0) m₁ (m₁.record l name c) := expands_record hm₁ hg₁ hc' hnamed hknown
    refine Leads.bind (P := fun _ m' => m' = m₁.record l name c)
      (leads_modify fun hm => ⟨hstep.holds hm.2, hstep, rfl⟩) ?_
    rintro - _ - rfl
    have hlatest (hl : l = 0) : (m₁.record l name c).loaded? 0 name = some c :=
      (Machine.loaded?_record hknown name).trans (hknown hl)
    refine leads_pure fun _ => ⟨⟨hc', hnamed, fun hl => Machine.mem_of_loaded? (hlatest hl)⟩, hlatest,
      fun hl hor => absurd hor (not_or.2 ⟨fun hnone => ?_, ?_⟩)⟩
    · have hnew := hstep₁.evolves.le_of_unknown hm (hunknown hl) (Machine.mem_of_loaded? (hknown hl))
      have hplain := (hstep₁.booted hl c hnew hc').named hnone
      rw [show (m₁.classAt c).plan.name = (m₁.classAt c).name from rfl, hnamed, hname] at hplain
      cases hplain
    · intro hn
      have hnone := hunknown hl
      rw [← hchars (helement hn), hknown hl] at hnone
      cases hnone
  · next hunknown₁ =>
    refine (h.loadOrdinary (by decide +kernel)).bind fun object m₂ hstep₂ ⟨hobject, hnone, hordinary₂, hplain₂⟩ => ?_
    refine (h.loadOrdinary (by decide +kernel)).bind fun cloneable m₃ hstep₃ ⟨hcloneable, _, hordinary₃, hplain₃⟩ => ?_
    refine (h.loadOrdinary (by decide +kernel)).bind
      fun serializable m₄ hstep₄ ⟨hserializable, _, hordinary₄, hplain₄⟩ => ?_
    iterate 4 rw [leads_classAt_bind]
    have hsucc₃ := hstep₃.evolves.toSucceeds
    have hsucc₄ := hstep₄.evolves.toSucceeds
    have hordinary := (hordinary₂.trans hordinary₃ hsucc₃).trans hordinary₄ hsucc₄
    have hplain := (hplain₂.trans hplain₃ hsucc₃).trans hplain₄ hsucc₄
    have hstep := (hstep₂.trans hstep₃).trans hstep₄
    refine leads_modifyGet fun ⟨hm₄, hg₄⟩ => ?_
    let k := arrayOf m₄ name (m₁.classAt component).loader component object cloneable serializable
    have hadmits : Admissible g m₄ (arrayPlaced m₄ k) := by
      have hsucc := hstep.evolves.toSucceeds
      refine admissible_array hname ?_ ?_ (Nat.lt_of_lt_of_le hvalid hstep.evolves.size) ⟨hsucc.loader hvalid, ?_⟩
        ⟨(hobject.mono hstep₃.evolves).mono hstep₄.evolves, ?_⟩ (hcloneable.mono hstep₄.evolves) hserializable
        (fun howner hne => ?_) fun howner hn hset => ?_
      · rw [hdrop]
        simpa using hfield
      · exact Nat.lt_of_lt_of_le (hm₁.homes component hvalid).1 hstep.evolves.loaders
      · rw [hdrop]
        exact hdescribed.same (hsucc.primitive hvalid) (hsucc.name hvalid)
      · exact ((hsucc₃.trans hsucc₄).component hobject.valid).trans hnone
      · refine Option.not_isSome_iff_eq_none.1 fun hsome => hne ?_
        obtain ⟨c, hc⟩ := Machine.exists_mem_of_isSome hsome
        obtain ⟨hc', hnamed, -⟩ := hm₄.named 0 name c hc
        have hnew := hstep.evolves.le_of_unknown hm₁ (howner ▸ hunknown₁) hc
        have hord : (m₄.classAt c).name.startsWith "[" → (m₄.classAt c).name = Machine.charArrayName :=
          hordinary c hnew hc'
        exact hnamed ▸ hord (hnamed ▸ hname)
      · have hsome : (m₁.loaded? 0 Machine.charArrayName).isSome := hg₁.settled hset
        rw [← hn, ← howner, hunknown₁] at hsome
        cases hsome
    obtain ⟨hadd, hanswers, hlatest, harray, hplain'⟩ := expands_addArrayClass hm₄ hg₄ hadmits
      (Option.some_ne_none component) nofun id hboot
    refine ⟨hadd.holds hg₄, hadd, hanswers, hlatest, fun hl hor => ?_⟩
    have hn := hor.resolve_left harray
    rw [hchars (helement hn)] at hplain
    exact hplain.trans (hplain' hn) hadd.evolves.toSucceeds

end Linking

end JavaMachine
