import JavaMachine.Proofs.Loading.Attained

/-!
Definitions that fail. A class is known to its loader before its constants are set, so a definition that fails there
leaves it behind: the loader knows a class that is not linked (`Machine.Halfway`). Under the name of an array class, what is
left is an array class, which is complete; and a loader that is written in Java may have been given a class that another has
defined (`Leftover`). A definition that succeeds leaves a linked class.

Main result: `definition_left_halfway`, over all runs; classes are left behind indeed (`load_left_halfway`).
-/

namespace JavaMachine

open M Attempt

variable {m : Machine} {s : Services} {l : Nat} {n : String}

/-- What a loader has defined under a name is a class that is not linked, whose constants could not be set. -/
def Machine.Halfway (m : Machine) (l : Nat) (n : String) : Prop :=
  ∀ c, c.index < m.classes.size → (m.classAt c).loader = l → (m.classAt c).name = n →
    (m.classAt c).component = none → (m.classAt c).primitive = none →
    (m.classAt c).state = .unlinked ∧ (m.classAt c).HasConstants

/-- A loader has defined nothing under a name that it does not know. -/
theorem Machine.Sound.halfway (h : m.Sound) (hn : m.loaded? l n = none) : m.Halfway l n := by
  intro c hc hloader hname _ hprimitive
  have hknown := h.known c hc hprimitive
  rw [hloader, hname] at hknown
  have hsome := isSome_loaded?_of_mem hknown
  rw [hn] at hsome
  cases hsome

/-- A class that was announced is linked from then on. -/
theorem Chronicle.linked (h : Chronicle m) {c : ClassId} (hc : m.Announced c) : (m.classAt c).state ≠ .unlinked := by
  obtain ⟨state, hstate, hmem⟩ := hc
  obtain ⟨later, earlier, hj⟩ := List.append_of_mem hmem
  rw [← h.states c]
  refine h.legal.stateOf_ne_unlinked (j := .state c state :: earlier) ?_ ?_
  · rw [hj]
    exact List.suffix_append ..
  · simpa [Journal.stateOf] using hstate

/-- While a name is being defined and its class is not linked. -/
def halfway (l : Nat) (n : String) : Contract where
  holds m := m.Sound ∧ Chronicle m ∧ n ∈ m.defining l ∧ m.Halfway l n
  step := Succeeds
  fails _ := True
  halts _ := True

/-- Nothing is defined under a name that is marked, and what is not linked stays so. -/
theorem holds_halfway {a b : Machine} (h : (halfway l n).holds a) (he : Expands a.guard False a b)
    (hs : Continued a b) : (halfway l n).holds b ∧ (halfway l n).step a b := by
  obtain ⟨-, -, hmark, hhalf⟩ := h
  refine ⟨⟨he.evolves.sound, hs.chronicle, by rwa [he.defining], fun c hc hloader hname hcomponent hprimitive => ?_⟩,
    he.evolves.toSucceeds⟩
  have hevolves := he.evolves
  rcases Nat.lt_or_ge c.index a.classes.size with hold | hnew
  · rw [hevolves.loader hold] at hloader
    rw [hevolves.name hold] at hname
    rw [hevolves.component hold] at hcomponent
    rw [hevolves.primitive hold] at hprimitive
    obtain ⟨hstate, hconstants⟩ := hhalf c hold hloader hname hcomponent hprimitive
    rw [hevolves.hasConstants hold]
    exact ⟨hs.extend.unlinked c hold hstate, hconstants⟩
  · refine absurd hmark (hname ▸ hloader ▸ hevolves.fresh c hnew hc hcomponent)

instance : (halfway l n).Fair where
  slight h hslight :=
    holds_halfway h (.alike h.1 hslight.toSteady.alike (funext hslight.toSteady.defining))
      (.of_quiet hslight.toQuiet hslight.options h.2.1)
  succeeds := id
  trans := Succeeds.trans
  fails _ _ _ _ := trivial
  halts _ _ := trivial

/-- What loading leads to, while a name is being defined. -/
theorem leads_halfway {α : Type} {act : Attempt α} {Q : α → Machine → Prop}
    (h : Leads (expanding m.guard False) act m Q) (hserved : Attempt.Keeps Served act) :
    Leads (halfway l n) act m Q := by
  refine ⟨fun hm => ?_⟩
  have h := h.outcome ⟨hm.1, .refl _⟩
  have hserved := hserved m
  unfold After at hserved
  have hstep {m' : Machine} (he : Expands m.guard False m m') (hs : Restored m m') := holds_halfway hm he hs.continued
  generalize act.run m = r at *
  rcases r with ⟨_ | _, _⟩ | _
  · exact ⟨(hstep h.2.1 (hserved hm.2.1)).1, (hstep h.2.1 (hserved hm.2.1)).2, trivial⟩
  · exact ⟨(hstep h.2.1 (hserved hm.2.1)).1, (hstep h.2.1 (hserved hm.2.1)).2, h.2.2⟩
  · exact ⟨(hstep h.2.1 (hserved hm.2.1)).1, (hstep h.2.1 (hserved hm.2.1)).2, trivial⟩

namespace Linking

/-! ## Publication -/

/-- A class with constants is not linked when its loader comes to know it. -/
theorem halfway_published {g : Guard} {k : Class} (hm : (halfway k.loader k.name).holds m) (hk : k.state = .unlinked)
    (hadmits : Admissible g m { k.placed ⟨m.classes.size⟩ (m.inherited k) with state := k.state })
    (hconstants : (k.placed ⟨m.classes.size⟩ (m.inherited k)).HasConstants) :
    (halfway k.loader k.name).holds (published m k k.state (.state ⟨m.classes.size⟩ k.state :: m.journal)) := by
  obtain ⟨hsound, hchronicle, hmark, hhalf⟩ := hm
  refine ⟨hsound.admitted hadmits (List.suffix_cons ..) (.inl hconstants), (hchronicle.addClass (.inl hk)).congr rfl rfl,
    ?_, fun c hc hloader hname hcomponent hprimitive => ?_⟩
  · rwa [published, Machine.defining_admitted]
  · rcases Machine.lt_or_eq_of_admitted hc with hold | rfl
    · have hclass : (published m k k.state (.state ⟨m.classes.size⟩ k.state :: m.journal)).classAt c = m.classAt c := by
        rw [published, Machine.classAt_admitted, if_neg (Nat.ne_of_lt hold)]
      rw [hclass] at hloader hname hcomponent hprimitive ⊢
      exact hhalf c hold hloader hname hcomponent hprimitive
    · rw [classAt_published]
      exact ⟨hk, hconstants⟩

/-- The class is linked in the end, or setting its constants ended before. -/
theorem ends_publish (h : Loads s) (hserved : Hosted Served s) {k : Class} (hm : (halfway k.loader k.name).holds m)
    (hk : k.state = .unlinked)
    (hadmits : ∀ state, Admissible ⟨fun _ => [], False⟩ m { k.placed ⟨m.classes.size⟩ (m.inherited k) with state }) :
    Ends (publish s k.loader k) m (fun c m' => (m'.classAt c).state = .linked) (·.Halfway k.loader k.name) := by
  by_cases hconstants : (k.placed ⟨m.classes.size⟩ (m.inherited k)).HasConstants
  · have hadded := halfway_published hm hk (hadmits _) hconstants
    have hstrings (m : Machine) : Leads (halfway k.loader k.name) (ensureStringClasses s) m fun _ _ => True :=
      leads_halfway ((leads_ensureStringClasses h).mono fun _ _ _ _ _ => trivial)
        (keeps_ensureStringClasses hserved)
    have hleads (fields : List Field) (m' : Machine) :
        Leads (halfway k.loader k.name) (seed s ⟨m.classes.size⟩ fields) m' fun _ _ => True :=
      leads_seed (R := fun _ _ => True) ⟨fun _ => trivial, fun _ _ _ => trivial⟩ hstrings
    have hseed (fields : List Field) := (hleads fields _).ends hadded
    unfold publish
    rw [ends_modifyGet_bind]
    change Ends (liftM (classAt ⟨m.classes.size⟩) >>= _) (published m k k.state _) _ _
    refine ends_classAt_bind.2 (((hseed _).mono (fun _ _ => id) fun _ hm' => hm'.1.2.2.2).bind fun _ m' hseeded => ?_)
    refine ⟨?_⟩
    change ((m'.enter ⟨m.classes.size⟩ .linked _).classAt ⟨m.classes.size⟩).state = .linked
    rw [Machine.state_enter, if_pos rfl]
    refine Nat.lt_of_lt_of_le ?_ hseeded.2.1.size
    rw [published, Machine.size_admitted]
    exact Nat.lt_succ_self _
  · refine ⟨?_⟩
    rw [run_publish hconstants]
    change ((published m k .linked _).classAt ⟨m.classes.size⟩).state = .linked
    rw [classAt_published]

/-! ## Definitions -/

theorem ends_reportLoaded {k : Class} {size : Nat} {source : String} {P : Unit → Machine → Prop} {E : Machine → Prop}
    (h : ∀ m' : Machine, m'.classes = m.classes → P () m') : Ends (liftM (reportLoaded k size source)) m P E := by
  refine ends_lift ?_
  unfold reportLoaded
  rw [M.after_bind_iff, after_modify, M.after_bind_iff, after_get]
  split <;> exact h _ rfl

theorem ends_defineMarked (h : Loads s) (hserved : Hosted Served s) {cf : ClassFile} {size : Nat} {source : String}
    (hm : m.Sound) (hchronicle : Chronicle m) (hhome : l < m.loaders.size) (hmarked : cf.className ∈ m.defining l)
    (hunknown : m.loaded? l cf.className = none) :
    Ends (defineMarked s l cf size source) m (fun c m' => (m'.classAt c).state = .linked)
      (·.Halfway l cf.className) := by
  have hstart : (halfway l cf.className).holds m := ⟨hm, hchronicle, hmarked, hm.halfway hunknown⟩
  unfold defineMarked
  refine ((leads_refuseKnown.ends hstart).mono (fun _ _ => id) fun _ hm' => hm'.1.2.2.2).bind fun _ m₀ hsame => ?_
  obtain ⟨-, -, -, rfl⟩ := hsame
  have hfile := Class.gives_ofFile l cf
  split
  · exact ends_throw hstart.2.2.2
  · exact ends_outside hstart.2.2.2
  · next k he =>
    rw [he] at hfile
    have hfile : Class.OfFile l cf k := hfile
    obtain rfl := hfile.loader
    have hunlinked := (of_ofFile he).1
    rw [← hfile.name] at hmarked hunknown hstart ⊢
    have hresolve : Leads (halfway k.loader k.name) (resolveSupertypes s k) m₀ (Resolved m₀ k) :=
      leads_halfway (leads_resolveSupertypes h nofun) (keeps_resolveSupertypes hserved)
    refine ((hresolve.ends hstart).mono (fun _ _ => id) fun _ hm' => hm'.1.2.2.2).bind fun k' m₂ hresolved => ?_
    obtain ⟨hm₂, -, hresolved⟩ := hresolved
    have hadmits := hresolved.admissible (g := ⟨fun _ => [], False⟩) hfile hm ⟨fun _ => nofun, False.elim⟩ hhome hunknown
      hmarked (List.not_mem_nil)
    obtain ⟨⟨super, interfaces, rfl⟩, _⟩ := hresolved
    refine (ends_publish (k := { k with super, interfaces }) h hserved hm₂ hunlinked hadmits).bind fun c m₃ hc => ?_
    refine (ends_reportLoaded fun m₄ hclasses => ?_).bind fun _ m₄ hc => ends_pure hc
    rwa [Machine.classAt, hclasses]

/-- No class but one of a name can come from bytes, where a name may be expected. -/
def Names (data : List UInt8) (expected n : String) : Prop :=
  ∀ cf, ClassFile.parse data = .ok cf → (expected ≠ "" → cf.className = expected) → cf.className = n

theorem ends_defineClass (h : Loads s) (hserved : Hosted Served s) {expected source : String} {data : List UInt8}
    (hm : m.Sound) (hchronicle : Chronicle m) (hn : Names data expected n) :
    Ends (defineClass s l expected data source) m (fun c m' => (m'.classAt c).state = .linked)
      fun m' => m.loaded? l n = none → m'.Halfway l n := by
  unfold defineClass
  split
  · split <;> exact ends_throw hm.halfway
  · next cf he =>
    refine ends_failIf_bind (fun _ => hm.halfway) fun hgiven => ?_
    obtain rfl := hn cf he fun hexpected => by simpa [hexpected] using hgiven
    rw [ends_get_bind]
    refine ends_some!_bind (fun _ => hm.halfway) fun loader hloader => ?_
    refine ends_failIf_bind (fun _ => hm.halfway) fun _ => ?_
    rw [ends_modify_bind]
    have hbegin := alike_beginDefine m l cf.className
    have hsound := hm.alike hbegin
    have hloaded : (m.beginDefine l cf.className).loaded? l cf.className = m.loaded? l cf.className := by
      rw [Machine.loaded?, hbegin.known, Machine.loaded?]
    have hhome : l < m.loaders.size := (Array.getElem?_eq_some_iff.1 hloader).1
    refine ends_ensuring ?_
    by_cases hunknown : m.loaded? l cf.className = none
    · refine (ends_defineMarked h hserved hsound (hchronicle.congr rfl rfl) ?_ ?_ (hloaded.trans hunknown)).mono
        (fun _ _ hc => hc) fun m' hhalf _ => hhalf
      · exact Nat.lt_of_lt_of_le hhome hbegin.loaders
      · rw [defining_beginDefine m hhome, if_pos rfl]
        exact List.mem_cons_self
    · -- what is known is refused
      have hrefuse := @leads_refuseKnown (expanding (m.beginDefine l cf.className).guard False) _
        (m.beginDefine l cf.className) l cf.className
      unfold defineMarked
      refine ((hrefuse.ends ⟨hsound, .refl _⟩).mono (fun _ _ => id) fun _ _ hnone => absurd hnone hunknown).bind
        fun _ _ hnone => ?_
      exact absurd (hloaded.symm.trans hnone.2.2.1) hunknown

theorem ends_define (h : Loads s) (hserved : Hosted Served s) {data : List UInt8} (hm : m.Sound)
    (hchronicle : Chronicle m) (hn : Names data "" n) :
    Ends (define s l data) m (fun c m' => (m'.classAt c).state = .linked)
      fun m' => m.loaded? l n = none → m'.Halfway l n := by
  have hknown {m' : Machine} (hminor : Minor m m') : m'.loaded? l n = m.loaded? l n := by
    rw [Machine.loaded?, hminor.known, Machine.loaded?]
  have hkeeps : M.Keeps (fun _ => Minor) (loaderText l) := keeps_loaderText
  have htext : Ends (liftM (loaderText l)) m (fun _ m' => Minor m m') (Minor m) := ends_lift (hkeeps m)
  unfold define
  refine (htext.mono (fun _ _ => id) fun m' hminor hunknown => ?_).bind fun source m' hminor => ?_
  · exact (hm.alike hminor.toSteady.alike).halfway ((hknown hminor).trans hunknown)
  · refine (ends_defineClass h hserved (hm.alike hminor.toSteady.alike) (hchronicle.of_quiet hminor.toQuiet) hn).mono
      (fun _ _ => id) fun _ hhalf hunknown => hhalf ((hknown hminor).trans hunknown)

/-! ## Loads -/

/-- What an attempt leads to that keeps the chronicle. -/
theorem ends_served {α : Type} {C : Contract} {act : Attempt α} {P : α → Machine → Prop} (h : Leads C act m P)
    (hserved : Attempt.Keeps Served act) (hm : C.holds m) (hchronicle : Chronicle m) :
    Ends act m (fun a m' => (C.holds m' ∧ C.step m m' ∧ P a m') ∧ Chronicle m')
      fun m' => (C.holds m' ∧ C.step m m') ∧ Chronicle m' := by
  have h := (h.ends hm).outcome
  have hserved := hserved m
  refine ⟨?_⟩
  unfold After at hserved
  generalize act.run m = r at *
  rcases r with ⟨_ | _, _⟩ | _ <;> exact ⟨h, (hserved hchronicle).continued.chronicle⟩

/-- Array classes have no constants, so those that come are announced at once. -/
theorem linked_of_array (hm : m.Sound) (hchronicle : Chronicle m) {c : ClassId} (hc : c.index < m.classes.size)
    (harray : (m.classAt c).component ≠ none) : (m.classAt c).state ≠ .unlinked := by
  refine hchronicle.linked ((hm.announced c hc).resolve_left ?_)
  rintro ⟨f, hf, -⟩
  rw [((hm.laid c hc).array harray).fields] at hf
  cases hf

/-- A load that makes an array class leaves nothing half done. -/
theorem ends_arrayClass (h : Loads s) (hserved : Hosted Served s) (hm : m.Sound) (hchronicle : Chronicle m)
    (harray : n.startsWith "[") (hunknown : m.loaded? 0 n = none) :
    Ends (arrayClass s 0 n) m (fun c m' => (m'.classAt c).state ≠ .unlinked) (·.Halfway 0 n) := by
  -- what comes under the name is an array class, for it is named like one
  have hcomponent {m' : Machine} (hs : Expands m.guard (0 = 0) m m') {c : ClassId} (hc : c.index < m'.classes.size)
      (hknown : (n, c) ∈ (m'.loaderAt 0).classes) : (m'.classAt c).component ≠ none := by
    intro hnone
    have hplain := (hs.booted rfl c (hs.evolves.le_of_unknown hm hunknown hknown) hc).named hnone
    have hname : (m'.classAt c).plan.name = n := (hs.evolves.sound.named 0 n c hknown).2.1
    rw [hname, harray] at hplain
    cases hplain
  have hleads := @leads_arrayClass m.guard m s h 0 n harray fun _ => hunknown
  refine (ends_served hleads (@keeps_arrayClass s Served _ hserved 0 n) ⟨hm, .refl _⟩ hchronicle).mono ?_ ?_
  · rintro c m' ⟨⟨hholds, hs, hloaded⟩, hchronicle'⟩
    exact linked_of_array hholds.1 hchronicle' hloaded.1.valid (hcomponent hs hloaded.1.valid (hloaded.1.known rfl))
  · rintro m' ⟨⟨_, hs⟩, _⟩ c hc hloader hname hnone hprimitive
    have hknown := hs.evolves.sound.known c hc hprimitive
    rw [hloader, hname] at hknown
    exact absurd hnone (hcomponent hs hc hknown)

theorem ends_loadFile (h : Loads s) (hserved : Hosted Served s) (hm : m.Sound) (hchronicle : Chronicle m)
    (hne : n ≠ "") (hunknown : m.loaded? 0 n = none) :
    Ends (loadFile s n) m (fun c m' => (m'.classAt c).state ≠ .unlinked) (·.Halfway 0 n) := by
  have hsteady (storage : Storage) : Steady m { m with storage } :=
    .ofSame (List.suffix_refl _) rfl rfl rfl rfl rfl rfl rfl
  have hsound (storage : Storage) : { m with storage }.Sound := hm.alike (hsteady storage).alike
  unfold loadFile
  rw [ends_get_bind]
  refine ends_onStorage_bind fun r storage => ?_
  split
  · exact ends_throw ((hsound storage).halfway hunknown)
  · next data source =>
    have hdefine := @ends_defineClass { m with storage } s 0 n h hserved n source data (hsound storage)
      (hchronicle.congr rfl rfl) fun _ _ hn => hn hne
    refine hdefine.mono (fun c m' hlinked hunlinked => ?_) fun _ hhalf => hhalf hunknown
    rw [hlinked] at hunlinked
    cases hunlinked

/-- A class that the bootstrap loader answers with is linked, unless it was left behind before. -/
theorem ends_loadClass (h : Loads s) (hserved : Hosted Served s) (hm : m.Sound) (hchronicle : Chronicle m) :
    Ends (loadClass s 0 n) m
      (fun c m' => (m'.classAt c).state = .unlinked → m.loaded? 0 n = some c ∧ (m.classAt c).state = .unlinked)
      fun m' => m.loaded? 0 n = none → m'.Halfway 0 n := by
  have hnew {act : Attempt ClassId} (hact : Ends act m (fun c m' => (m'.classAt c).state ≠ .unlinked) (·.Halfway 0 n)) :
      Ends act m
        (fun c m' => (m'.classAt c).state = .unlinked → m.loaded? 0 n = some c ∧ (m.classAt c).state = .unlinked)
        fun m' => m.loaded? 0 n = none → m'.Halfway 0 n :=
    hact.mono (fun c m' hlinked hunlinked => absurd hunlinked hlinked) fun m' hhalf _ => hhalf
  unfold loadClass
  rw [ends_get_bind]
  split
  · next c hc => exact ends_pure fun hunlinked => ⟨hc, hunlinked⟩
  · next hunknown =>
    split
    · exact ends_fail hm.halfway
    · next hne =>
      split
      · next harray => exact hnew (ends_arrayClass h hserved hm hchronicle harray hunknown)
      · rw [ends_loaderMirror_bind, hm.boot.2]
        exact hnew (ends_loadFile h hserved hm hchronicle hne hunknown)

end Linking

/-! ## All runs -/

/-- What a class is that a loader finds under a name after an attempt to get one has failed: the loader has defined it, and
its constants could not be set; or it is an array class, which is complete; or another loader has defined it, and the
loader is not that of bootstrap. -/
inductive Leftover (m : Machine) (l : Nat) (c : ClassId) : Prop where
  | halfway : (m.classAt c).loader = l → (m.classAt c).component = none → (m.classAt c).state = .unlinked →
      (m.classAt c).HasConstants → Leftover m l c
  | array : (m.classAt c).component ≠ none → (m.classAt c).state ≠ .unlinked → ¬ (m.classAt c).HasConstants → Leftover m l c
  | foreign : l ≠ 0 → (m.classAt c).loader ≠ l → (m.classAt c).component = none → Leftover m l c

/-- What is left of an attempt to get a class under a name that did not succeed: no name is marked that was not, and the
loader has found no class under the name, if it did not know it before, but one that may be left. -/
structure Left (m m' : Machine) (l : Nat) (n : String) : Prop where
  marks : m'.defining = m.defining
  half : m.loaded? l n = none → ∀ c, m'.loaded? l n = some c → Leftover m' l c

/-- What is found under a name of which nothing is halfway defined but what is not linked. -/
theorem leftover_of_halfway (hm : m.Sound) (hchronicle : Chronicle m) (hhalf : m.Halfway l n) {c : ClassId}
    (hc : m.loaded? l n = some c) : Leftover m l c := by
  obtain ⟨hvalid, hname, hboot⟩ := hm.named l n c (Machine.mem_of_loaded? hc)
  by_cases hcomponent : (m.classAt c).component = none
  · by_cases hloader : (m.classAt c).loader = l
    · have hprimitive : (m.classAt c).primitive = none := by
        by_contra hprimitive
        have hl : l = 0 := hloader.symm.trans ((hm.homes c hvalid).2 hprimitive)
        exact hprimitive (hboot hl).2
      obtain ⟨hstate, hconstants⟩ := hhalf c hvalid hloader hname hcomponent hprimitive
      exact .halfway hloader hcomponent hstate hconstants
    · refine .foreign (fun hl => hloader ?_) hloader hcomponent
      rw [hl]
      exact (hboot hl).1
  · refine .array hcomponent (Linking.linked_of_array hm hchronicle hvalid hcomponent) ?_
    rintro ⟨f, hf, -⟩
    rw [((hm.laid c hvalid).array hcomponent).fields] at hf
    cases hf

/-- What is halfway is left, where an attempt leads to expansion and keeps the chronicle. -/
theorem ends_left {asked : Prop} {act : Attempt ClassId} {P Q : ClassId → Machine → Prop}
    (hleads : Leads (expanding m.guard asked) act m P) (hserved : Attempt.Keeps Served act) (hm : m.Sound)
    (hchronicle : Chronicle m) (hends : Ends act m Q fun m' => m.loaded? l n = none → m'.Halfway l n) :
    Ends act m Q (Left m · l n) := by
  have hleads := (Linking.ends_served hleads hserved ⟨hm, .refl _⟩ hchronicle).outcome
  have hends := hends.outcome
  have hleft {m' : Machine} (hs : Expands m.guard asked m m') (hchronicle' : Chronicle m')
      (hhalf : m.loaded? l n = none → m'.Halfway l n) : Left m m' l n :=
    ⟨hs.defining, fun hn _ => leftover_of_halfway hs.evolves.sound hchronicle' (hhalf hn)⟩
  refine ⟨?_⟩
  generalize act.run m = r at *
  rcases r with ⟨_ | _, _⟩ | _
  · exact hleft hleads.1.2 hleads.2 hends
  · exact hends
  · exact hleft hleads.1.2 hleads.2 hends

/-- In all runs, a definition leads to a linked class, and a load of the bootstrap loader to one that is linked or
that was left behind before. An attempt that does not succeed leaves no mark behind, and under a name that was not known no
class but a leftover. Only classes that have constants are ever not linked. -/
theorem definition_left_halfway {m : Machine} (h : Attained m) (level : Nat) :
    (∀ l data n, Linking.Names data "" n →
      Ends (Linking.define (Interpreter.services Natives.standard level) l data) m
        (fun c m' => (m'.classAt c).state = .linked) (Left m · l n)) ∧
    (∀ l expected data source n, Linking.Names data expected n →
      Ends (Linking.defineClass (Interpreter.services Natives.standard level) l expected data source) m
        (fun c m' => (m'.classAt c).state = .linked) (Left m · l n)) ∧
    (∀ n, Ends ((Interpreter.services Natives.standard level).loadBoot n) m
      (fun c m' => (m'.classAt c).state = .unlinked → m.loaded? 0 n = some c ∧ (m.classAt c).state = .unlinked)
      (Left m · 0 n)) ∧
    ∀ c, c.index < m.classes.size → (m.classAt c).state = .unlinked → (m.classAt c).HasConstants := by
  obtain ⟨-, hloads⟩ := Interpreter.growing_services level
  have hserved := (Interpreter.sound_services level).toHosted
  have hpublish := Linking.served_publish hserved
  have hm := h.sound
  refine ⟨fun l data n hn => ?_, fun l expected data source n hn => ?_, fun n => ?_, fun c hc hunlinked => ?_⟩
  · have hleads := @Linking.leads_define m.guard m _ hloads l data
    exact ends_left hleads (Linking.keeps_define hserved hpublish l data) hm h.chronicle
      (Linking.ends_define hloads hserved hm h.chronicle hn)
  · have hleads := @Linking.leads_defineClass m.guard False m _ hloads l expected source data nofun
    exact ends_left hleads (Linking.keeps_defineClass hserved hpublish l expected data source) hm h.chronicle
      (Linking.ends_defineClass hloads hserved hm h.chronicle hn)
  · cases level with
    | zero => exact ⟨⟨rfl, fun hn c hc => absurd (hn.symm.trans hc) nofun⟩⟩
    | succ level =>
      obtain ⟨hserving, hloads⟩ := Interpreter.growing_services level
      have hleads := @Linking.leads_loadClass m.guard m _ hloads hserving.toHosted 0 n
      have hserved := (Interpreter.sound_services level).toHosted
      exact ends_left hleads (Linking.keeps_loadClass hserved (Linking.served_publish hserved) 0 n) hm h.chronicle
        (Linking.ends_loadClass hloads hserved hm h.chronicle)
  · exact (hm.announced c hc).resolve_right fun hannounced => h.chronicle.linked hannounced hunlinked

namespace Samples

/-- A class with a constant of another type than its static field. -/
def mismatch : ClassSource :=
  { name := "Mismatch", fields := [{ flags := 0x19, name := "X", desc := "J", value := some (.int 1) }] }

/-- The machine before that class is asked for. -/
def untried : Machine := asked [root, mismatch] [.load 0 "java/lang/Object"]

/-- The machine after that. -/
def tried : Machine := asked [root, mismatch] [.load 0 "java/lang/Object", .load 0 "Mismatch"]

/-- What array classes need, with a string constant and one of another type than its field in an interface. -/
def brittle : List ClassSource := [
  root, { name := "java/io/Serializable", flags := 0x601 },
  { name := "java/lang/Cloneable", flags := 0x601
    fields := [{ flags := 0x19, name := "K", desc := Machine.stringDesc, value := some (.string "x") },
      { flags := 0x19, name := "X", desc := "J", value := some (.int 1) }] },
  { name := "java/lang/String", fields := [{ flags := 0x11, name := "value", desc := Machine.charArrayName }] }]

end Samples

open Samples in
/-- What a definition of the class leads to, and what the machine is like that tried to load it. -/
theorem definition_left_halfway_mismatch :
    Ends (Linking.define (Interpreter.services Natives.standard 12) 0 (bytes mismatch)) untried
        (fun c m' => (m'.classAt c).state = .linked) (Left untried · 0 "Mismatch") ∧
      (tried.classAt ⟨10⟩).state = .unlinked ∧ (tried.classAt ⟨10⟩).HasConstants := by
  have hname : (ClassFile.parse (bytes mismatch)).toOption.map (·.className) = some "Mismatch" := by decide +kernel
  have hevents : 10 < tried.classes.size ∧ (tried.classAt ⟨10⟩).state = .unlinked := by decide +kernel
  obtain ⟨hdefine, -, -, -⟩ := definition_left_halfway (attained_asked [root, mismatch] [.load 0 "java/lang/Object"]) 12
  obtain ⟨-, -, -, hconstants⟩ := definition_left_halfway
    (attained_asked [root, mismatch] [.load 0 "java/lang/Object", .load 0 "Mismatch"]) 12
  refine ⟨hdefine 0 _ "Mismatch" fun cf hcf _ => ?_, hevents.2, hconstants ⟨10⟩ hevents.1 hevents.2⟩
  rw [hcf] at hname
  exact Option.some.inj hname

open Samples in
-- the class of char arrays came for the string, before the constant after it could not be set
example : answer (asked brittle []) "[C" = some none ∧
    ((asked brittle [.load 0 "[C"]).loaded? 0 "[C").map (fun c => ((asked brittle [.load 0 "[C"]).classAt c).state) =
      some .initialized := by decide +kernel

open Samples in
/-- A load that fails leaves a class behind that is not linked, and the next load of its name answers with it. -/
theorem load_left_halfway :
    untried.loaded? 0 "Mismatch" = none ∧ answer untried "Mismatch" = some none ∧
      tried.loaded? 0 "Mismatch" = some ⟨10⟩ ∧ (tried.classAt ⟨10⟩).state = .unlinked ∧
      answer tried "Mismatch" = some (some ⟨10⟩) := by
  decide +kernel

end JavaMachine
