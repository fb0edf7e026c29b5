import JavaMachine.Proofs.Loading.Search

/-!
Loads one after the other. In a machine that was set up the bootstrap loader answers to any sequence of names, and a
load that fails leaves the loader as fit for the next one as one that succeeds (`Machine.AtRest`). Names are declared as
the machine may find them from the start on, so all loads of a sequence are searches in the same declarations.

Main result: `bootstrap_loads`, that each load comes to an end, that supertypes are recorded before their subtypes, and
that cycles of declarations are where loads fail for circularity, and no class is loaded that leads to one.
-/

namespace JavaMachine

open M Attempt Relation

variable {m₀ m : Machine} {name : String} {level : Nat}

/-! ## What is recorded -/

/-- A class has another as its superclass or as one of its superinterfaces. -/
def Machine.Derives (m : Machine) (c d : ClassId) : Prop := d ∈ (m.classAt c).supertypes

/-- Supertypes are older, so no class is above itself. -/
theorem Machine.Sound.not_derives_self (hm : m.Sound) (c : ClassId) : ¬ TransGen m.Derives c c := by
  have hlt {c d : ClassId} (h : m.Derives c d) : d.index < c.index := by
    rcases List.mem_append.1 h with hsuper | hinterface
    · exact hm.fit.rooted.super c d (Option.mem_toList.1 hsuper)
    · exact hm.fit.rooted.interfaces c d hinterface
  have hbelow {d : ClassId} (h : TransGen m.Derives c d) : d.index < c.index := by
    induction h with
    | single h => exact hlt h
    | tail _ h ih => exact Nat.lt_trans (hlt h) ih
  exact fun h => Nat.lt_irrefl _ (hbelow h)

/-- In a list of classes in order supertypes come before each of their subtypes. -/
theorem Machine.Ordered.before {classes earlier : List (String × ClassId)} {n : String} {c d : ClassId}
    (h : m.Ordered classes) (hclasses : (n, c) :: earlier <:+ classes) (hd : m.Derives c d) :
    ∃ n', (n', d) ∈ earlier := by
  induction classes with
  | nil => cases List.suffix_nil.1 hclasses
  | cons entry rest ih =>
    rcases List.suffix_cons_iff.1 hclasses with hsame | hrest
    · cases hsame
      exact h.1 d hd
    · exact ih h.2 hrest

/-- The bootstrap loader knows an older class for each name that a class of its own was declared with. -/
theorem Machine.Sound.declared (hm : m.Sound) (hbooted : ∀ c, c.index < m.classes.size → (m.classAt c).Booted)
    {n : String} {c : ClassId} (hc : (n, c) ∈ (m.loaderAt 0).classes) (hname : name ∈ (m.classAt c).supertypeNames) :
    ∃ d, m.loaded? 0 name = some d ∧ d.index < c.index := by
  obtain ⟨hvalid, -, hboot⟩ := hm.named 0 n c hc
  have hlaid := hm.laid c hvalid
  obtain ⟨d, hd, hlt, hnamed, hplain⟩ : ∃ d, m.Derives c d ∧ d.index < c.index ∧ (m.classAt d).name = name ∧
      name ≠ charArrayName := by
    have hother {d : ClassId} (hlt : d.index < c.index) (hcomponent : (m.classAt d).component = none) :
        (m.classAt d).name ≠ charArrayName := by
      intro hchars
      have hplain := (hbooted d (Nat.lt_trans hlt hvalid)).named hcomponent
      rw [hchars] at hplain
      exact absurd hplain (by decide +kernel)
    rcases List.mem_append.1 hname with hname | hname
    · split at hname
      · cases hname
      · next hsuperName =>
        obtain rfl := List.mem_singleton.1 hname
        cases hsuper : (m.classAt c).super with
        | none => exact absurd (hlaid.root hsuper) hsuperName
        | some s =>
          obtain ⟨hlt, hnamed, hcomponent⟩ := hlaid.super s hsuper
          exact ⟨s, List.mem_append_left _ (Option.mem_toList.2 hsuper), hlt, hnamed, hnamed ▸ hother hlt hcomponent⟩
    · have hnames := hlaid.interfaceNames
      rw [← hnames] at hname
      obtain ⟨i, hi, rfl⟩ := List.mem_map.1 hname
      have hlt := hlaid.interfaces i hi
      refine ⟨i, List.mem_append_right _ hi, hlt, rfl, ?_⟩
      by_cases hcomponent : (m.classAt c).component = none
      · refine hother hlt (Classical.byContradiction fun harray => ?_)
        have hinterface := (hlaid.kinds hcomponent (hboot rfl).2).interfaces i hi
        rw [((hm.laid i (Nat.lt_trans hlt hvalid)).array harray).interface] at hinterface
        cases hinterface
      · -- the superinterfaces of array classes are known by their names
        rw [hnames, (hlaid.array hcomponent).interfaceNames] at hname
        intro hchars
        rw [hchars] at hname
        exact absurd hname (by decide)
  obtain ⟨n', hn'⟩ := hm.ordered.supertype hc hd
  obtain ⟨hvalid', hnamed', -⟩ := hm.named 0 n' d hn'
  have hanswers : m.Answers 0 name d := ⟨hvalid', hnamed, fun _ => hnamed ▸ hnamed' ▸ hn'⟩
  exact ⟨d, hanswers.latest hm hplain, hlt⟩

/-! ## Machines that were set up -/

/-- A machine that was set up over a class path, and nothing was asked of since. -/
def Machine.SetUp (m₀ : Machine) : Prop :=
  ∃ options storage stdin level,
    (Boot.bootstrap (Interpreter.services Natives.standard level)).run (Boot.empty options storage stdin) = .ok (.ok ()) m₀

/-- The machines that loads of the bootstrap loader lead to, whatever comes of them. -/
inductive Machine.Loading (m₀ : Machine) : Machine → Prop where
  | refl : m₀.Loading m₀
  | load {m : Machine} (level : Nat) (name : String) : m₀.Loading m → m₀.Loading (m.perform level (.load 0 name))

/-- A machine in which no load is under way, after loads that were begun in another. -/
structure Machine.AtRest (m₀ m : Machine) : Prop where
  sound : m.Sound
  seeking : m₀.Seeking m
  unmarked : m.defining 0 = []

/-- The bootstrap loader knows what every load needs when a machine was set up. -/
theorem Machine.SetUp.atRest (h : m₀.SetUp) : m₀.AtRest m₀ := by
  obtain ⟨options, storage, stdin, level, hrun⟩ := h
  have hmakes := Boot.makes_bootstrap (Interpreter.growing_services level).2 (sound_empty options storage stdin) hrun
  obtain ⟨⟨hevolves, hdefining, hadds⟩, hplain, hstrings, hobject⟩ := hmakes
  have hm := hevolves.sound
  have hprimitive {c : ClassId} (hc : c.index < (Boot.empty options storage stdin).classes.size) :=
    ofPrimitive_empty options storage stdin _ (Machine.classAt_mem hc)
  have hbooted (c : ClassId) (hc : c.index < m₀.classes.size) : (m₀.classAt c).Booted := by
    rcases Nat.lt_or_ge c.index (Boot.empty options storage stdin).classes.size with hlt | hge
    · refine ⟨(hevolves.loader hlt).trans (hprimitive hlt).loader, fun _ => ?_⟩
      have hletter := (hprimitive hlt).primitive
      rw [← hevolves.primitive hlt] at hletter
      obtain ⟨letter, hletter⟩ := Option.ne_none_iff_exists'.1 hletter
      exact (Descriptor.of_primitiveName? (hm.letters c hc letter hletter).1).1
    · have hnew := hadds trivial c hge hc
      exact ⟨hnew.loader, hnew.named⟩
  have harray {n : String} {c : ClassId} (hc : m₀.loaded? 0 n = some c) (hn : n.startsWith "[") :
      (m₀.classAt c).component ≠ none := by
    intro hcomponent
    obtain ⟨hvalid, hnamed, -⟩ := hm.named 0 n c (Machine.mem_of_loaded? hc)
    have hname := (hbooted c hvalid).named hcomponent
    rw [hnamed, hn] at hname
    cases hname
  refine ⟨hm, ⟨rfl, .refl, fun _ => id, hstrings, fun n hn => ?_, hbooted, fun n c hc hn => ?_,
    fun n c hc hn n' hn' => ?_⟩, ?_⟩
  · obtain ⟨c, hc⟩ := Option.isSome_iff_exists.1 (hm.strings.1 hstrings.1)
    have hknown := Machine.mem_of_loaded? hc
    have hchars := (hm.laid c (hm.named 0 _ c hknown).1).array (harray hc (by decide +kernel))
    rcases List.mem_cons.1 hn with rfl | hn
    · exact hobject
    · obtain ⟨d, hd, -⟩ := hm.declared hbooted hknown (List.mem_append_right _ (hchars.interfaceNames ▸ hn))
      exact Option.isSome_of_eq_some hd
  · refine ⟨m₀.storage, .refl, ?_⟩
    rw [Machine.declares, if_neg (by rw [hn]; exact Bool.false_ne_true), hc]
  · -- the only array class is that of the char arrays
    obtain ⟨hvalid, hnamed, -⟩ := hm.named 0 n c (Machine.mem_of_loaded? hc)
    have hcomponent := harray hc hn
    rcases Nat.lt_or_ge c.index (Boot.empty options storage stdin).classes.size with hlt | hge
    · exact absurd ((hevolves.component hlt).trans (hprimitive hlt).component) hcomponent
    · have hchars : (m₀.classAt c).name = Machine.charArrayName := hplain c hge hvalid hcomponent
      rw [← hnamed, hchars] at hn'
      have hnone : elementNames Machine.charArrayName = [] := by decide +kernel
      rw [hnone] at hn'
      cases hn'
  · exact congrFun hdefining 0

/-! ## Sequences of loads -/

namespace Machine.AtRest

/-- What a load of a name leads to: a class that the name is taken for then, a failure for circularity only where the
name leads to a cycle, and no halt for want of levels if there are enough. -/
theorem leads_load (level : Nat) (name : String) :
    Leads (searching m.guard m₀ [] (m₀.storage.depth [] name ≤ level) name)
      ((Interpreter.services Natives.standard level).loadBoot name) m fun c m' => m'.loaded? 0 name = some c := by
  have hloaded := (Interpreter.growing_services level).2.load m.guard 0 name m
  exact ((Interpreter.leads_search id fun _ hn => absurd hn List.not_mem_nil).and hloaded (·.1)).mono
    fun _ _ _ _ h => h.2.latest rfl

theorem holds (h : m₀.AtRest m) (enough : Prop) (name : String) : (searching m.guard m₀ [] enough name).holds m :=
  ⟨⟨h.sound, .refl _⟩, h.seeking, h.unmarked⟩

theorem of_holds {g : Guard} {enough : Prop} (h : (searching g m₀ [] enough name).holds m) : m₀.AtRest m :=
  ⟨h.1.1, h.2.1, h.2.2⟩

/-- A load leaves a machine ready for the next, whatever comes of it. -/
theorem load (h : m₀.AtRest m) (level : Nat) (name : String) : m₀.AtRest (m.perform level (.load 0 name)) := by
  have houtcome := (leads_load level name).outcome (h.holds _ name)
  have hrun : (Request.load 0 name).perform (Interpreter.services Natives.standard level) m =
      ((fun _ => ()) <$> ((Interpreter.services Natives.standard level).loadBoot name).run : M Unit) m := rfl
  rw [map_eq_pure_bind, bind_apply] at hrun
  rw [Machine.perform, hrun]
  generalize ((Interpreter.services Natives.standard level).loadBoot name).run m = r at *
  rcases r with ⟨_ | _, _⟩ | _ <;> exact of_holds houtcome.1

/-- No name of a recorded class leads to a cycle: what it must declare is known for older classes. -/
theorem not_leadsToCycle (h : m₀.AtRest m) {c : ClassId} (hc : m.loaded? 0 name = some c) :
    ¬ LeadsToCycle m₀.MustDeclare name := by
  refine JavaMachine.not_leadsToCycle (P := fun n i => ∃ c, m.loaded? 0 n = some c ∧ c.index = i) ?_ ?_ ⟨c, hc, rfl⟩
  · rintro n i j ⟨c, hc, rfl⟩ ⟨d, hd, rfl⟩
    rw [Option.some.inj (hc.symm.trans hd)]
  · rintro n n' i ⟨c, hc, rfl⟩ hdeclares
    suffices hknown : ∃ d, m.loaded? 0 n' = some d ∧ d.index < c.index by
      obtain ⟨d, hd, hlt⟩ := hknown
      exact ⟨d.index, ⟨d, hd, rfl⟩, hlt⟩
    cases hn : n.startsWith "[" with
    | true =>
      have hn' := hdeclares m₀.storage .refl
      rw [Machine.declares, if_pos hn] at hn'
      exact h.seeking.elements n c hc hn n' hn'
    | false =>
      obtain ⟨s, hs, hdeclared⟩ := h.seeking.sources n c hc hn
      exact h.sound.declared h.seeking.booted (Machine.mem_of_loaded? hc) (hdeclared ▸ hdeclares s hs)

end Machine.AtRest

theorem Machine.Loading.atRest (h : m₀.SetUp) (hm : m₀.Loading m) : m₀.AtRest m := by
  induction hm with
  | refl => exact h.atRest
  | load level name _ ih => exact ih.load level name

/-! ## Cycles -/

/-- After any loads in a machine that was set up, no class is above itself and supertypes were recorded before their
subtypes. A further load is not stuck where there are enough levels for the class files of the class path, so it comes
to an end; it fails for circularity only if names that the name leads to may declare each other in a cycle, and answers
with a class only if they need not. -/
theorem bootstrap_loads (h : m₀.SetUp) (hm : m₀.Loading m) :
    (∀ c, ¬ TransGen m.Derives c c) ∧
    (∀ n c earlier, (n, c) :: earlier <:+ (m.loaderAt 0).classes → ∀ d, m.Derives c d → ∃ n', (n', d) ∈ earlier) ∧
    ∀ level name, match ((Interpreter.services Natives.standard level).loadBoot name).run m with
      | .ok (.ok c) m' => m'.loaded? 0 name = some c ∧ ¬ LeadsToCycle m₀.MustDeclare name
      | .ok (.error f) _ => f.java?.map (·.1) = some Throwables.circularity → LeadsToCycle m₀.MayDeclare name
      | .error halt _ => m₀.storage.depth [] name ≤ level → halt ≠ .stuck := by
  have hrest := hm.atRest h
  refine ⟨hrest.sound.not_derives_self, fun n c earlier hclasses d => hrest.sound.ordered.before hclasses, ?_⟩
  intro level name
  have houtcome := (Machine.AtRest.leads_load level name).outcome (hrest.holds _ name)
  generalize ((Interpreter.services Natives.standard level).loadBoot name).run m = r at *
  rcases r with ⟨f | c, m'⟩ | ⟨halt, m'⟩
  · exact houtcome.2.2
  · obtain ⟨hholds, -, hknown⟩ := houtcome
    exact ⟨hknown, (Machine.AtRest.of_holds hholds).not_leadsToCycle hknown⟩
  · exact houtcome.2.2

namespace Samples

/-- What the load of a name by the bootstrap loader leads to where the machine halts. -/
def halt? (m : Machine) (name : String) : Option Halt :=
  match ((Interpreter.services Natives.standard 12).loadBoot name).run m with
  | .ok _ _ => none
  | .error halt _ => some halt

/-- A machine over tables in memory. -/
def bare (storage : Storage) : Machine := Boot.empty { classPath := .memory 0 "", maxDepth := 8 } storage []

/-- The machine when its setup was asked for. -/
def setUp (storage : Storage) : Machine := (bare storage).perform 12 .bootstrap

variable {storage : Storage}

/-- Two names that declare each other over tables in memory make a cycle. -/
theorem leadsToCycle_setUp
    (h : "B" ∈ (setUp storage).declares (setUp storage).storage "A" ∧
      "A" ∈ (setUp storage).declares (setUp storage).storage "B") :
    LeadsToCycle (setUp storage).MustDeclare "A" := by
  have hmust {n n' : String} (h : n' ∈ (setUp storage).declares (setUp storage).storage n) :
      (setUp storage).MustDeclare n n' := by
    intro s hs
    have hoptions := (grows_perform (sound_empty { classPath := .memory 0 "", maxDepth := 8 } storage []) 12
      .bootstrap).evolves.options
    change (setUp storage).options = (bare storage).options at hoptions
    have hpath : (bare storage).options.classPath = .memory 0 "" := rfl
    rw [hoptions, hpath] at hs
    rw [hs.of_memory]
    exact h
  exact ⟨"A", .refl, .tail (.single (hmust h.1)) (hmust h.2)⟩

/-- What is found of a machine that is set up over tables in memory, by one run. -/
theorem cyclic_setUp {P : Prop}
    (h : bootstraps (bare storage) = true ∧
      ("B" ∈ (setUp storage).declares (setUp storage).storage "A" ∧
        "A" ∈ (setUp storage).declares (setUp storage).storage "B") ∧ P) :
    (setUp storage).SetUp ∧ LeadsToCycle (setUp storage).MustDeclare "A" ∧ P :=
  ⟨⟨_, storage, [], 12, run_bootstrap h.1⟩, leadsToCycle_setUp h.2.1, h.2.2⟩

/-- A machine over two classes, each of which has the other as its superclass. -/
def circular : Machine :=
  setUp (path ({ name := "A", super := "B" } :: { name := "B", super := "A" } :: textual))

/-- The class file of the second class, with a string constant that refers outside of the pool. -/
def overrunFile : ClassFile where
  minor := 0
  major := 52
  pool := #[none, some (.utf8 [0x42]), some (.class 1), some (.utf8 [0x41]), some (.class 3), some (.string 99)]
  flags := ⟨0x21⟩
  thisClass := 2
  superClass := 4
  interfaces := []
  fields := []
  methods := []
  attributes := []

/-- A machine over the first class and that class file. -/
def overrun : Machine :=
  setUp { tables := #[{
    label := ""
    classes := ("B", overrunFile.encode) :: ({ name := "A", super := "B" } :: textual).map fun k => (k.name, bytes k) }] }

end Samples

open Samples in
/-- After a load of one of the classes failed, no further load answers with it at any level. -/
theorem bootstrap_loads_circular :
    circular.SetUp ∧ circular.Loading (circular.perform 12 (.load 0 "A")) ∧ LeadsToCycle circular.MustDeclare "A" ∧
      answer (circular.perform 12 (.load 0 "A")) "A" = some none ∧
      ∀ level c m', ((Interpreter.services Natives.standard level).loadBoot "A").run
        (circular.perform 12 (.load 0 "A")) ≠ .ok (.ok c) m' := by
  have hmachine : circular.SetUp ∧ LeadsToCycle circular.MustDeclare "A" ∧
      answer (circular.perform 12 (.load 0 "A")) "A" = some none := cyclic_setUp (by decide +kernel)
  obtain ⟨hsetup, hcycle, hanswer⟩ := hmachine
  have hloading : circular.Loading (circular.perform 12 (.load 0 "A")) := .load 12 "A" .refl
  refine ⟨hsetup, hloading, hcycle, hanswer, fun level c m' hrun => ?_⟩
  obtain ⟨-, -, hloads⟩ := bootstrap_loads hsetup hloading
  have houtcome := hloads level "A"
  rw [hrun] at houtcome
  exact houtcome.2 hcycle

open Samples in
/-- A load of a name that leads to a cycle does not come back with an error where a class file on the way has a string
constant that refers outside of its pool. -/
theorem circular_load_halts :
    overrun.SetUp ∧ LeadsToCycle overrun.MustDeclare "A" ∧ halt? overrun "A" = some (.index 99 6) :=
  cyclic_setUp (by decide +kernel)

end JavaMachine
