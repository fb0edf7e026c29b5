import JavaMachine.Proofs.Loading.Layout
import JavaMachine.Proofs.Machine.Lax

/-!
What loaders know. In a `Sound` machine loaders know all classes that they defined, by their names, and the
bootstrap loader knows one class for each name but that of the char arrays, supertypes before subtypes. A machine
`Grows` while it keeps its classes, what its loaders know and which names are being defined; no class comes
under a name that is being defined. Main result: changes without new classes are growth (`Grows.steady`).
-/

namespace JavaMachine

open M

/-! ## Soundness -/

/-- The name of the class of char arrays. -/
def Machine.charArrayName : String := "[C"

/-- A class has static fields with constants. Those are set after the loader knows the class. -/
def Class.HasConstants (k : Class) : Prop := ∃ f ∈ k.fields, f.isStatic ∧ f.constant ≠ 0

instance (k : Class) : Decidable k.HasConstants :=
  inferInstanceAs (Decidable (∃ f ∈ k.fields, f.isStatic ∧ f.constant ≠ 0))

/-- The journal tells that a class was linked. -/
def Machine.Announced (m : Machine) (c : ClassId) : Prop := ∃ state, state ≠ .unlinked ∧ .state c state ∈ m.journal

/-- In a list of classes with the latest first, supertypes come before their subtypes. -/
def Machine.Ordered (m : Machine) : List (String × ClassId) → Prop
  | [] => True
  | (_, c) :: earlier => (∀ d ∈ (m.classAt c).supertypes, ∃ n, (n, d) ∈ earlier) ∧ m.Ordered earlier

/-- The classes and the loaders of a machine belong together. -/
structure Machine.Sound (m : Machine) : Prop where
  fit : m.Fit
  boot : 0 < m.loaders.size ∧ (m.loaderAt 0).mirror = none
  laid : ∀ c, c.index < m.classes.size → m.Laid c (m.classAt c)
  homes : ∀ c, c.index < m.classes.size →
    (m.classAt c).loader < m.loaders.size ∧ ((m.classAt c).primitive ≠ none → (m.classAt c).loader = 0)
  announced : ∀ c, c.index < m.classes.size → (m.classAt c).HasConstants ∨ m.Announced c
  known : ∀ c, c.index < m.classes.size → (m.classAt c).primitive = none →
    ((m.classAt c).name, c) ∈ (m.loaderAt (m.classAt c).loader).classes
  named : ∀ l n c, (n, c) ∈ (m.loaderAt l).classes →
    c.index < m.classes.size ∧ (m.classAt c).name = n ∧
      (l = 0 → (m.classAt c).loader = 0 ∧ (m.classAt c).primitive = none)
  alone : ∀ n c d, n ≠ charArrayName → (n, c) ∈ (m.loaderAt 0).classes → (n, d) ∈ (m.loaderAt 0).classes → c = d
  ordered : m.Ordered (m.loaderAt 0).classes
  primitives : ∀ n c, (n, c) ∈ m.primitives →
    c.index < m.classes.size ∧ (m.classAt c).loader = 0 ∧ (m.classAt c).component = none ∧
      ∃ letter, (m.classAt c).primitive = some letter ∧ Descriptor.primitiveName? letter = some n
  letters : ∀ c, c.index < m.classes.size → ∀ letter, (m.classAt c).primitive = some letter →
    Descriptor.primitiveName? letter = some (m.classAt c).name ∧ m.primitives.lookup (m.classAt c).name = some c ∧
      (m.classAt c).supertypes = []
  strings : (m.charArrayClass.isSome → (m.loaded? 0 charArrayName).isSome) ∧
    (m.stringClass.isSome → (m.loaded? 0 "java/lang/String").isSome)

/-! ## Growth -/

/-- The names that loaders are defining. -/
def Machine.defining (m : Machine) (l : Nat) : List String := (m.loaderAt l).defining

/-- What holds of the plan of every class that is new. -/
def Adds (P : Class → Prop) (a b : Machine) : Prop :=
  ∀ c, a.classes.size ≤ c.index → c.index < b.classes.size → P (b.classAt c).plan

/-- What loading has to respect: names that are marked as being defined, and whether the class of char arrays is
settled. -/
structure Guard where
  marked : Nat → List String
  settled : Prop

/-- What loading has to respect from a machine on. -/
def Machine.guard (m : Machine) : Guard := ⟨m.defining, (m.loaded? 0 charArrayName).isSome⟩

/-- A guard that asks for less than another. -/
structure Guard.Within (g g' : Guard) : Prop where
  marked : ∀ l, g.marked l ⊆ g'.marked l
  settled : g.settled → g'.settled

/-- Classes come but none goes, and none comes under a name that is marked. Loaders learn and forget nothing. The
machine is sound. -/
structure Evolves (g : Guard) (a b : Machine) : Prop extends Succeeds a b where
  options : b.options = a.options
  mirrors : ∀ l, l < a.loaders.size → (b.loaderAt l).mirror = (a.loaderAt l).mirror
  recorded : ∀ l, (a.loaderAt l).classes <:+ (b.loaderAt l).classes
  charArray : g.settled → ∀ c, a.loaded? 0 Machine.charArrayName = some c → b.loaded? 0 Machine.charArrayName = some c
  fresh : Adds (fun k => k.component = none → k.name ∉ g.marked k.loader) a b
  strings : (a.charArrayClass.isSome → b.charArrayClass.isSome) ∧ (a.stringClass.isSome → b.stringClass.isSome)
  sound : b.Sound

/-- The machine evolves, and the same names are being defined as before. -/
structure Grows (a b : Machine) : Prop where
  evolves : Evolves a.guard a b
  defining : b.defining = a.defining

/-- From a sound machine an action grows. -/
def Growing (_ : Ending) (a b : Machine) : Prop := a.Sound → Grows a b

/-! ## Classes that stay as they were planned -/

section parts

variable {a b : Machine} {c : ClassId}

theorem Succeeds.hasConstants (h : Succeeds a b) (hc : c.index < a.classes.size) :
    (b.classAt c).HasConstants = (a.classAt c).HasConstants := h.part hc Class.HasConstants fun _ => rfl

theorem Machine.Announced.mono (h : a.Announced c) (hevents : a.journal <:+ b.journal) : b.Announced c := by
  obtain ⟨state, hstate, hmem⟩ := h
  exact ⟨state, hstate, hevents.subset hmem⟩

/-- A class stays laid while its machine goes on. -/
theorem Succeeds.laid (h : Succeeds a b) (hc : c.index < a.classes.size) (hl : a.Laid c (a.classAt c)) :
    b.Laid c (b.classAt c) := (hl.mono (Nat.le_of_lt hc) h).of_plan (h.plans c hc)

theorem Machine.Ordered.mono {list : List (String × ClassId)} (h : a.Ordered list)
    (hs : ∀ n c, (n, c) ∈ list → (b.classAt c).supertypes = (a.classAt c).supertypes) : b.Ordered list := by
  induction list with
  | nil => trivial
  | cons entry rest ih =>
    obtain ⟨n, c⟩ := entry
    refine ⟨?_, ih h.2 fun n' c' hmem => hs n' c' (List.mem_cons_of_mem _ hmem)⟩
    rw [hs n c List.mem_cons_self]
    exact h.1

end parts

/-! ## Evolution in steps -/

namespace Adds

variable {P Q : Class → Prop} {a b c : Machine}

theorem ofSize (h : b.classes.size ≤ a.classes.size) : Adds P a b :=
  fun _ hc hc' => absurd (Nat.lt_of_lt_of_le hc' h) (Nat.not_lt.2 hc)

theorem trans (h : Adds P a b) (h' : Adds P b c) (hs : Succeeds b c) : Adds P a c := by
  intro k hk hk'
  rcases Nat.lt_or_ge k.index b.classes.size with hlt | hge
  · rw [hs.plans k hlt]
    exact h k hk hlt
  · exact h' k hge hk'

theorem mono (h : Adds P a b) (hP : ∀ k, P k → Q k) : Adds Q a b := fun k hk hk' => hP _ (h k hk hk')

end Adds

theorem Guard.Within.refl (g : Guard) : g.Within g := ⟨fun _ => List.Subset.refl _, id⟩

theorem Guard.Within.trans {g g' g'' : Guard} (h : g.Within g') (h' : g'.Within g'') : g.Within g'' :=
  ⟨fun l => List.Subset.trans (h.marked l) (h'.marked l), h'.settled ∘ h.settled⟩

namespace Evolves

variable {g : Guard} {a b c : Machine}

/-- What the bootstrap loader takes a name for does not change, if the class of char arrays is settled. -/
theorem loaded? (h : Evolves g a b) {n : String} {k : ClassId} (hk : a.loaded? 0 n = some k)
    (hn : n = Machine.charArrayName → g.settled) : b.loaded? 0 n = some k := by
  by_cases hchars : n = Machine.charArrayName
  · subst hchars
    exact h.charArray (hn rfl) k hk
  · obtain ⟨d, hd⟩ := Option.isSome_iff_exists.1 (h.isSome_loaded? (Option.isSome_of_eq_some hk))
    have hold := h.lists 0 (Machine.mem_of_loaded? hk)
    rw [hd, h.sound.alone n d k hchars (Machine.mem_of_loaded? hd) hold]

theorem trans (h : Evolves g a b) (h' : Evolves g b c) : Evolves g a c where
  toSucceeds := h.toSucceeds.trans h'.toSucceeds
  options := h'.options.trans h.options
  mirrors l hl := (h'.mirrors l (Nat.lt_of_lt_of_le hl h.loaders)).trans (h.mirrors l hl)
  recorded l := (h.recorded l).trans (h'.recorded l)
  charArray hg k hk := h'.charArray hg k (h.charArray hg k hk)
  fresh := h.fresh.trans h'.fresh h'.toSucceeds
  strings := ⟨h'.strings.1 ∘ h.strings.1, h'.strings.2 ∘ h.strings.2⟩
  sound := h'.sound

theorem weaken {g' : Guard} (h : Evolves g a b) (hg : g'.Within g) : Evolves g' a b :=
  { h with
    charArray := fun hset => h.charArray (hg.settled hset)
    fresh := h.fresh.mono fun _ hk hcomponent hmem => hk hcomponent (hg.marked _ hmem) }

/-- A class that the bootstrap loader knows by a name that it did not know before is new. -/
theorem le_of_unknown (h : Evolves g a b) (ha : a.Sound) {n : String} {k : ClassId} (hn : a.loaded? 0 n = none)
    (hk : (n, k) ∈ (b.loaderAt 0).classes) : a.classes.size ≤ k.index := by
  obtain ⟨-, hname, hboot⟩ := h.sound.named 0 n k hk
  obtain ⟨hloader, hprimitive⟩ := hboot rfl
  refine Nat.le_of_not_lt fun hlt => ?_
  have hknown := Machine.isSome_loaded?_of_mem (ha.known k hlt ((h.primitive hlt).symm.trans hprimitive))
  rw [← h.loader hlt, ← h.name hlt, hloader, hname, hn] at hknown
  cases hknown

end Evolves

namespace Grows

variable {a b c : Machine}

/-- What has to be respected stays so. -/
theorem guard (h : Grows a b) : a.guard.Within b.guard where
  marked l := by
    change a.defining l ⊆ b.defining l
    rw [h.defining]
    exact List.Subset.refl _
  settled := h.evolves.isSome_loaded?

theorem trans (h : Grows a b) (h' : Grows b c) : Grows a c :=
  ⟨h.evolves.trans (h'.evolves.weaken h.guard), h'.defining.trans h.defining⟩

theorem sound (h : Grows a b) : b.Sound := h.evolves.sound

theorem succeeds (h : Grows a b) : Succeeds a b := h.evolves.toSucceeds

end Grows

/-! ## Changes without new classes -/

/-- The same classes, of which loaders know as much as before. -/
structure Alike (a b : Machine) : Prop extends Succeeds a b where
  events : a.journal <:+ b.journal
  sameSize : b.classes.size = a.classes.size
  options : b.options = a.options
  primitives : b.primitives = a.primitives
  known : ∀ l, (b.loaderAt l).classes = (a.loaderAt l).classes
  mirrors : ∀ l, l < a.loaders.size → (b.loaderAt l).mirror = (a.loaderAt l).mirror
  fit : a.Fit → b.Fit
  charArray : b.charArrayClass = a.charArrayClass ∨
    b.charArrayClass.isSome ∧ (a.loaded? 0 Machine.charArrayName).isSome
  string : b.stringClass = a.stringClass ∨ b.stringClass.isSome ∧ (a.loaded? 0 "java/lang/String").isSome

theorem Steady.alike {a b : Machine} (h : Steady a b) : Alike a b where
  toSucceeds := h.succeeds
  events := h.events
  sameSize := h.size
  options := h.options
  primitives := h.primitives
  known := h.known
  mirrors := h.mirrors
  fit := h.fit
  charArray := .inl h.charArrayClass
  string := .inl h.stringClass

/-- A sound machine stays so while no class comes and no loader learns. -/
theorem Machine.Sound.alike {a b : Machine} (h : a.Sound) (hs : Alike a b) : b.Sound := by
  have hsucc := hs.toSucceeds
  have hsize {c : ClassId} (hc : c.index < b.classes.size) : c.index < a.classes.size := hs.sameSize ▸ hc
  have hloaded (l : Nat) (n : String) : b.loaded? l n = a.loaded? l n := by
    rw [loaded?, hs.known, loaded?]
  refine ⟨hs.fit h.fit, ⟨?_, ?_⟩, ?_, ?_, ?_, ?_, ?_, ?_, ?_, ?_, ?_, ?_, ?_⟩
  · exact Nat.lt_of_lt_of_le h.boot.1 hs.loaders
  · exact (hs.mirrors 0 h.boot.1).trans h.boot.2
  · exact fun c hc => hsucc.laid (hsize hc) (h.laid c (hsize hc))
  · intro c hc
    obtain ⟨hhome, hprimitive⟩ := h.homes c (hsize hc)
    rw [hsucc.loader (hsize hc), hsucc.primitive (hsize hc)]
    exact ⟨Nat.lt_of_lt_of_le hhome hs.loaders, hprimitive⟩
  · intro c hc
    rw [hsucc.hasConstants (hsize hc)]
    exact (h.announced c (hsize hc)).imp_right fun hold => hold.mono hs.events
  · intro c hc hprimitive
    rw [hsucc.loader (hsize hc), hsucc.name (hsize hc), hs.known]
    exact h.known c (hsize hc) ((hsucc.primitive (hsize hc)).symm.trans hprimitive)
  · intro l n c hmem
    rw [hs.known] at hmem
    obtain ⟨hc, hname, hboot⟩ := h.named l n c hmem
    rw [hsucc.name hc, hsucc.primitive hc, hsucc.loader hc, hs.sameSize]
    exact ⟨hc, hname, hboot⟩
  · intro n c d hn hc hd
    rw [hs.known] at hc hd
    exact h.alone n c d hn hc hd
  · rw [hs.known]
    exact h.ordered.mono fun n c hmem => hsucc.supertypes (h.named 0 n c hmem).1
  · intro n c hmem
    rw [hs.primitives] at hmem
    obtain ⟨hc, hrest⟩ := h.primitives n c hmem
    rw [hsucc.loader hc, hsucc.component hc, hsucc.primitive hc, hs.sameSize]
    exact ⟨hc, hrest⟩
  · intro c hc
    rw [hsucc.primitive (hsize hc), hsucc.name (hsize hc), hs.primitives, hsucc.supertypes (hsize hc)]
    exact h.letters c (hsize hc)
  · intro hset
    rw [hloaded]
    rcases hs.charArray with hsame | ⟨-, hsome⟩
    · exact h.strings.1 (hsame ▸ hset)
    · exact hsome
  · intro hset
    rw [hloaded]
    rcases hs.string with hsame | ⟨-, hsome⟩
    · exact h.strings.2 (hsame ▸ hset)
    · exact hsome

/-- A machine evolves while no class comes and no loader learns. -/
theorem Evolves.alike {g : Guard} {a b : Machine} (h : a.Sound) (hs : Alike a b) : Evolves g a b where
  toSucceeds := hs.toSucceeds
  options := hs.options
  mirrors := hs.mirrors
  recorded l := hs.known l ▸ List.suffix_refl _
  charArray _ c hc := by rwa [Machine.loaded?, hs.known 0]
  fresh := .ofSize (Nat.le_of_eq hs.sameSize)
  strings := by
    refine ⟨fun hset => ?_, fun hset => ?_⟩
    · rcases hs.charArray with hsame | ⟨hset, -⟩
      · exact hsame ▸ hset
      · exact hset
    · rcases hs.string with hsame | ⟨hset, -⟩
      · exact hsame ▸ hset
      · exact hset
  sound := h.alike hs

/-- A steady change of a sound machine is growth. -/
theorem Grows.steady {a b : Machine} (h : a.Sound) (hs : Steady a b) : Grows a b :=
  ⟨.alike h hs.alike, funext hs.defining⟩

instance : Lax Growing where
  minor h hm := .steady hm h.toSteady
  stored _ hm := .steady hm (.ofSame (List.suffix_refl _) rfl rfl rfl rfl rfl rfl rfl)
  still h hm := .steady hm h.toSteady
  steady h hm := .steady hm h
  trans h h' hm := (h hm).trans (h' (h hm).sound)
  calm h h' hm := (h hm).trans (.steady (h hm).sound h'.toSteady)
  settle h h' hm := (h hm).trans (.steady (h hm).sound h'.toSteady)
  steadied h h' hm := (h hm).trans (.steady (h hm).sound h')
  halted := id

end JavaMachine
