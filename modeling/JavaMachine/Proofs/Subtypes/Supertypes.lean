import JavaMachine.Proofs.Loading.Components
import JavaMachine.Proofs.Machine.Lookups

/-!
The supertypes of the classes that the bootstrap loader knows. Every class has the class of objects above it, which has
nothing above it; below an interface and below an array class there is no other way through superclasses than to that
class. Main result: what is above a class is a superclass or an interface that it inherits, if the supertypes of the class
are of the right kind (`Legal.below_iff`). Those of class files are, and those of array classes are if what these implement
are interfaces (`Lawful.kinded`).
-/

namespace JavaMachine

namespace Machine

open Relation

/-- The bootstrap loader knows a class by its name. -/
def Native (m : Machine) (c : ClassId) : Prop := ((m.classAt c).name, c) ∈ (m.loaderAt 0).classes

/-- What array classes implement are interfaces that extend no others. -/
def PlainInterfaces (m : Machine) : Prop :=
  ∀ c, m.Native c → (m.classAt c).name = "java/lang/Cloneable" ∨ (m.classAt c).name = "java/io/Serializable" →
    (m.classAt c).isInterface ∧ (m.classAt c).interfaces = []

/-- What array classes implement extends no interfaces. -/
def BareInterfaces (m : Machine) : Prop :=
  ∀ c, m.Native c → (m.classAt c).name = "java/lang/Cloneable" ∨ (m.classAt c).name = "java/io/Serializable" →
    (m.classAt c).interfaces = []

/-- A machine whose class files have legal names. -/
structure Legal (m : Machine) : Prop where
  sound : m.Sound
  legal : m.LegalNames

/-- A machine whose array classes implement what they should, and whose class files have legal names. -/
structure Lawful (m : Machine) : Prop extends Legal m where
  plain : m.PlainInterfaces

/-- A class is another, or its superclass or superinterface in some number of steps. -/
def Below (m : Machine) : ClassId → ClassId → Prop := ReflTransGen fun c d => d ∈ (m.classAt c).supertypes

variable {m : Machine} {c d i o s : ClassId}

theorem mem_supertypes : d ∈ (m.classAt c).supertypes ↔ m.Extends c d ∨ m.Implements c d := by
  rw [Class.supertypes, List.mem_append, Option.mem_toList]
  rfl

theorem below_of_extends (h : ReflTransGen m.Extends c d) : m.Below c d :=
  ReflTransGen.mono (fun _ _ h => mem_supertypes.2 (.inl h)) _ _ h

theorem below_of_inherits (h : m.Inherits c d) : m.Below c d := by
  obtain ⟨k, hk, hd⟩ := h
  exact (below_of_extends hk).trans (ReflTransGen.mono (fun _ _ h => mem_supertypes.2 (.inr h)) _ _ hd.to_reflTransGen)

namespace Legal

variable (h : m.Legal)
include h

/-! ## Classes of the bootstrap loader -/

theorem native_iff : m.Native c ↔
    c.index < m.classes.size ∧ (m.classAt c).loader = 0 ∧ (m.classAt c).primitive = none := by
  refine ⟨fun hc => ?_, fun ⟨hc, hloader, hprimitive⟩ => ?_⟩
  · obtain ⟨hvalid, -, hboot⟩ := h.sound.named 0 _ c hc
    exact ⟨hvalid, hboot rfl⟩
  · have hknown := h.sound.known c hc hprimitive
    rwa [hloader] at hknown

/-- There is one class of a name, but for that of the char arrays. -/
theorem unique (hc : m.Native c) (hd : m.Native d) {name : String} (hname : (m.classAt c).name = name)
    (hname' : (m.classAt d).name = name) (hne : name ≠ charArrayName) : c = d := by
  unfold Native at hc hd
  rw [hname] at hc
  rw [hname'] at hd
  exact h.sound.alone name c d hne hc hd

theorem native_supertype (hc : m.Native c) (hd : d ∈ (m.classAt c).supertypes) : m.Native d := by
  obtain ⟨n, hn⟩ := h.sound.ordered.supertype hc hd
  obtain ⟨-, hname, -⟩ := h.sound.named 0 n d hn
  unfold Native
  rwa [hname]

theorem native_below (hc : m.Native c) (hd : m.Below c d) : m.Native d := by
  induction hd with
  | refl => exact hc
  | tail _ hstep ih => exact h.native_supertype ih hstep

/-- A class that is not named like an array class is of a class file, so its supertypes are of the right kind. -/
theorem kinds (hc : m.Native c) (harray : (m.classAt c).isArray = false) : m.Kinds (m.classAt c) := by
  obtain ⟨hvalid, -, hprimitive⟩ := h.native_iff.1 hc
  refine (h.sound.laid c hvalid).kinds ?_ hprimitive
  by_contra hcomponent
  have hname : (m.classAt c).isArray := ((h.sound.laid c hvalid).array hcomponent).name
  rw [harray] at hname
  cases hname

/-- A class that is named like an array class is one. -/
theorem array (hc : m.Native c) (harray : (m.classAt c).isArray) :
    (m.classAt c).OfArrays ∧ ∃ d, (m.classAt c).component = some d ∧ d.index < c.index ∧ d.index < m.classes.size ∧
      (m.classAt d).loader = 0 := by
  obtain ⟨hvalid, hloader, -⟩ := h.native_iff.1 hc
  have hlaid := h.sound.laid c hvalid
  cases hcomponent : (m.classAt c).component with
  | none =>
    have hplain := h.legal c hvalid hloader hcomponent
    rw [harray] at hplain
    cases hplain
  | some d =>
    have hlt := hlaid.component d hcomponent
    refine ⟨hlaid.array (by rw [hcomponent]; exact Option.some_ne_none d), d, rfl, hlt, Nat.lt_trans hlt hvalid, ?_⟩
    exact (hlaid.element d hcomponent).1.trans hloader

/-- What an array class implements is what has the names. -/
theorem array_implements_iff (hc : m.Native c) (harray : (m.classAt c).isArray) : m.Implements c i ↔
    m.Native i ∧ ((m.classAt i).name = "java/lang/Cloneable" ∨ (m.classAt i).name = "java/io/Serializable") := by
  obtain ⟨hvalid, -, -⟩ := h.native_iff.1 hc
  have hnames := (h.sound.laid c hvalid).interfaceNames
  rw [(h.array hc harray).1.interfaceNames] at hnames
  refine ⟨fun hi => ⟨h.native_supertype hc (mem_supertypes.2 (.inr hi)), ?_⟩, fun ⟨hi, hname⟩ => ?_⟩
  · have hmem : (m.classAt i).name ∈ (m.classAt c).interfaces.map fun i => (m.classAt i).name := List.mem_map_of_mem hi
    rw [hnames] at hmem
    simpa using hmem
  · have hmem : (m.classAt i).name ∈ (m.classAt c).interfaces.map fun i => (m.classAt i).name := by
      rw [hnames]
      simpa using hname
    obtain ⟨j, hj, hsame⟩ := List.mem_map.1 hmem
    have hnative : m.Native j := h.native_supertype hc (mem_supertypes.2 (.inr hj))
    obtain rfl : j = i := by
      rcases hname with hname | hname
      all_goals exact h.unique hnative hi (hsame.trans hname) hname (by decide +kernel)
    exact hj

/-! ## Kinds of supertypes -/

theorem interface_kind (hc : m.Native c) (hk : m.Kinds (m.classAt c)) (hi : m.Implements c i) :
    (m.classAt i).isInterface ∧ (m.classAt i).isArray = false := by
  have hnative : m.Native i := h.native_supertype hc (mem_supertypes.2 (.inr hi))
  have hinterface : (m.classAt i).isInterface := hk.interfaces i hi
  refine ⟨hinterface, Bool.eq_false_iff.2 fun harray => ?_⟩
  rw [(h.array hnative harray).1.interface] at hinterface
  cases hinterface

/-- The superclass of an interface and that of an array class is the class of objects. -/
theorem super_named (hc : m.Native c) (hs : m.Extends c s) (hflat : (m.classAt c).isInterface ∨ (m.classAt c).isArray) :
    (m.classAt s).name = objectName := by
  obtain ⟨hvalid, -, -⟩ := h.native_iff.1 hc
  by_cases harray : (m.classAt c).isArray
  · exact ((h.sound.laid c hvalid).super s hs).2.1.trans (h.array hc harray).1.superName
  · exact ((h.kinds hc (Bool.eq_false_iff.2 harray)).super s hs).2 (hflat.resolve_right harray)

/-- Every interface has a superclass that is none. -/
theorem interface_super (hi : m.Native i) (hinterface : (m.classAt i).isInterface)
    (hname : (m.classAt i).name ≠ objectName) :
    ∃ s, m.Extends i s ∧ (m.classAt s).name = objectName ∧ (m.classAt s).isInterface = false := by
  have harray : (m.classAt i).isArray = false := by
    refine Bool.eq_false_iff.2 fun harray => ?_
    rw [(h.array hi harray).1.interface] at hinterface
    cases hinterface
  have hkinds := h.kinds hi harray
  cases hsuper : (m.classAt i).super with
  | none => exact absurd (hkinds.root.1 hsuper) hname
  | some s =>
    obtain ⟨hclass, hobject⟩ := hkinds.super s hsuper
    exact ⟨s, hsuper, hobject hinterface, hclass⟩

theorem super_kind (hc : m.Native c) (hk : m.Kinds (m.classAt c)) (hs : m.Extends c s) :
    (m.classAt s).isInterface = false ∧ (m.classAt s).isArray = false := by
  obtain ⟨hvalid, -, -⟩ := h.native_iff.1 hc
  have hnative : m.Native s := h.native_supertype hc (mem_supertypes.2 (.inl hs))
  obtain ⟨hsvalid, hsloader, -⟩ := h.native_iff.1 hnative
  exact ⟨(hk.super s hs).1, h.legal s hsvalid hsloader ((h.sound.laid c hvalid).super s hs).2.2⟩

/-- Above a class whose supertypes are of the right kind there are only such classes. -/
theorem below_kinds (hc : m.Native c) (hk : m.Kinds (m.classAt c)) (hd : m.Below c d) : m.Kinds (m.classAt d) := by
  induction hd with
  | refl => exact hk
  | @tail b d hb hd ih =>
    have hnative := h.native_below hc hb
    refine h.kinds (h.native_supertype hnative hd) ?_
    exact (mem_supertypes.1 hd).elim (fun hs => (h.super_kind hnative ih hs).2) fun hi => (h.interface_kind hnative ih hi).2

/-! ## The class of objects -/

omit h in
theorem not_array_of_object (hname : (m.classAt o).name = objectName) : (m.classAt o).isArray = false := by
  rw [Class.isArray, hname]
  decide +kernel

/-- The class of objects has no supertypes. -/
theorem object_supertypes (ho : m.Native o) (hname : (m.classAt o).name = objectName) :
    (m.classAt o).supertypes = [] := by
  have hkinds := h.kinds ho (not_array_of_object hname)
  refine List.eq_nil_iff_forall_not_mem.2 fun i hi => ?_
  rcases mem_supertypes.1 hi with hs | hi'
  · rw [Extends, hkinds.root.2 hname] at hs
    cases hs
  · -- an interface of it would have it as its superclass
    have hnative := h.native_supertype ho hi
    have hlt := h.sound.fit.rooted.interfaces o i hi'
    have hne : (m.classAt i).name ≠ objectName := by
      intro hsame
      obtain rfl := h.unique hnative ho hsame hname (by decide +kernel)
      exact Nat.lt_irrefl _ hlt
    obtain ⟨s, hs, hobject, -⟩ := h.interface_super hnative (h.interface_kind ho hkinds hi').1 hne
    have hsnative := h.native_supertype hnative (mem_supertypes.2 (.inl hs))
    obtain rfl := h.unique hsnative ho hobject hname (by decide +kernel)
    exact absurd (h.sound.fit.rooted.super i s hs) (Nat.not_lt.2 (Nat.le_of_lt hlt))

theorem eq_of_object_below (ho : m.Native o) (hname : (m.classAt o).name = objectName) (hd : m.Below o d) : d = o := by
  rcases ReflTransGen.cases_head hd with hsame | ⟨k, hk, -⟩
  · exact hsame.symm
  · rw [h.object_supertypes ho hname] at hk
    cases hk

/-- Every other class has a superclass. -/
theorem exists_super (hc : m.Native c) (hname : (m.classAt c).name ≠ objectName) : ∃ s, m.Extends c s := by
  obtain ⟨hvalid, -, -⟩ := h.native_iff.1 hc
  cases hsuper : (m.classAt c).super with
  | some s => exact ⟨s, hsuper⟩
  | none =>
    by_cases harray : (m.classAt c).isArray
    · have hnothing := (h.sound.laid c hvalid).root hsuper
      rw [(h.array hc harray).1.superName] at hnothing
      exact absurd hnothing (by decide +kernel)
    · exact absurd ((h.kinds hc (Bool.eq_false_iff.2 harray)).root.1 hsuper) hname

/-- Every class extends the class of objects. -/
theorem extends_object (hc : m.Native c) (ho : m.Native o) (hname : (m.classAt o).name = objectName) :
    ReflTransGen m.Extends c o := by
  induction hindex : c.index using Nat.strongRecOn generalizing c with
  | ind n ih =>
    subst hindex
    by_cases hobject : (m.classAt c).name = objectName
    · rw [h.unique hc ho hobject hname (by decide +kernel)]
    · obtain ⟨s, hs⟩ := h.exists_super hc hobject
      have hnative := h.native_supertype hc (mem_supertypes.2 (.inl hs))
      exact .head hs (ih s.index (h.sound.fit.rooted.super c s hs) hnative rfl)

/-! ## What is above a class -/

/-- An interface and an array class have only the class of objects above them as a superclass. -/
theorem extends_flat_iff (hc : m.Native c) (hflat : (m.classAt c).isInterface ∨ (m.classAt c).isArray) :
    ReflTransGen m.Extends c d ↔ d = c ∨ m.Native d ∧ (m.classAt d).name = objectName := by
  refine ⟨fun hd => ?_, ?_⟩
  · rcases ReflTransGen.cases_head hd with hsame | ⟨s, hs, hd⟩
    · exact .inl hsame.symm
    · have hnative := h.native_supertype hc (mem_supertypes.2 (.inl hs))
      have hname := h.super_named hc hs hflat
      obtain rfl := h.eq_of_object_below hnative hname (below_of_extends hd)
      exact .inr ⟨hnative, hname⟩
  · rintro (rfl | ⟨hd, hname⟩)
    · exact .refl
    · exact h.extends_object hc hd hname

/-- An interface and an array class inherit nothing from a superclass. -/
theorem inherits_flat_iff (hc : m.Native c) (hflat : (m.classAt c).isInterface ∨ (m.classAt c).isArray) :
    m.Inherits c i ↔ TransGen m.Implements c i := by
  refine ⟨fun ⟨k, hk, hi⟩ => ?_, fun hi => ⟨c, .refl, hi⟩⟩
  rcases (h.extends_flat_iff hc hflat).1 hk with rfl | ⟨hnative, hname⟩
  · exact hi
  · obtain ⟨j, hj, -⟩ := TransGen.head'_iff.1 hi
    have hmem := mem_supertypes.2 (.inr hj)
    rw [h.object_supertypes hnative hname] at hmem
    cases hmem

/-- What a class inherits is an interface. -/
theorem inherits_kind (hc : m.Native c) (hk : m.Kinds (m.classAt c)) (hi : m.Inherits c i) :
    (m.classAt i).isInterface ∧ (m.classAt i).isArray = false := by
  obtain ⟨k, hck, hi⟩ := hi
  obtain ⟨j, hj, hi⟩ := TransGen.tail'_iff.1 hi
  have hbelow : m.Below c j :=
    (below_of_extends hck).trans (ReflTransGen.mono (fun _ _ h => mem_supertypes.2 (.inr h)) _ _ hj)
  exact h.interface_kind (h.native_below hc hbelow) (h.below_kinds hc hk hbelow) hi

/-- A superclass of a class in some steps is no interface and no array class, if it is not the class itself. -/
theorem extends_kind (hc : m.Native c) (hk : m.Kinds (m.classAt c)) (hd : ReflTransGen m.Extends c d) :
    d = c ∨ (m.classAt d).isInterface = false ∧ (m.classAt d).isArray = false := by
  rcases ReflTransGen.cases_tail hd with hsame | ⟨k, hck, hd⟩
  · exact .inl hsame
  · exact .inr (h.super_kind (h.native_below hc (below_of_extends hck)) (h.below_kinds hc hk (below_of_extends hck)) hd)

/-- What is above a class is the class itself, a superclass, or an interface that it inherits. -/
theorem below_iff (hc : m.Native c) (hk : m.Kinds (m.classAt c)) :
    m.Below c d ↔ ReflTransGen m.Extends c d ∨ m.Inherits c d := by
  refine ⟨fun hd => ?_, fun hd => hd.elim below_of_extends below_of_inherits⟩
  induction hd with
  | refl => exact .inl .refl
  | @tail k d hck hd ih =>
    have hnative := h.native_below hc hck
    rcases mem_supertypes.1 hd with hd | hd
    · rcases ih with hextends | hinherits
      · exact .inl (hextends.tail hd)
      · -- above an interface there is the class of objects, which the class extends too
        have hname := h.super_named hnative hd (.inl (h.inherits_kind hc hk hinherits).1)
        have hdnative := h.native_supertype hnative (mem_supertypes.2 (.inl hd))
        exact .inl (h.extends_object hc hdnative hname)
    · rcases ih with hextends | ⟨j, hj, hjk⟩
      · exact .inr ⟨k, hextends, .single hd⟩
      · exact .inr ⟨j, hj, hjk.tail hd⟩

/-- No array class is above another class. -/
theorem below_kind (hc : m.Native c) (hk : m.Kinds (m.classAt c)) (hd : m.Below c d) :
    d = c ∨ (m.classAt d).isArray = false := by
  rcases ReflTransGen.cases_tail hd with hsame | ⟨k, hck, hd⟩
  · exact .inl hsame
  · have hnative := h.native_below hc hck
    have hkinds := h.below_kinds hc hk hck
    exact .inr ((mem_supertypes.1 hd).elim (fun hd => (h.super_kind hnative hkinds hd).2) fun hd =>
      (h.interface_kind hnative hkinds hd).2)

/-- Above a class there are no interfaces but those that it inherits, and the class itself. -/
theorem below_interface_iff (hc : m.Native c) (hk : m.Kinds (m.classAt c)) (hne : c ≠ d)
    (hinterface : (m.classAt d).isInterface) :
    m.Below c d ↔ m.Inherits c d := by
  rw [h.below_iff hc hk]
  refine ⟨fun hd => hd.resolve_left fun hd => ?_, .inr⟩
  rcases h.extends_kind hc hk hd with rfl | ⟨hclass, -⟩
  · exact hne rfl
  · rw [hinterface] at hclass
    cases hclass

/-- What is above a class and no interface is a superclass. -/
theorem below_class_iff (hc : m.Native c) (hk : m.Kinds (m.classAt c)) (hclass : (m.classAt d).isInterface = false) :
    m.Below c d ↔ ReflTransGen m.Extends c d := by
  rw [h.below_iff hc hk]
  refine ⟨fun hd => hd.resolve_right fun hd => ?_, .inl⟩
  have hinterface := (h.inherits_kind hc hk hd).1
  rw [hclass] at hinterface
  cases hinterface

end Legal

namespace Lawful

variable (h : m.Lawful)
include h

theorem bare : m.BareInterfaces := fun c hc hname => (h.plain c hc hname).2

/-- The supertypes of every class are of the right kind. -/
theorem kinded (hc : m.Native c) : m.Kinds (m.classAt c) := by
  by_cases harray : (m.classAt c).isArray
  · have hinterface (i : ClassId) (hi : m.Implements c i) : (m.classAt i).isInterface := by
      obtain ⟨hnative, hname⟩ := (h.array_implements_iff hc harray).1 hi
      exact (h.plain i hnative hname).1
    have hne : (m.classAt c).name ≠ objectName := fun hname => by
      rw [Legal.not_array_of_object hname] at harray
      cases harray
    refine ⟨iff_of_false (fun hnone => ?_) hne, fun s hs => ⟨?_, fun _ => h.super_named hc hs (.inr harray)⟩, hinterface⟩
    · obtain ⟨s, hs⟩ := h.exists_super hc hne
      cases hnone.symm.trans hs
    · -- the class of objects is no interface, for it is the superclass of one that arrays implement
      obtain ⟨i, hi⟩ : ∃ i, i ∈ (m.classAt c).interfaces := by
        have hnames := (h.sound.laid c (h.native_iff.1 hc).1).interfaceNames
        rw [(h.array hc harray).1.interfaceNames] at hnames
        cases hinterfaces : (m.classAt c).interfaces with
        | nil => rw [hinterfaces] at hnames; cases hnames
        | cons i _ => exact ⟨i, List.mem_cons_self⟩
      obtain ⟨hinative, hname⟩ := (h.array_implements_iff hc harray).1 hi
      have hne' : (m.classAt i).name ≠ objectName := by
        rcases hname with hname | hname
        all_goals
          rw [hname]
          decide +kernel
      obtain ⟨o, ho, hobject, hclass⟩ := h.interface_super hinative (hinterface i hi) hne'
      have honative := h.native_supertype hinative (mem_supertypes.2 (.inl ho))
      have hnative : m.Native s := h.native_supertype hc (mem_supertypes.2 (.inl hs))
      rwa [h.unique hnative honative (h.super_named hc hs (.inr harray)) hobject (by decide +kernel)]
  · exact h.kinds hc (Bool.eq_false_iff.2 harray)

/-- An array class inherits what has the names that it implements, for that extends nothing. -/
theorem array_inherits_iff (hc : m.Native c) (harray : (m.classAt c).isArray) : m.Inherits c i ↔
    m.Native i ∧ ((m.classAt i).name = "java/lang/Cloneable" ∨ (m.classAt i).name = "java/io/Serializable") := by
  rw [h.inherits_flat_iff hc (.inr harray), TransGen.head'_iff, ← h.array_implements_iff hc harray]
  refine ⟨fun ⟨j, hj, hi⟩ => ?_, fun hi => ⟨i, hi, .refl⟩⟩
  rcases ReflTransGen.cases_head hi with rfl | ⟨k, hk, -⟩
  · exact hj
  · obtain ⟨hnative, hname⟩ := (h.array_implements_iff hc harray).1 hj
    rw [Implements, (h.plain j hnative hname).2] at hk
    cases hk

end Lawful

end Machine

end JavaMachine
