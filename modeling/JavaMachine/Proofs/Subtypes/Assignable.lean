import JavaMachine.Proofs.Subtypes.Supertypes

/-!
The test whether values of one class may be stored in a variable of another. The classes of the bootstrap loader are
ordered by their superclasses, their superinterfaces and the classes of their elements (`Subtype`), and the test decides
that order (`Attained.assignable_decides`). Arrays may be stored where every array may, and otherwise only where those of
other array classes may (`Legal.isAssignable_tops_iff`); that is what the test is transitive by. It goes on to the classes of
elements, which have names, so it stops at none of them (`Legal.testHaltWithin_eq_none`).
-/

namespace JavaMachine

open M

namespace Machine

open Relation

/-- The order of classes: the least one that has superclasses, superinterfaces, and array classes whose elements are ordered
and not primitive. -/
inductive Subtype (m : Machine) : ClassId → ClassId → Prop where
  | refl (c : ClassId) : Subtype m c c
  | trans {b c d : ClassId} : Subtype m b c → Subtype m c d → Subtype m b d
  | super {c s : ClassId} : m.Extends c s → Subtype m c s
  | interface {c i : ClassId} : m.Implements c i → Subtype m c i
  | array {a b s t : ClassId} : (m.classAt a).component = some s → (m.classAt b).component = some t → Subtype m s t →
      (m.classAt s).primitive = none → (m.classAt t).primitive = none → Subtype m a b

/-- A class of the bootstrap loader, which may be primitive. -/
structure AtHome (m : Machine) (c : ClassId) : Prop where
  valid : c.index < m.classes.size
  loader : (m.classAt c).loader = 0

/-- A class of the bootstrap loader that has a name. -/
structure Resident (m : Machine) (c : ClassId) : Prop extends AtHome m c where
  named : (m.classAt c).name ≠ ""

/-- If the class is one of arrays of a primitive type, or of arrays of such and so on, then this type has no other class of
arrays. -/
def Unrivalled (m : Machine) (c : ClassId) : Prop :=
  ∀ a b p, ReflTransGen (fun k e => (m.classAt k).component = some e) c a → m.AtHome b → (m.classAt a).component = some p →
    (m.classAt b).component = some p → (m.classAt p).primitive ≠ none → b = a

/-- Two array classes have the same elements, or the elements of one may be stored where those of the other may. -/
def Covers (m : Machine) (test : ClassId → ClassId → Bool) (a b : ClassId) : Prop :=
  ∃ s t, (m.classAt a).component = some s ∧ (m.classAt b).component = some t ∧
    (s = t ∨ (m.classAt s).primitive = none ∧ (m.classAt t).primitive = none ∧ test t s = true)

/-- What values of every array class may be stored in: the class of objects, and what array classes implement, if that is an
interface. -/
def Tops (m : Machine) (d : ClassId) : Prop :=
  (m.classAt d).isInterface = false ∧ (m.classAt d).name = objectName ∨
    (m.classAt d).isInterface ∧ ((m.classAt d).name = "java/lang/Cloneable" ∨ (m.classAt d).name = "java/io/Serializable")

variable {m : Machine} {a b c d s t : ClassId} {n : Nat}

theorem Unrivalled.component (h : m.Unrivalled c) (hs : (m.classAt c).component = some s) : m.Unrivalled s :=
  fun a b p ha => h a b p (.head hs ha)

/-- Nothing else needs to be looked at where the elements are neither arrays nor primitive. -/
theorem unrivalled_of_ordinary (hs : (m.classAt c).component = some s) (hordinary : (m.classAt s).primitive = none)
    (hplain : (m.classAt s).component = none) : m.Unrivalled c := by
  intro a b p ha hb hp hp' hprimitive
  rcases ReflTransGen.cases_head ha with rfl | ⟨k, hk, hka⟩
  · rw [Option.some_inj.1 (hp.symm.trans hs)] at hprimitive
    exact absurd hordinary hprimitive
  · obtain rfl := Option.some_inj.1 (hs.symm.trans hk)
    rcases ReflTransGen.cases_head hka with rfl | ⟨k', hk', -⟩
    · rw [hplain] at hp
      cases hp
    · rw [hplain] at hk'
      cases hk'

theorem run_assignable (h : m.testHalt? d c = none) : assignable d c m = .ok (m.isAssignable d c) m := by
  have hrun : assignable d c m = (do haltFor (m.testHalt? d c); pure (m.isAssignable d c)) m := rfl
  rw [hrun, h]
  rfl

theorem isAssignable_of_run (h : assignable d c m = .ok true m) : m.isAssignable d c = true :=
  (After.of_ok (after_assignable d c m) h).2.2.symm

theorem subtype_of_below (h : m.Below c d) : m.Subtype c d := by
  induction h with
  | refl => exact .refl c
  | tail _ hd ih => exact ih.trans ((mem_supertypes.1 hd).elim .super .interface)

/-- The test between the elements of two array classes. -/
theorem elements_test_iff (hs : (m.classAt a).component = some s) (ht : (m.classAt b).component = some t) :
    (if (m.classAt s).isPrimitive || (m.classAt t).isPrimitive then s == t else m.assignableWithin n t s) = true ↔
      m.Covers (m.assignableWithin n) a b := by
  have hordinary : ¬ ((m.classAt s).isPrimitive || (m.classAt t).isPrimitive) ↔
      (m.classAt s).primitive = none ∧ (m.classAt t).primitive = none := by
    simp [Class.isPrimitive]
  constructor
  · intro htest
    refine ⟨s, t, hs, ht, ?_⟩
    split at htest
    · exact .inl (eq_of_beq htest)
    · next hplain =>
      obtain ⟨hs', ht'⟩ := hordinary.1 hplain
      exact .inr ⟨hs', ht', htest⟩
  · rintro ⟨s', t', hs', ht', hor⟩
    obtain rfl := Option.some_inj.1 (hs.symm.trans hs')
    obtain rfl := Option.some_inj.1 (ht.symm.trans ht')
    rcases hor with rfl | ⟨hs', ht', htest⟩
    · rw [beq_self_eq_true, assignableWithin_refl, ite_self]
    · rwa [if_neg (hordinary.2 ⟨hs', ht'⟩)]

namespace Legal

variable (h : m.Legal)
include h

/-! ## Classes at home -/

theorem atHome_of_native (hc : m.Native c) : m.AtHome c := by
  obtain ⟨hvalid, hloader, -⟩ := h.native_iff.1 hc
  exact ⟨hvalid, hloader⟩

/-- A primitive class is a class by itself. -/
theorem primitive_alone (hc : m.AtHome c) {letter : Char} (hletter : (m.classAt c).primitive = some letter) :
    (m.classAt c).isArray = false ∧ (m.classAt c).supertypes = [] ∧ (m.classAt c).name ≠ objectName ∧
      (m.classAt c).name ≠ "java/lang/Cloneable" ∧ (m.classAt c).name ≠ "java/io/Serializable" := by
  obtain ⟨hname, -, hnothing⟩ := h.sound.letters c hc.valid letter hletter
  have hkeyword := (Descriptor.of_primitiveName? hname).2.1
  have hordinary {name : String} (hnone : Descriptor.primitiveLetter? name = none) : (m.classAt c).name ≠ name := by
    rintro rfl
    rw [hnone] at hkeyword
    cases hkeyword
  exact ⟨(h.sound.primitive_named hc.valid hletter).1, hnothing, hordinary (by decide +kernel),
    hordinary (by decide +kernel), hordinary (by decide +kernel)⟩

theorem native_of_ordinary (hc : m.AtHome c) (hprimitive : (m.classAt c).primitive = none) : m.Native c :=
  h.native_iff.2 ⟨hc.valid, hc.loader, hprimitive⟩

/-- Classes with the name of a supertype of array classes are not primitive. -/
theorem native_of_named (hc : m.AtHome c) (hname : (m.classAt c).name = objectName ∨
    (m.classAt c).name = "java/lang/Cloneable" ∨ (m.classAt c).name = "java/io/Serializable") : m.Native c := by
  refine h.native_of_ordinary hc (Option.eq_none_iff_forall_ne_some.2 fun letter hletter => ?_)
  obtain ⟨-, -, hobject, hcloneable, hserializable⟩ := h.primitive_alone hc hletter
  rcases hname with hname | hname | hname
  · exact hobject hname
  · exact hcloneable hname
  · exact hserializable hname

/-- Nothing but the class itself is above a class at home that is primitive. -/
theorem atHome_below (hc : m.AtHome c) (hd : m.Below c d) : d = c ∨ m.Native c ∧ m.Native d := by
  cases hprimitive : (m.classAt c).primitive with
  | none =>
    have hnative := h.native_of_ordinary hc hprimitive
    exact .inr ⟨hnative, h.native_below hnative hd⟩
  | some letter =>
    rcases ReflTransGen.cases_head hd with hsame | ⟨k, hk, -⟩
    · exact .inl hsame.symm
    · rw [(h.primitive_alone hc hprimitive).2.1] at hk
      cases hk

/-! ## The test -/

/-- The test between two different classes, of which the first is no array class and neither is primitive. -/
theorem plain_test_iff (hc : m.Native c) (hk : m.Kinds (m.classAt c)) (hd : m.Native d) (hne : c ≠ d) :
    (if (m.classAt c).isInterface then
        if (m.classAt d).isInterface then m.isSubinterfaceOf c d else (m.classAt d).name == objectName
      else if (m.classAt d).isInterface then m.implements c d
      else m.isSubclassOf c d) = true ↔ m.Below c d := by
  have hvalid := (h.native_iff.1 hc).1
  have hrooted := h.sound.fit.rooted
  by_cases hinterface : (m.classAt d).isInterface
  · rw [h.below_interface_iff hc hk hne hinterface]
    by_cases hflat : (m.classAt c).isInterface
    · rw [if_pos hflat, if_pos hinterface, hrooted.isSubinterfaceOf_iff hvalid, h.inherits_flat_iff hc (.inl hflat)]
    · rw [if_neg hflat, if_pos hinterface, hrooted.implements_iff hvalid]
  · rw [h.below_class_iff hc hk (Bool.eq_false_iff.2 hinterface)]
    by_cases hflat : (m.classAt c).isInterface
    · rw [if_pos hflat, if_neg hinterface, h.extends_flat_iff hc (.inl hflat), beq_iff_eq]
      exact ⟨fun hname => .inr ⟨hd, hname⟩, fun hor => (hor.resolve_left hne.symm).2⟩
    · rw [if_neg hflat, if_neg hinterface, hrooted.isSubclassOf_iff hvalid, reflTransGen_iff_eq_or_transGen]
      exact ⟨.inr, fun hor => hor.resolve_left hne.symm⟩

/-- The test for a class that is no array class looks for what is above it. -/
theorem assignableWithin_plain_iff (hc : m.AtHome c) (harray : (m.classAt c).isArray = false) (hd : m.AtHome d) :
    m.assignableWithin (n + 1) d c = true ↔ m.Below c d := by
  by_cases hsame : c = d
  · subst hsame
    rw [assignableWithin, if_pos (beq_self_eq_true c)]
    exact ⟨fun _ => .refl, fun _ => rfl⟩
  rw [assignableWithin, if_neg (by simpa using hsame)]
  dsimp only
  rw [harray, if_neg Bool.false_ne_true]
  by_cases hordinary : (m.classAt c).primitive = none ∧ (m.classAt d).primitive = none
  · rw [if_neg (by simp [Class.isPrimitive, hordinary])]
    have hnative := h.native_of_ordinary hc hordinary.1
    exact h.plain_test_iff hnative (h.kinds hnative harray) (h.native_of_ordinary hd hordinary.2) hsame
  · have hprimitive : (m.classAt c).isPrimitive || (m.classAt d).isPrimitive := by
      simpa [Class.isPrimitive, Option.isSome_iff_ne_none, -not_and, not_and_or] using hordinary
    rw [if_pos hprimitive]
    refine ⟨fun htrue => absurd htrue Bool.false_ne_true, fun hbelow => absurd ?_ hordinary⟩
    obtain ⟨hnative, hnative'⟩ := (h.atHome_below hc hbelow).resolve_left fun heq => hsame heq.symm
    exact ⟨(h.native_iff.1 hnative).2.2, (h.native_iff.1 hnative').2.2⟩

/-- The test for an array class looks for what every array may be stored in, or compares the elements. -/
theorem assignableWithin_tops_iff (hc : m.Native c) (harray : (m.classAt c).isArray) (hd : m.AtHome d) :
    m.assignableWithin (n + 1) d c = true ↔ (d = c ∨ m.Tops d) ∨ m.Covers (m.assignableWithin n) c d := by
  by_cases hsame : c = d
  · subst hsame
    rw [assignableWithin, if_pos (beq_self_eq_true c)]
    exact ⟨fun _ => .inl (.inl rfl), fun _ => rfl⟩
  obtain ⟨-, s, hs, -⟩ := h.array hc harray
  rw [or_iff_right (Ne.symm hsame), assignableWithin, if_neg (by simpa using hsame)]
  dsimp only
  rw [harray, if_pos rfl]
  by_cases harray' : (m.classAt d).isArray
  · have hnative : m.Native d := by
      refine h.native_of_ordinary hd (Option.eq_none_iff_forall_ne_some.2 fun letter hletter => ?_)
      rw [(h.primitive_alone hd hletter).1] at harray'
      cases harray'
    obtain ⟨hof, t, ht, -⟩ := h.array hnative harray'
    have htops : ¬ m.Tops d := by
      rintro (⟨-, hname⟩ | ⟨hinterface, -⟩)
      · rw [not_array_of_object hname] at harray'
        cases harray'
      · rw [hof.interface] at hinterface
        cases hinterface
    rw [if_pos harray', hs, ht, or_iff_right htops]
    exact elements_test_iff hs ht
  · have helements : ¬ m.Covers (m.assignableWithin n) c d := by
      rintro ⟨-, t, -, ht, -⟩
      exact harray' ((h.sound.laid d hd.valid).array (by rw [ht]; exact Option.some_ne_none t)).name
    rw [if_neg harray', or_iff_left helements, Tops]
    by_cases hinterface : (m.classAt d).isInterface
    · simp [hinterface]
    · simp [hinterface]

/-! ## Transitivity -/

/-- The test does not depend on how deep it may go, if that is as deep as there are older classes. -/
theorem assignableWithin_eq (hc : c.index < m.classes.size) (hd : d.index < m.classes.size) (hn : c.index < n) :
    m.assignableWithin n d c = m.isAssignable d c :=
  (Succeeds.assignableWithin h.sound.fit.rooted (.refl m) hd hc (Nat.lt_succ_of_lt hc) hn)

theorem isAssignable_plain_iff (hc : m.AtHome c) (harray : (m.classAt c).isArray = false) (hd : m.AtHome d) :
    m.isAssignable d c = true ↔ m.Below c d := h.assignableWithin_plain_iff hc harray hd

/-- Values of an array class may be stored where every array may, and where those of array classes may that have the same
elements or elements for which this holds. -/
theorem isAssignable_tops_iff (hc : m.Native c) (harray : (m.classAt c).isArray) (hd : m.AtHome d) :
    m.isAssignable d c = true ↔ (d = c ∨ m.Tops d) ∨ m.Covers m.isAssignable c d := by
  rw [isAssignable, h.assignableWithin_tops_iff hc harray hd]
  refine or_congr_right (exists_congr fun s => exists_congr fun t => and_congr_right fun hs => and_congr_right fun ht => ?_)
  have hvalid := (h.native_iff.1 hc).1
  have hlt := (h.sound.laid c hvalid).component s hs
  have htvalid : t.index < m.classes.size := Nat.lt_trans ((h.sound.laid d hd.valid).component t ht) hd.valid
  rw [h.assignableWithin_eq (Nat.lt_trans hlt hvalid) htvalid (Nat.lt_trans hlt hvalid)]

theorem native_of_array (hc : m.AtHome c) (harray : (m.classAt c).isArray) : m.Native c := by
  refine h.native_of_ordinary hc (Option.eq_none_iff_forall_ne_some.2 fun letter hletter => ?_)
  rw [(h.primitive_alone hc hletter).1] at harray
  cases harray

/-- An array class and the class of its elements are at home together. -/
theorem atHome_component (hs : (m.classAt a).component = some s) :
    (m.classAt a).isArray ∧ s.index < a.index ∧ (m.AtHome s ↔ m.AtHome a) := by
  have hvalid : a.index < m.classes.size := by
    refine Nat.lt_of_not_le fun hle => ?_
    rw [classAt_of_le hle] at hs
    cases hs
  have hlaid := h.sound.laid a hvalid
  have hlt := hlaid.component s hs
  have hloader := (hlaid.element s hs).1
  exact ⟨(hlaid.array (by rw [hs]; exact Option.some_ne_none s)).name, hlt,
    fun hs => ⟨hvalid, hloader ▸ hs.loader⟩, fun ha => ⟨Nat.lt_trans hlt hvalid, hloader.trans ha.loader⟩⟩

theorem resident_component (ha : m.AtHome a) (hs : (m.classAt a).component = some s) : m.Resident s where
  toAtHome := (h.atHome_component hs).2.2.2 ha
  named := h.sound.component_name_ne_empty ha.valid hs

/-- The test between classes that have names ends. -/
theorem testHaltWithin_eq_none (n : Nat) (hc : m.Resident c) (hd : m.Resident d) : m.testHaltWithin n d c = none := by
  induction n generalizing c d with
  | zero => rfl
  | succ n ih =>
    rw [testHaltWithin]
    split
    · rfl
    dsimp only
    rw [nameHalt?, if_neg hc.named, nameHalt?, if_neg hd.named]
    split
    · next harray =>
      split
      · next harray' =>
        obtain ⟨-, s, hs, -⟩ := h.array (h.native_of_array hc.toAtHome harray) harray
        obtain ⟨-, t, ht, -⟩ := h.array (h.native_of_array hd.toAtHome harray') harray'
        rw [hs, ht]
        dsimp only
        rw [ih (h.resident_component hc.toAtHome hs) (h.resident_component hd.toAtHome ht), ite_self]
        rfl
      · rfl
    · rfl

theorem run_assignable (hc : m.Resident c) (hd : m.Resident d) : assignable d c m = .ok (m.isAssignable d c) m :=
  Machine.run_assignable (h.testHaltWithin_eq_none _ hc hd)

/-- Nothing but itself and the class of objects is above what every array may be stored in, and that is no array class. -/
theorem tops_of_below (hbare : m.BareInterfaces) (hd : m.AtHome d) (htops : m.Tops d) (hs : m.Below d s) :
    (m.classAt d).isArray = false ∧ m.Tops s := by
  rcases htops with ⟨hclass, hname⟩ | ⟨hinterface, hname⟩
  · have hnative := h.native_of_named hd (.inl hname)
    rw [h.eq_of_object_below hnative hname hs]
    exact ⟨not_array_of_object hname, .inl ⟨hclass, hname⟩⟩
  · have hnative := h.native_of_named hd (.inr hname)
    have harray : (m.classAt d).isArray = false := Bool.eq_false_iff.2 fun harray => by
      rw [(h.array hnative harray).1.interface] at hinterface
      cases hinterface
    refine ⟨harray, ?_⟩
    rcases ReflTransGen.cases_head hs with rfl | ⟨k, hk, hks⟩
    · exact .inr ⟨hinterface, hname⟩
    · have hk' := (mem_supertypes.1 hk).resolve_right fun hi => by
        rw [Implements, hbare d hnative hname] at hi
        cases hi
      obtain ⟨hclass, hobject⟩ := (h.kinds hnative harray).super k hk'
      rw [h.eq_of_object_below (h.native_supertype hnative hk) (hobject hinterface) hks]
      exact .inl ⟨hclass, hobject hinterface⟩

/-- The test is transitive, by induction on the age of the first class. -/
theorem isAssignable_trans (hbare : m.BareInterfaces) (ha : m.AtHome a) (hb : m.AtHome b) (hc : m.AtHome c)
    (hab : m.isAssignable b a = true) (hbc : m.isAssignable c b = true) : m.isAssignable c a = true := by
  induction hindex : a.index using Nat.strongRecOn generalizing a b c with
  | ind n ih =>
    subst hindex
    by_cases harray : (m.classAt a).isArray
    · have hnative := h.native_of_array ha harray
      rcases (h.isAssignable_tops_iff hnative harray hb).1 hab with (rfl | htops) | ⟨s, t, hs, ht, hor⟩
      · exact hbc
      · -- above what every array may be stored in there is nothing else
        have hplain := (h.tops_of_below hbare hb htops .refl).1
        have hbelow := (h.isAssignable_plain_iff hb hplain hc).1 hbc
        exact (h.isAssignable_tops_iff hnative harray hc).2 (.inl (.inr (h.tops_of_below hbare hb htops hbelow).2))
      · obtain ⟨harray', -, -⟩ := h.atHome_component ht
        have hnative' := h.native_of_array hb harray'
        rcases (h.isAssignable_tops_iff hnative' harray' hc).1 hbc with (rfl | htops) | ⟨t', u, ht', hu, hor'⟩
        · exact hab
        · exact (h.isAssignable_tops_iff hnative harray hc).2 (.inl (.inr htops))
        · obtain rfl := Option.some_inj.1 (ht.symm.trans ht')
          refine (h.isAssignable_tops_iff hnative harray hc).2 (.inr ⟨s, u, hs, hu, ?_⟩)
          rcases hor with rfl | ⟨hordinary, hordinary', hst⟩
          · exact hor'
          · rcases hor' with rfl | ⟨-, hu', htu⟩
            · exact .inr ⟨hordinary, hordinary', hst⟩
            · obtain ⟨-, hlt, hhome⟩ := h.atHome_component hs
              exact .inr ⟨hordinary, hu', ih s.index hlt (hhome.2 ha) ((h.atHome_component ht).2.2.2 hb)
                ((h.atHome_component hu).2.2.2 hc) hst htu rfl⟩
    · have hplain := Bool.eq_false_iff.2 harray
      have hbelow := (h.isAssignable_plain_iff ha hplain hb).1 hab
      have hplain' : (m.classAt b).isArray = false := by
        rcases h.atHome_below ha hbelow with rfl | ⟨hnative, -⟩
        · exact hplain
        · exact (h.below_kind hnative (h.kinds hnative hplain) hbelow).elim (fun heq => heq ▸ hplain) id
      exact (h.isAssignable_plain_iff ha hplain hc).2 (hbelow.trans ((h.isAssignable_plain_iff hb hplain' hc).1 hbc))

end Legal

namespace Lawful

variable (h : m.Lawful)
include h

/-! ## The order -/

/-- What is above an array class is what every array may be stored in. -/
theorem below_array_iff (hc : m.Native c) (harray : (m.classAt c).isArray) (hd : m.AtHome d) :
    m.Below c d ↔ d = c ∨ m.Tops d := by
  by_cases hsame : d = c
  · subst hsame
    exact ⟨fun _ => .inl rfl, fun _ => .refl⟩
  rw [or_iff_right hsame, Tops]
  by_cases hinterface : (m.classAt d).isInterface
  · rw [h.below_interface_iff hc (h.kinded hc) (Ne.symm hsame) hinterface, h.array_inherits_iff hc harray]
    simp only [hinterface, Bool.true_eq_false, false_and, true_and, false_or]
    exact ⟨And.right, fun hname => ⟨h.native_of_named hd (.inr hname), hname⟩⟩
  · rw [h.below_class_iff hc (h.kinded hc) (Bool.eq_false_iff.2 hinterface), h.extends_flat_iff hc (.inr harray)]
    simp only [hinterface, Bool.false_eq_true, false_and, true_and, or_false]
    exact ⟨fun hor => (hor.resolve_left hsame).2, fun hname => .inr ⟨h.native_of_named hd (.inl hname), hname⟩⟩

/-- Values of an array class may be stored where values of its supertypes may, and where those of array classes may that
have the same elements or elements for which this holds. -/
theorem isAssignable_array_iff (hc : m.Native c) (harray : (m.classAt c).isArray) (hd : m.AtHome d) :
    m.isAssignable d c = true ↔ m.Below c d ∨ m.Covers m.isAssignable c d := by
  rw [h.isAssignable_tops_iff hc harray hd, h.below_array_iff hc harray hd]

theorem isAssignable_of_below (hc : m.AtHome c) (hd : m.AtHome d) (hbelow : m.Below c d) :
    m.isAssignable d c = true := by
  by_cases harray : (m.classAt c).isArray
  · exact (h.isAssignable_array_iff (h.native_of_array hc harray) harray hd).2 (.inl hbelow)
  · exact (h.isAssignable_plain_iff hc (Bool.eq_false_iff.2 harray) hd).2 hbelow

theorem atHome_of_supertype (hc : m.AtHome c) (hd : d ∈ (m.classAt c).supertypes) : m.AtHome d := by
  rcases h.atHome_below hc (.single hd) with rfl | ⟨-, hnative⟩
  · exact hc
  · exact h.atHome_of_native hnative

theorem atHome_of_subtype (hcd : m.Subtype c d) (hc : m.AtHome c) : m.AtHome d := by
  induction hcd with
  | refl => exact hc
  | trans _ _ ih ih' => exact ih' (ih hc)
  | super hs => exact h.atHome_of_supertype hc (mem_supertypes.2 (.inl hs))
  | interface hi => exact h.atHome_of_supertype hc (mem_supertypes.2 (.inr hi))
  | array hs ht _ _ _ ih => exact (h.atHome_component ht).2.2.1 (ih ((h.atHome_component hs).2.2.2 hc))

/-- What the test finds is in the order, by induction on the age of the class. -/
theorem subtype_of_isAssignable (hc : m.AtHome c) (hd : m.AtHome d) (halone : m.Unrivalled c)
    (htest : m.isAssignable d c = true) : m.Subtype c d := by
  induction hindex : c.index using Nat.strongRecOn generalizing c d with
  | ind n ih =>
    subst hindex
    by_cases harray : (m.classAt c).isArray
    · rcases (h.isAssignable_array_iff (h.native_of_array hc harray) harray hd).1 htest with
        hbelow | ⟨s, t, hs, ht, rfl | ⟨hs', ht', hst⟩⟩
      · exact subtype_of_below hbelow
      · -- two classes of arrays of one primitive type are one
        by_cases hordinary : (m.classAt s).primitive = none
        · exact .array hs ht (.refl s) hordinary hordinary
        · rw [halone c d s .refl hd hs ht hordinary]
          exact .refl c
      · obtain ⟨-, hlt, hhome⟩ := h.atHome_component hs
        exact .array hs ht (ih s.index hlt (hhome.2 hc) ((h.atHome_component ht).2.2.2 hd) (halone.component hs) hst rfl)
          hs' ht'
    · exact subtype_of_below ((h.isAssignable_plain_iff hc (Bool.eq_false_iff.2 harray) hd).1 htest)

/-- The test finds what is in the order. -/
theorem isAssignable_of_subtype (hc : m.AtHome c) (hd : m.AtHome d) (hcd : m.Subtype c d) : m.isAssignable d c = true := by
  induction hcd with
  | refl c => exact assignableWithin_refl _ c
  | @trans a b c hab _ ih ih' =>
    have hb := h.atHome_of_subtype hab hc
    exact h.isAssignable_trans h.bare hc hb hd (ih hc hb) (ih' hb hd)
  | super hs => exact h.isAssignable_of_below hc hd (.single (mem_supertypes.2 (.inl hs)))
  | interface hi => exact h.isAssignable_of_below hc hd (.single (mem_supertypes.2 (.inr hi)))
  | @array a b s t hs ht _ hs' ht' ih =>
    obtain ⟨harray, -, hhome⟩ := h.atHome_component hs
    have htest := ih (hhome.2 hc) ((h.atHome_component ht).2.2.2 hd)
    exact (h.isAssignable_array_iff (h.native_of_array hc harray) harray hd).2
      (.inr ⟨s, t, hs, ht, .inr ⟨hs', ht', htest⟩⟩)

end Lawful

end Machine

/-! ## All runs -/

/-- In every run in which array classes implement two interfaces that extend no others, and class files have legal names,
the test between classes of the bootstrap loader that have names ends, and it decides their order, unless the first is a class
of arrays of a primitive type that has another one. It does so however deep it may go beyond the age of the class, for all that
it goes on to is older. It is reflexive and transitive. -/
theorem Attained.assignable_decides {m : Machine} (h : Attained m) (hlegal : m.LegalNames) (hplain : m.PlainInterfaces) :
    (∀ c d, m.Resident c → m.Resident d → m.Unrivalled c →
      ∃ fits, assignable d c m = .ok fits m ∧ (fits = true ↔ m.Subtype c d) ∧
        ∀ n, c.index < n → m.testHaltWithin n d c = none ∧ m.assignableWithin n d c = fits) ∧
    (∀ c d, m.Extends c d ∨ m.Implements c d ∨ (m.classAt c).component = some d → d.index < c.index) ∧
    (∀ c, m.Resident c → assignable c c m = .ok true m) ∧
    ∀ b c d, m.Resident b → m.Resident c → m.Resident d → assignable c b m = .ok true m → assignable d c m = .ok true m →
      assignable d b m = .ok true m := by
  have hlawful : m.Lawful := ⟨⟨h.sound, hlegal⟩, hplain⟩
  have hrooted := h.sound.fit.rooted
  refine ⟨fun c d hc hd halone => ⟨_, hlawful.run_assignable hc hd, ⟨?_, ?_⟩, fun n hn => ⟨?_, ?_⟩⟩,
    fun c d hcd => ?_, fun c hc => ?_, fun b c d hb hc hd hcb hdc => ?_⟩
  · exact hlawful.subtype_of_isAssignable hc.toAtHome hd.toAtHome halone
  · exact hlawful.isAssignable_of_subtype hc.toAtHome hd.toAtHome
  · exact hlawful.testHaltWithin_eq_none n hc hd
  · exact hlawful.assignableWithin_eq hc.valid hd.valid hn
  · rcases hcd with hs | hi | hd
    · exact hrooted.super c d hs
    · exact hrooted.interfaces c d hi
    · exact hrooted.component c d hd
  · rw [hlawful.run_assignable hc hc, Machine.isAssignable, Machine.assignableWithin_refl]
  · rw [hlawful.run_assignable hb hd, hlawful.isAssignable_trans hlawful.bare hb.toAtHome hc.toAtHome hd.toAtHome
      (Machine.isAssignable_of_run hcb) (Machine.isAssignable_of_run hdc)]

/-- An order of classes that has superclasses, superinterfaces, and array classes whose elements are ordered and not
primitive. -/
structure Machine.Orders (m : Machine) (R : ClassId → ClassId → Prop) : Prop where
  refl : ∀ c, R c c
  trans : ∀ b c d, R b c → R c d → R b d
  super : ∀ c s, m.Extends c s → R c s
  interface : ∀ c i, m.Implements c i → R c i
  array : ∀ a b s t, (m.classAt a).component = some s → (m.classAt b).component = some t → R s t →
    (m.classAt s).primitive = none → (m.classAt t).primitive = none → R a b

namespace Samples

/-- Classes with a class in the place of an interface that array classes implement. -/
def misplaced : List ClassSource := [
  root, { name := "java/lang/Cloneable" }, { name := "java/io/Serializable", flags := 0x601 }]

/-- The machine that has loaded an array class over these. -/
def misplacing : Machine := asked misplaced [.load 0 "[I"]

/-- The machine that has loaded array classes of objects and of a class. -/
def keywordArrays : Machine := asked keywords [.load 0 "[Lint;", .load 0 "[Ljava/lang/Object;"]

/-- The machine in which a class without a name was defined. -/
def nameless : Machine := asked [root] [.load 0 "java/lang/Object", .define 0 (bytes { name := "" })]

theorem index_of_native {m : Machine} (h : m.Sound) {c : ClassId} (hc : m.Native c) : c.index < m.classes.size :=
  (h.named 0 _ c hc).1

end Samples

open Samples in
/-- An array of objects of a class is an array of objects. -/
theorem Attained.assignable_decides_keywordArrays :
    keywordArrays.loaded? 0 "[Lint;" = some ⟨13⟩ ∧ keywordArrays.loaded? 0 "[Ljava/lang/Object;" = some ⟨14⟩ ∧
      keywordArrays.Subtype ⟨13⟩ ⟨14⟩ ∧ ¬ keywordArrays.Subtype ⟨14⟩ ⟨13⟩ := by
  have hevents : (keywordArrays.loaded? 0 "[Lint;" = some ⟨13⟩ ∧ keywordArrays.loaded? 0 "[Ljava/lang/Object;" = some ⟨14⟩ ∧
        keywordArrays.isAssignable ⟨14⟩ ⟨13⟩ = true ∧ keywordArrays.isAssignable ⟨13⟩ ⟨14⟩ = false) ∧
      (∀ i ∈ [13, 14], i < keywordArrays.classes.size ∧ (keywordArrays.classAt ⟨i⟩).loader = 0 ∧
        (keywordArrays.classAt ⟨i⟩).name ≠ "") ∧
      ((keywordArrays.classAt ⟨13⟩).component = some (sample 0) ∧ (keywordArrays.classAt ⟨14⟩).component = some ⟨9⟩ ∧
        ∀ i ∈ [9, 10], (keywordArrays.classAt ⟨i⟩).primitive = none ∧ (keywordArrays.classAt ⟨i⟩).component = none) ∧
      (∀ i, i < keywordArrays.classes.size → (keywordArrays.classAt ⟨i⟩).loader = 0 →
        (keywordArrays.classAt ⟨i⟩).component = none → (keywordArrays.classAt ⟨i⟩).isArray = false) ∧
      ∀ i, i < keywordArrays.classes.size → (keywordArrays.classAt ⟨i⟩).name = "java/lang/Cloneable" ∨
        (keywordArrays.classAt ⟨i⟩).name = "java/io/Serializable" →
        (keywordArrays.classAt ⟨i⟩).isInterface ∧ (keywordArrays.classAt ⟨i⟩).interfaces = [] := by decide +kernel
  obtain ⟨⟨hnarrow, hwide, htest, htest'⟩, hresident, ⟨hcomponent, hcomponent', hordinary⟩, hlegal, hplain⟩ := hevents
  have hattained : Attained keywordArrays := attained_asked keywords _
  obtain ⟨hdecides, -⟩ := assignable_decides hattained (fun c => hlegal c.index)
    fun c hc => hplain c.index (index_of_native hattained.sound hc)
  have hresident (i : Nat) (hi : i ∈ [13, 14]) : keywordArrays.Resident ⟨i⟩ :=
    ⟨⟨(hresident i hi).1, (hresident i hi).2.1⟩, (hresident i hi).2.2⟩
  have halone : keywordArrays.Unrivalled ⟨13⟩ ∧ keywordArrays.Unrivalled ⟨14⟩ :=
    ⟨Machine.unrivalled_of_ordinary hcomponent (hordinary 10 (by decide)).1 (hordinary 10 (by decide)).2,
      Machine.unrivalled_of_ordinary hcomponent' (hordinary 9 (by decide)).1 (hordinary 9 (by decide)).2⟩
  obtain ⟨_, hrun, hfits, -⟩ := hdecides ⟨13⟩ ⟨14⟩ (hresident 13 (by decide)) (hresident 14 (by decide)) halone.1
  obtain ⟨_, hrun', hfits', -⟩ := hdecides ⟨14⟩ ⟨13⟩ (hresident 14 (by decide)) (hresident 13 (by decide)) halone.2
  have hyes := (After.of_ok (after_assignable _ _ _) hrun).2.2.trans htest
  have hno := (After.of_ok (after_assignable _ _ _) hrun').2.2.trans htest'
  refine ⟨hnarrow, hwide, hfits.1 hyes, fun hsub => ?_⟩
  rw [hfits'.2 hsub] at hno
  cases hno

open Samples in
/-- The test for an array class does not find a class in the place of the interface that it declares. It finds that two
classes of char arrays have the same elements, which makes neither of them a supertype of the other. And it does not end for
a class that has no name. -/
theorem test_unlike_order :
    (Attained misplacing ∧
      (∀ c, misplacing.Native c → (misplacing.classAt c).name = "java/lang/Cloneable" ∨
        (misplacing.classAt c).name = "java/io/Serializable" → (misplacing.classAt c).interfaces = []) ∧
      misplacing.AtHome ⟨10⟩ ∧ misplacing.AtHome ⟨12⟩ ∧ assignable ⟨10⟩ ⟨12⟩ misplacing = .ok false misplacing ∧
      ∀ R, misplacing.Orders R → R ⟨12⟩ ⟨10⟩) ∧
    (Attained started ∧
      (∀ c, started.Native c → (started.classAt c).name = "java/lang/Cloneable" ∨
        (started.classAt c).name = "java/io/Serializable" → (started.classAt c).interfaces = []) ∧
      started.AtHome ⟨13⟩ ∧ started.AtHome ⟨15⟩ ∧ assignable ⟨15⟩ ⟨13⟩ started = .ok true started ∧
      ∃ R, started.Orders R ∧ ¬ R ⟨13⟩ ⟨15⟩) ∧
    (Attained nameless ∧ nameless.AtHome ⟨9⟩ ∧ nameless.AtHome ⟨10⟩ ∧
      assignable ⟨9⟩ ⟨10⟩ nameless = .error (.index 0 0) nameless) := by
  have hmisplaced : misplacing.classes.size = 13 ∧ (misplacing.classAt ⟨10⟩).loader = 0 ∧
      (misplacing.classAt ⟨12⟩).loader = 0 ∧ misplacing.testHalt? ⟨10⟩ ⟨12⟩ = none ∧
      misplacing.isAssignable ⟨10⟩ ⟨12⟩ = false ∧ ⟨10⟩ ∈ (misplacing.classAt ⟨12⟩).interfaces ∧
      ∀ i, i < misplacing.classes.size →
        (misplacing.classAt ⟨i⟩).name = "java/lang/Cloneable" ∨ (misplacing.classAt ⟨i⟩).name = "java/io/Serializable" →
        (misplacing.classAt ⟨i⟩).interfaces = [] := by decide +kernel
  have htwice : started.classes.size = 16 ∧ (started.classAt ⟨13⟩).loader = 0 ∧ (started.classAt ⟨15⟩).loader = 0 ∧
      started.testHalt? ⟨15⟩ ⟨13⟩ = none ∧ started.isAssignable ⟨15⟩ ⟨13⟩ = true ∧
      ((started.classAt ⟨15⟩).component.bind fun t => (started.classAt t).primitive).isSome ∧
      (∀ i, i < started.classes.size →
        (started.classAt ⟨i⟩).name = "java/lang/Cloneable" ∨ (started.classAt ⟨i⟩).name = "java/io/Serializable" →
        (started.classAt ⟨i⟩).interfaces = []) ∧
      ∀ i, i < started.classes.size → ⟨15⟩ ∉ (started.classAt ⟨i⟩).supertypes := by decide +kernel
  have hnameless : nameless.classes.size = 11 ∧ (nameless.classAt ⟨9⟩).loader = 0 ∧ (nameless.classAt ⟨10⟩).loader = 0 ∧
      nameless.testHalt? ⟨9⟩ ⟨10⟩ = some (.index 0 0) := by decide +kernel
  have hattained : Attained misplacing := attained_asked misplaced _
  have hattained' : Attained started := attained_asked textual _
  obtain ⟨hsize, hloader, hloader', hends, htest, hdeclared, hplain⟩ := hmisplaced
  obtain ⟨hsize', hloader'', hloader''', hends', htest', hprimitive, hplain', hunused⟩ := htwice
  obtain ⟨hsize'', hhome, hhome', hhalts⟩ := hnameless
  have hstops : assignable ⟨9⟩ ⟨10⟩ nameless = (do haltFor (nameless.testHalt? ⟨9⟩ ⟨10⟩); pure _) nameless := rfl
  refine ⟨⟨hattained, fun c hc => hplain c.index (index_of_native hattained.sound hc), ⟨by rw [hsize]; decide, hloader⟩,
    ⟨by rw [hsize]; decide, hloader'⟩, ?_, fun R hR => hR.interface _ _ hdeclared⟩,
    ⟨hattained', fun c hc => hplain' c.index (index_of_native hattained'.sound hc), ⟨by rw [hsize']; decide, hloader''⟩,
    ⟨by rw [hsize']; decide, hloader'''⟩, ?_, fun x y => y = ⟨15⟩ → x = ⟨15⟩, ?_, fun hR => ?_⟩,
    attained_asked [root] _, ⟨by rw [hsize'']; decide, hhome⟩, ⟨by rw [hsize'']; decide, hhome'⟩, ?_⟩
  · rw [Machine.run_assignable hends, htest]
  · rw [Machine.run_assignable hends', htest']
  · -- nothing but itself is below the second class of char arrays
    have hnone (c : ClassId) : ⟨15⟩ ∉ (started.classAt c).supertypes := by
      rcases Nat.lt_or_ge c.index started.classes.size with hlt | hge
      · exact hunused c.index hlt
      · rw [Machine.classAt_of_le hge]
        nofun
    refine ⟨fun _ => id, fun _ _ _ hbc hcd => hbc ∘ hcd, ?_, ?_, ?_⟩
    · rintro c _ hs rfl
      exact absurd (Machine.mem_supertypes.2 (.inl hs)) (hnone c)
    · rintro c _ hi rfl
      exact absurd (Machine.mem_supertypes.2 (.inr hi)) (hnone c)
    · rintro a _ s t - ht - - hordinary rfl
      rw [ht] at hprimitive
      change (started.classAt t).primitive.isSome at hprimitive
      rw [hordinary] at hprimitive
      cases hprimitive
  · have hsame : (⟨13⟩ : ClassId) = ⟨15⟩ := hR rfl
    cases hsame
  · rw [hstops, hhalts]
    rfl

end JavaMachine
