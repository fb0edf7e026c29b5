import JavaMachine.Proofs.Calls.Selection
import JavaMachine.Proofs.Machine.Lookups

/-!
Methods that classes have from interfaces. What is looked for is found in an order that the declarations give: depth
first, each interface before its own superinterfaces, from the most derived class on (`inheritedInterfaces`). That an
interface is searched once only makes no difference, for it is never met again before its superinterfaces are searched.

Main result: the method is the first one with a body, or else the first one, so an interface that is searched before
does not override it, unless its own method has no body (`Attained.lookupMethod_inherited`). One that is searched later
may override it (`overridden_method_found`).
-/

namespace JavaMachine

open Relation

namespace Machine

/-- The superinterfaces of a class, each before its own and as often as it is declared, at most `n` steps up. -/
def superinterfacesWithin (m : Machine) : Nat → ClassId → List ClassId
  | 0, _ => []
  | n + 1, c => (m.classAt c).interfaces.flatMap fun i => i :: m.superinterfacesWithin n i

/-- The superinterfaces of a class, each before its own and as often as it is declared. -/
def superinterfaces (m : Machine) (c : ClassId) : List ClassId := m.superinterfacesWithin (c.index + 1) c

/-- The superinterfaces of a class and of its superclasses, in the order in which they are searched. -/
def inheritedInterfaces (m : Machine) (c : ClassId) : List ClassId := (m.lineage c).flatMap m.superinterfaces

/-- The method that an interface offers for a name and a descriptor: the one that it declares, if that is neither static
nor private. -/
def offered (m : Machine) (name desc : String) (i : ClassId) : Option Method :=
  ((m.classAt i).findMethod name desc).filter fun method => !method.isStatic && !method.isPrivate

/-- The method with a body that an interface offers. -/
def bodied (m : Machine) (name desc : String) (i : ClassId) : Option Method :=
  (m.offered name desc i).filter fun method => !method.isAbstract

variable {m : Machine} {name desc : String} {c i : ClassId} {n n' bound : Nat} {order rest : List ClassId}
  {s : InterfaceSearch} {method : Method}

theorem offered_eq_some_iff : m.offered name desc i = some method ↔
    (m.classAt i).findMethod name desc = some method ∧ method.isStatic = false ∧ method.isPrivate = false := by
  simp [offered]

theorem bodied_eq_some_iff :
    m.bodied name desc i = some method ↔ m.offered name desc i = some method ∧ method.isAbstract = false := by
  simp [bodied]

/-! ### The order -/

namespace Rooted

theorem superinterfacesWithin_eq (h : m.Rooted) (hn : c.index < n) (hn' : c.index < n') :
    m.superinterfacesWithin n c = m.superinterfacesWithin n' c := by
  induction n generalizing c n' with
  | zero => omega
  | succ n ih =>
    cases n' with
    | zero => omega
    | succ n' =>
      rw [superinterfacesWithin, superinterfacesWithin]
      refine List.flatMap_congr fun i hi => ?_
      have hlt := h.interfaces c i hi
      have hwalk : m.superinterfacesWithin n i = m.superinterfacesWithin n' i := ih (by omega) (by omega)
      rw [hwalk]

theorem mem_superinterfacesWithin (h : m.Rooted) (hn : c.index < n) :
    i ∈ m.superinterfacesWithin n c ↔ TransGen m.Implements c i := by
  induction n generalizing c with
  | zero => omega
  | succ n ih =>
    rw [superinterfacesWithin, List.mem_flatMap, TransGen.head'_iff]
    refine exists_congr fun j => and_congr_right fun hj => ?_
    have hlt := h.interfaces c j hj
    have hwalk : i ∈ m.superinterfacesWithin n j ↔ TransGen m.Implements j i := ih (by omega)
    rw [List.mem_cons, hwalk, reflTransGen_iff_eq_or_transGen]

theorem mem_superinterfaces (h : m.Rooted) : i ∈ m.superinterfaces c ↔ TransGen m.Implements c i :=
  h.mem_superinterfacesWithin (Nat.lt_succ_self _)

/-- What is searched for a class is what it inherits. -/
theorem mem_inheritedInterfaces (h : m.Rooted) (hc : c.index < m.classes.size) :
    i ∈ m.inheritedInterfaces c ↔ m.Inherits c i := by
  rw [inheritedInterfaces, List.mem_flatMap]
  exact exists_congr fun k => and_congr (h.mem_lineage hc) h.mem_superinterfaces

end Rooted

/-! ### The search -/

namespace InterfaceSearch

theorem seen_visit (own : Option Method) : (s.visit i own).seen = i :: s.seen := by
  unfold visit
  grind

theorem found_visit (h : s.found = none) :
    (s.visit i ((m.classAt i).findMethod name desc)).found = m.bodied name desc i := by
  unfold visit bodied offered
  cases (m.classAt i).findMethod name desc with
  | none => exact h
  | some method => grind

theorem declared_visit (h : m.bodied name desc i = none) :
    (s.visit i ((m.classAt i).findMethod name desc)).declared = s.declared.or (m.offered name desc i) := by
  unfold bodied offered at h
  unfold visit offered
  cases hown : (m.classAt i).findMethod name desc with
  | none => simp
  | some method =>
    rw [hown] at h
    grind

/-- A search went over interfaces in an order. Until it finds a method with a body it remembers the first method that one
of them offers, and of those that it has seen below a bound it has also met all superinterfaces. -/
structure Covers (m : Machine) (name desc : String) (bound : Nat) (order : List ClassId) (s : InterfaceSearch) :
    Prop where
  found : s.found = order.findSome? (m.bodied name desc)
  declared : s.found = none → s.declared = order.findSome? (m.offered name desc)
  seen : s.found = none → ∀ i ∈ s.seen, i ∈ order ∧ (i.index < bound → m.superinterfaces i ⊆ order)

namespace Covers

/-- What comes after a method with a body is of no account. -/
theorem beyond (h : Covers m name desc n order s) (hfound : s.found.isSome) : Covers m name desc bound (order ++ rest) s := by
  obtain ⟨method, hmethod⟩ := Option.isSome_iff_exists.1 hfound
  have hne : s.found ≠ none := by rw [hmethod]; exact Option.some_ne_none method
  refine ⟨?_, fun hnone => absurd hnone hne, fun hnone => absurd hnone hne⟩
  rw [List.findSome?_append, ← h.found, hmethod]
  rfl

/-- Interfaces that were met before are of no account while no method with a body is found. -/
theorem again (h : Covers m name desc bound order s) (hrest : rest ⊆ order) :
    Covers m name desc bound (order ++ rest) s := by
  have hnone {β : Type} (f : ClassId → Option β) : (order ++ rest).findSome? f = order.findSome? f := by
    rw [List.findSome?_append]
    cases horder : order.findSome? f with
    | some b => rfl
    | none =>
      rw [Option.none_or, List.findSome?_eq_none_iff]
      exact fun i hi => List.findSome?_eq_none_iff.1 horder i (hrest hi)
  refine ⟨h.found.trans (hnone _).symm, fun hopen => (h.declared hopen).trans (hnone _).symm, fun hopen i hi => ?_⟩
  obtain ⟨hmem, hclosed⟩ := h.seen hopen i hi
  exact ⟨List.mem_append_left _ hmem, fun hlt => List.subset_append_of_subset_left _ (hclosed hlt)⟩

/-- An interface is looked at, and its own superinterfaces are still to be met. -/
theorem visit (h : Covers m name desc bound order s) (hopen : s.found = none) (hi : i.index ≤ bound) :
    Covers m name desc i.index (order ++ [i]) (s.visit i ((m.classAt i).findMethod name desc)) := by
  have hbodied : order.findSome? (m.bodied name desc) = none := h.found.symm.trans hopen
  refine ⟨?_, fun hnone => ?_, fun _ j hj => ?_⟩
  · rw [found_visit hopen, List.findSome?_append, hbodied]
    simp
  · rw [found_visit hopen] at hnone
    rw [declared_visit hnone, h.declared hopen, List.findSome?_append]
    simp
  · rw [seen_visit, List.mem_cons] at hj
    rcases hj with rfl | hj
    · exact ⟨List.mem_append_right _ List.mem_cons_self, fun hlt => absurd hlt (Nat.lt_irrefl _)⟩
    · obtain ⟨hmem, hclosed⟩ := h.seen hopen j hj
      exact ⟨List.mem_append_left _ hmem, fun hlt => List.subset_append_of_subset_left _ (hclosed (by omega))⟩

end Covers

/-- A search goes over one interface and its superinterfaces, if it goes over the latter from where the interface is
looked at. -/
theorem covers_step {search : InterfaceSearch → InterfaceSearch} (hi : i.index < bound)
    (hsearch : ∀ {order s}, Covers m name desc i.index order s →
      Covers m name desc i.index (order ++ m.superinterfaces i) (search s) ∧
        ∀ j ∈ (search s).seen, j ∈ s.seen ∨ j.index < i.index)
    (h : Covers m name desc bound order s) {s' : InterfaceSearch}
    (hs' : s' = if s.found.isSome || s.seen.contains i then s else
      let looked := s.visit i ((m.classAt i).findMethod name desc)
      if looked.found.isSome then looked else search looked) :
    Covers m name desc bound (order ++ i :: m.superinterfaces i) s' ∧
      ∀ j ∈ s'.seen, j ∈ s.seen ∨ j.index ≤ i.index := by
  dsimp only at hs'
  by_cases hfound : s.found.isSome
  · rw [if_pos (by rw [hfound, Bool.true_or])] at hs'
    subst hs'
    exact ⟨h.beyond hfound, fun _ => .inl⟩
  have hopen : s.found = none := by simpa using hfound
  by_cases hmem : i ∈ s.seen
  · -- the interface is below the bound, so its superinterfaces were met too
    rw [if_pos (by simp [hmem])] at hs'
    subst hs'
    obtain ⟨hmet, hclosed⟩ := h.seen hopen i hmem
    exact ⟨h.again (List.cons_subset.2 ⟨hmet, hclosed hi⟩), fun _ => .inl⟩
  rw [if_neg (by simp [hopen, hmem])] at hs'
  have hlooked := h.visit hopen (Nat.le_of_lt hi)
  have happend : order ++ i :: m.superinterfaces i = (order ++ [i]) ++ m.superinterfaces i := List.append_cons ..
  rw [happend]
  split at hs'
  · next hbody =>
    subst hs'
    refine ⟨hlooked.beyond hbody, fun j hj => ?_⟩
    rw [seen_visit, List.mem_cons] at hj
    exact hj.symm.imp_right fun heq => Nat.le_of_eq (congrArg ClassId.index heq)
  · subst hs'
    obtain ⟨hcovers, hseen⟩ := hsearch hlooked
    have hnew (j : ClassId) (hj : j ∈ (search (s.visit i ((m.classAt i).findMethod name desc))).seen) :
        j ∈ s.seen ∨ j = i ∨ j.index < i.index := by
      have hj := hseen j hj
      rw [seen_visit, List.mem_cons] at hj
      grind
    refine ⟨⟨hcovers.found, hcovers.declared, fun hnone j hj => ?_⟩, fun j hj => ?_⟩
    · obtain ⟨hmet, hclosed⟩ := hcovers.seen hnone j hj
      refine ⟨hmet, fun hlt => ?_⟩
      rcases hnew j hj with hold | rfl | hnew
      · have hsub := (h.seen hopen j hold).2 hlt
        rw [List.append_assoc]
        exact List.subset_append_of_subset_left _ hsub
      · exact List.subset_append_of_subset_right _ (List.Subset.refl _)
      · exact hclosed hnew
    · rcases hnew j hj with hold | rfl | hnew
      · exact .inl hold
      · exact .inr (Nat.le_refl _)
      · exact .inr (Nat.le_of_lt hnew)

/-- A search goes over the superinterfaces of a class in their order, and sees nothing that is not older. -/
theorem covers_search (hr : m.Rooted) (hn : c.index < n) (hbound : c.index ≤ bound)
    (h : Covers m name desc bound order s) :
    Covers m name desc bound (order ++ m.superinterfacesWithin n c) (m.searchInterfaces name desc n c s) ∧
      ∀ i ∈ (m.searchInterfaces name desc n c s).seen, i ∈ s.seen ∨ i.index < c.index := by
  induction n generalizing c s order bound with
  | zero => omega
  | succ n ih =>
    rw [searchInterfaces, superinterfacesWithin]
    have hinterfaces := hr.interfaces c
    generalize (m.classAt c).interfaces = is at hinterfaces
    induction is generalizing s order with
    | nil => exact ⟨by simpa using h, fun _ => .inl⟩
    | cons i is ihs =>
      have hi : i.index < c.index := hinterfaces i List.mem_cons_self
      have hwalk : m.superinterfacesWithin n i = m.superinterfaces i :=
        hr.superinterfacesWithin_eq (by omega) (Nat.lt_succ_self _)
      rw [List.foldl_cons, List.flatMap_cons, ← List.append_assoc, hwalk]
      obtain ⟨hcovers, hseen⟩ := covers_step (Nat.lt_of_lt_of_le hi hbound)
        (fun h => hwalk ▸ ih (by omega) (Nat.le_refl _) h) h rfl
      obtain ⟨hcovers', hseen'⟩ := ihs hcovers fun j hj => hinterfaces j (List.mem_cons_of_mem _ hj)
      refine ⟨hcovers', fun j hj => ?_⟩
      rcases hseen' j hj with hj | hlt
      · exact (hseen j hj).imp_right fun hle => Nat.lt_of_le_of_lt hle hi
      · exact .inr hlt

end InterfaceSearch

variable (hr : m.Rooted) (hc : c.index < m.classes.size)
include hr hc

/-- Of the interfaces in the order in which they are searched the first one that offers a method with a body is decisive,
and if there is none the first one that offers a method. -/
theorem Rooted.lookupInterfaces_eq : m.lookupInterfaces c name desc =
    ((m.inheritedInterfaces c).findSome? (m.bodied name desc)).or
      ((m.inheritedInterfaces c).findSome? (m.offered name desc)) := by
  have hlineage (k : ClassId) (hk : k ∈ m.lineage c) : k.index ≤ c.index := hr.le_of_mem_lineageWithin hk
  have hsearch (ks : List ClassId) (hks : ∀ k ∈ ks, k.index ≤ c.index) {order : List ClassId} {s : InterfaceSearch}
      (h : s.Covers m name desc c.index order) :
      (ks.foldl (fun s k => if s.found.isSome then s else m.searchInterfaces name desc (m.classes.size + 1) k s)
        s).Covers m name desc c.index (order ++ ks.flatMap m.superinterfaces) := by
    induction ks generalizing s order with
    | nil => simpa using h
    | cons k ks ih =>
      have hk := hks k List.mem_cons_self
      rw [List.foldl_cons, List.flatMap_cons, ← List.append_assoc]
      refine ih (fun k' hk' => hks k' (List.mem_cons_of_mem _ hk')) ?_
      split
      · next hfound => exact h.beyond hfound
      · have hwalk : m.superinterfacesWithin (m.classes.size + 1) k = m.superinterfaces k :=
          hr.superinterfacesWithin_eq (by omega) (Nat.lt_succ_self _)
        rw [← hwalk]
        exact (InterfaceSearch.covers_search hr (by omega) hk h).1
  have hstart : InterfaceSearch.Covers m name desc c.index [] {} := ⟨rfl, fun _ => rfl, nofun⟩
  have hall : (((m.lineage c).foldl (fun s k => if s.found.isSome then s else
      m.searchInterfaces name desc (m.classes.size + 1) k s) {} : InterfaceSearch)).Covers m name desc c.index
        (m.inheritedInterfaces c) :=
    hsearch _ hlineage hstart
  rw [lookupInterfaces, Option.orElse_eq_or, ← hall.found]
  cases hfound : (((m.lineage c).foldl (fun s k => if s.found.isSome then s else
      m.searchInterfaces name desc (m.classes.size + 1) k s) {} : InterfaceSearch)).found with
  | some method => rfl
  | none => exact hall.declared hfound

end Machine

/-! ## Overriding -/

/-- An interface of a class overrides the method that is found for the class in another interface: it extends the other,
and declares a method of that name and descriptor which is neither static nor private. -/
structure Machine.Overrides (m : Machine) (c j : ClassId) (name desc : String) (method other : Method) : Prop where
  inherited : m.Inherits c j
  narrower : TransGen m.Implements j method.owner
  declared : (m.classAt j).findMethod name desc = some other
  ofObjects : other.isStatic = false
  visible : other.isPrivate = false

/-- A method that is found for a class in none of its superclasses is declared by an interface that it inherits. Another
interface overrides it only if it is searched later, or if it takes a body away that the method has. -/
theorem Attained.lookupMethod_inherited {m : Machine} (h : Attained m) {c : ClassId} (hc : c.index < m.classes.size)
    {name desc : String} {method : Method} (hclass : m.lookupClassMethod c name desc = none)
    (hfound : m.lookupMethod c name desc = some method) :
    m.Inherits c method.owner ∧ (m.classAt method.owner).findMethod name desc = some method ∧
      ∃ before after, m.inheritedInterfaces c = before ++ method.owner :: after ∧ method.owner ∉ before ∧
        ∀ j other, m.Overrides c j name desc method other →
          (j ∉ before ∧ j ∈ after) ∨ (other.isAbstract = true ∧ method.isAbstract = false) := by
  have hfit := h.sound.fit
  have hr := hfit.rooted
  rw [Machine.lookupMethod, hclass, Option.orElse_eq_or, Option.none_or, hr.lookupInterfaces_eq hc,
    Option.or_eq_some_iff] at hfound
  -- the interface that is decisive, with what the ones before it lack
  obtain ⟨before, i, after, horder, hoffered, hbefore⟩ : ∃ before i after,
      m.inheritedInterfaces c = before ++ i :: after ∧ m.offered name desc i = some method ∧
        ∀ j ∈ before, ∀ other, m.offered name desc j = some other →
          other.isAbstract = true ∧ method.isAbstract = false := by
    rcases hfound with hbodied | ⟨hnone, hoffered⟩
    · obtain ⟨before, i, after, horder, hi, hbefore⟩ := List.findSome?_eq_some_iff.1 hbodied
      obtain ⟨hoffered, hbody⟩ := Machine.bodied_eq_some_iff.1 hi
      refine ⟨before, i, after, horder, hoffered, fun j hj other hother => ⟨?_, hbody⟩⟩
      by_contra habstract
      have hbodied : m.bodied name desc j = some other :=
        Machine.bodied_eq_some_iff.2 ⟨hother, Bool.eq_false_iff.2 habstract⟩
      rw [hbefore j hj] at hbodied
      cases hbodied
    · obtain ⟨before, i, after, horder, hi, hbefore⟩ := List.findSome?_eq_some_iff.1 hoffered
      refine ⟨before, i, after, horder, hi, fun j hj other hother => ?_⟩
      rw [hbefore j hj] at hother
      cases hother
  obtain ⟨hdeclared, -, -⟩ := Machine.offered_eq_some_iff.1 hoffered
  obtain rfl : method.owner = i := ((hfit.owns i).methods method (Class.of_findMethod hdeclared).1).1
  have hmem : method.owner ∈ m.inheritedInterfaces c := horder ▸ List.mem_append_right _ List.mem_cons_self
  refine ⟨(hr.mem_inheritedInterfaces hc).1 hmem, hdeclared, before, after, horder, fun hown => ?_,
    fun j other hover => ?_⟩
  · obtain ⟨habstract, hbody⟩ := hbefore _ hown _ hoffered
    rw [habstract] at hbody
    cases hbody
  · by_cases hj : j ∈ before
    · exact .inr (hbefore j hj other (Machine.offered_eq_some_iff.2 ⟨hover.declared, hover.ofObjects, hover.visible⟩))
    · have hmem := (hr.mem_inheritedInterfaces hc).2 hover.inherited
      have hne : j ≠ method.owner := by
        rintro rfl
        exact absurd (hr.lt_of_implements hover.narrower) (Nat.lt_irrefl _)
      rw [horder, List.mem_append, List.mem_cons] at hmem
      exact .inl ⟨hj, (hmem.resolve_left hj).resolve_left hne⟩

namespace Samples

/-- An interface with a method that has a body, two that extend it, one with a body for the method and one without, and
two classes, of which the first implements the interface before one that extends it. -/
def inheriting : List ClassSource := [
  root, { name := "Base", flags := 0x601, methods := [constantly 1 "f" .iconst_1] },
  { name := "Other", flags := 0x601, interfaces := ["Base"], methods := [constantly 1 "f" .iconst_2] },
  { name := "First", interfaces := ["Base", "Other"] },
  { name := "Bare", flags := 0x601, interfaces := ["Base"], methods := [{ flags := 0x401, name := "f", desc := "()I" }] },
  { name := "Second", interfaces := ["Bare"] }]

/-- The machine that has loaded them. -/
def inherited : Machine := asked inheriting [.load 0 "First", .load 0 "Second"]

/-- What is found for the method of a class: the interface that declares it, and whether it has no body. -/
def found (c : ClassId) : Option (ClassId × Bool) :=
  (inherited.lookupMethod c "f" "()I").map fun method => (method.owner, method.isAbstract)

/-- What an interface declares for the method: whether that is static, private, or has no body. -/
def declared (j : ClassId) : Option (Bool × Bool × Bool) :=
  ((inherited.classAt j).findMethod "f" "()I").map fun other => (other.isStatic, other.isPrivate, other.isAbstract)

/-- An interface that a class declares, and that itself extends the interface of what is found for the class, overrides
it. -/
theorem overrides_of_found {c i j : ClassId} {bare bare' : Bool} (hc : j ∈ (inherited.classAt c).interfaces)
    (hj : i ∈ (inherited.classAt j).interfaces) (hfound : found c = some (i, bare))
    (hdeclared : declared j = some (false, false, bare')) :
    ∃ method other, inherited.lookupMethod c "f" "()I" = some method ∧ (method.owner, method.isAbstract) = (i, bare) ∧
      inherited.Overrides c j "f" "()I" method other ∧ other.isAbstract = bare' := by
  obtain ⟨method, hmethod, howner⟩ := Option.map_eq_some_iff.1 hfound
  obtain ⟨other, hother, hflags⟩ := Option.map_eq_some_iff.1 hdeclared
  simp only [Prod.mk.injEq] at hflags
  obtain ⟨hstatic, hprivate, hbare⟩ := hflags
  obtain rfl : method.owner = i := congrArg Prod.fst howner
  exact ⟨method, other, hmethod, howner, ⟨⟨c, .refl, .single hc⟩, .single hj, hother, hstatic, hprivate⟩, hbare⟩

end Samples

open Samples in
/-- In the second class the interface without a body is searched before the one with the method that is found. -/
theorem Attained.lookupMethod_inherited_second :
    ∃ method, inherited.lookupMethod (sample 4) "f" "()I" = some method ∧ method.owner = sample 0 ∧
      inherited.inheritedInterfaces (sample 4) = [sample 3, sample 0] ∧
      ∀ j other, inherited.Overrides (sample 4) j "f" "()I" method other → other.isAbstract = true := by
  have hevents : (sample 4).index < inherited.classes.size ∧ inherited.lookupClassMethod (sample 4) "f" "()I" = none ∧
      found (sample 4) = some (sample 0, false) ∧
      inherited.inheritedInterfaces (sample 4) = [sample 3, sample 0] := by decide +kernel
  obtain ⟨hc, hclass, hfound, hinherited⟩ := hevents
  obtain ⟨method, hmethod, howner⟩ := Option.map_eq_some_iff.1 hfound
  have howner : method.owner = sample 0 := congrArg Prod.fst howner
  obtain ⟨-, -, before, after, horder, hbefore, hoverrides⟩ :=
    lookupMethod_inherited (attained_asked inheriting _) hc hclass hmethod
  refine ⟨method, hmethod, howner, hinherited, fun j other hover => ?_⟩
  rcases hoverrides j other hover with ⟨-, hafter⟩ | ⟨habstract, -⟩
  · -- nothing is searched after the interface of the method
    have hlast : [sample 3] ++ [sample 0] = before ++ sample 0 :: after := hinherited.symm.trans (howner ▸ horder)
    rw [howner] at hbefore
    rcases before with _ | ⟨b, _ | ⟨b', before⟩⟩
    · cases hlast
    · obtain ⟨-, rfl⟩ : sample 3 = b ∧ after = [] := by simpa using hlast
      cases hafter
    · simp at hlast
  · exact habstract

open Samples in
/-- What is found in an interface although another interface of the class overrides it: the other is declared later, or
its method has no body. -/
theorem overridden_method_found :
    Attained inherited ∧
      (inherited.lookupClassMethod (sample 2) "f" "()I" = none ∧
        ∃ method other, inherited.lookupMethod (sample 2) "f" "()I" = some method ∧
          (method.owner, method.isAbstract) = (sample 0, false) ∧
          inherited.Overrides (sample 2) (sample 1) "f" "()I" method other ∧ other.isAbstract = false) ∧
      (inherited.lookupClassMethod (sample 4) "f" "()I" = none ∧
        ∃ method other, inherited.lookupMethod (sample 4) "f" "()I" = some method ∧
          (method.owner, method.isAbstract) = (sample 0, false) ∧
          inherited.Overrides (sample 4) (sample 3) "f" "()I" method other ∧ other.isAbstract = true) := by
  have hfirst : sample 1 ∈ (inherited.classAt (sample 2)).interfaces ∧
      sample 0 ∈ (inherited.classAt (sample 1)).interfaces ∧ found (sample 2) = some (sample 0, false) ∧
      declared (sample 1) = some (false, false, false) ∧
      inherited.lookupClassMethod (sample 2) "f" "()I" = none := by decide +kernel
  have hsecond : sample 3 ∈ (inherited.classAt (sample 4)).interfaces ∧
      sample 0 ∈ (inherited.classAt (sample 3)).interfaces ∧ found (sample 4) = some (sample 0, false) ∧
      declared (sample 3) = some (false, false, true) ∧
      inherited.lookupClassMethod (sample 4) "f" "()I" = none := by decide +kernel
  obtain ⟨hc, hj, hfound, hdeclared, hclass⟩ := hfirst
  obtain ⟨hc', hj', hfound', hdeclared', hclass'⟩ := hsecond
  exact ⟨attained_asked inheriting _, ⟨hclass, overrides_of_found hc hj hfound hdeclared⟩, hclass',
    overrides_of_found hc' hj' hfound' hdeclared'⟩

end JavaMachine
