import JavaMachine.Machine.Resolution
import JavaMachine.Proofs.Machine.Plans
import Mathlib.Data.List.Basic
import Mathlib.Logic.Relation

/-!
Walks through the hierarchy of classes. What is found there is declared by a class, with the name and the descriptor
that were looked for. A machine is `Rooted` if supertypes and components are older than the classes that have them.
Then a walk is over after as many steps as there are older classes, so what it finds does not depend on how many steps
it may make, and a machine that succeeds another finds the same. Main results: `declared_of_selectMethod`, and
`Succeeds.lookupField`, `Succeeds.selectMethod`, `Succeeds.isAssignable` and the like, for each way to look.

The walks decide what a class extends and implements, in any number of steps. In a rooted machine a walk ends by itself,
so it goes through all that is related.
-/

namespace JavaMachine

/-- A class at a place in the table of classes follows its supertypes and its component. -/
structure Class.Follows (k : Class) (c : ClassId) : Prop where
  super : ∀ s, k.super = some s → s.index < c.index
  interfaces : ∀ i ∈ k.interfaces, i.index < c.index
  component : ∀ d, k.component = some d → d.index < c.index

/-- Supertypes and components are older than the classes that have them. -/
structure Machine.Rooted (m : Machine) : Prop where
  follows : ∀ c, (m.classAt c).Follows c

namespace Machine.Rooted

variable {a b : Machine} (h : a.Rooted)
include h

theorem super (c s : ClassId) : (a.classAt c).super = some s → s.index < c.index := (h.follows c).super s

theorem interfaces (c : ClassId) : ∀ i ∈ (a.classAt c).interfaces, i.index < c.index := (h.follows c).interfaces

theorem component (c d : ClassId) : (a.classAt c).component = some d → d.index < c.index := (h.follows c).component d

/-- A later machine is rooted if its new classes follow theirs. -/
theorem later (hs : Succeeds a b) (new : ∀ c, a.classes.size ≤ c.index → (b.classAt c).Follows c) : b.Rooted where
  follows c := by
    rcases Nat.lt_or_ge c.index a.classes.size with hlt | hge
    · refine ⟨?_, ?_, ?_⟩
      · rw [hs.super hlt]
        exact h.super c
      · rw [hs.interfaces hlt]
        exact h.interfaces c
      · rw [hs.component hlt]
        exact h.component c
    · exact new c hge

end Machine.Rooted

/-! ## What is found -/

/-- A method is the one that a class declares by a name and a descriptor. -/
def Machine.Declared (m : Machine) (name desc : String) (method : Method) : Prop :=
  ∃ c, (m.classAt c).findMethod name desc = some method

theorem Class.of_findMethod {k : Class} {name desc : String} {method : Method} (h : k.findMethod name desc = some method) :
    method ∈ k.methods ∧ method.name = name ∧ method.desc = desc := by
  refine ⟨List.mem_of_find?_eq_some h, ?_⟩
  simpa using List.find?_some h

/-- What a search of superinterfaces came upon is declared, and neither static nor private. -/
def Machine.InterfaceSearch.Honest (m : Machine) (name desc : String) (s : InterfaceSearch) : Prop :=
  ∀ method, s.declared = some method ∨ s.found = some method →
    m.Declared name desc method ∧ method.isStatic = false ∧ method.isPrivate = false

namespace Machine

variable {m : Machine} {name desc : String} {c : ClassId} {method : Method}

/-- A field that is found is one that some class declares. -/
theorem mem_fields_of_lookupField {f : Field} (h : m.lookupField c name desc = some f) :
    ∃ k, f ∈ (m.classAt k).fields := by
  unfold lookupField at h
  generalize m.classes.size + 1 = n at h
  induction n generalizing c with
  | zero => cases h
  | succ n ih =>
    simp only [lookupFieldWithin, Option.orElse_eq_or, Option.or_eq_some_iff] at h
    rcases h with hown | ⟨-, hinterface | ⟨-, hsuper⟩⟩
    · exact ⟨c, List.mem_of_find?_eq_some hown⟩
    · obtain ⟨i, -, hi⟩ := List.exists_of_findSome?_eq_some hinterface
      exact ih hi
    · obtain ⟨s, -, hs⟩ := Option.bind_eq_some_iff.1 hsuper
      exact ih hs

theorem InterfaceSearch.honest_visit {s : InterfaceSearch} (h : s.Honest m name desc) (i : ClassId) :
    (s.visit i ((m.classAt i).findMethod name desc)).Honest m name desc := by
  intro method hmethod
  unfold visit at hmethod
  dsimp only at hmethod
  split at hmethod
  · next own hown =>
    split at hmethod
    · exact h method hmethod
    · next hkept =>
      have hkept : own.isStatic = false ∧ own.isPrivate = false := by simpa using hkept
      have hnew : m.Declared name desc own ∧ own.isStatic = false ∧ own.isPrivate = false := ⟨⟨i, hown⟩, hkept⟩
      split at hmethod
      · rcases hmethod with hdeclared | hfound
        · rw [Option.orElse_eq_or, Option.or_eq_some_iff] at hdeclared
          rcases hdeclared with hold | ⟨-, hown⟩
          · exact h method (.inl hold)
          · cases hown
            exact hnew
        · exact h method (.inr hfound)
      · rcases hmethod with hdeclared | hfound
        · exact h method (.inl hdeclared)
        · cases hfound
          exact hnew
  · exact h method hmethod

theorem InterfaceSearch.honest_search {s : InterfaceSearch} (h : s.Honest m name desc) (n : Nat) (c : ClassId) :
    (m.searchInterfaces name desc n c s).Honest m name desc := by
  induction n generalizing c s with
  | zero => exact h
  | succ n ih =>
    rw [searchInterfaces]
    refine List.foldlRecOn _ _ h fun s hs i _ => ?_
    dsimp only
    split
    · exact hs
    · split
      · exact honest_visit hs i
      · exact ih (honest_visit hs i) i

/-- What superinterfaces declare is neither static nor private. -/
theorem of_lookupInterfaces (h : m.lookupInterfaces c name desc = some method) :
    m.Declared name desc method ∧ method.isStatic = false ∧ method.isPrivate = false := by
  have hsearch := List.foldlRecOn (motive := InterfaceSearch.Honest m name desc) (m.lineage c)
    (fun s k => if s.found.isSome then s else m.searchInterfaces name desc (m.classes.size + 1) k s)
    (b := {}) (fun _ hnone => by simp at hnone) fun s hs k _ => by
      split
      · exact hs
      · exact InterfaceSearch.honest_search hs _ k
  rw [lookupInterfaces, Option.orElse_eq_or, Option.or_eq_some_iff] at h
  exact hsearch method (h.symm.imp_left And.right)

/-- What a class has from its superclasses is declared by one of them or by the class. -/
theorem of_lookupClassMethod (h : m.lookupClassMethod c name desc = some method) :
    ∃ k ∈ m.lineage c, (m.classAt k).findMethod name desc = some method :=
  List.exists_of_findSome?_eq_some h

theorem declared_of_lookupMethod (h : m.lookupMethod c name desc = some method) : m.Declared name desc method := by
  rw [lookupMethod, Option.orElse_eq_or, Option.or_eq_some_iff] at h
  rcases h with hclass | ⟨-, hinterface⟩
  · obtain ⟨k, -, hk⟩ := of_lookupClassMethod hclass
    exact ⟨k, hk⟩
  · exact (of_lookupInterfaces hinterface).1

theorem declared_of_lookupInterfaceMethod (h : m.lookupInterfaceMethod c name desc = some method) :
    m.Declared name desc method := by
  simp only [lookupInterfaceMethod, Option.orElse_eq_or, Option.or_eq_some_iff] at h
  rcases h with hown | ⟨-, hinterface | ⟨-, hsuper⟩⟩
  · exact ⟨c, hown⟩
  · exact (of_lookupInterfaces hinterface).1
  · split at hsuper
    · next own hown =>
      obtain ⟨s, -, hs⟩ := Option.bind_eq_some_iff.1 hown
      split at hsuper
      · cases hsuper
        exact ⟨s, hs⟩
      · cases hsuper
    · cases hsuper

/-- The method that a reference means is declared, with the name and the descriptor of the reference. -/
theorem declared_of_selectMethod {onInterface : Bool} (h : Resolution.selectMethod m c name desc onInterface = .ok method) :
    m.Declared name desc method := by
  unfold Resolution.selectMethod at h
  dsimp only at h
  split at h
  · split at h
    · split at h
      · next hfound =>
        cases h
        exact declared_of_lookupInterfaceMethod hfound
      · cases h
    · cases h
  · split at h
    · cases h
    · split at h
      · next hfound =>
        cases h
        exact declared_of_lookupMethod hfound
      · cases h

end Machine

/-! ## Lists -/

theorem findSome?_congr_left {α β : Type} {f g : α → Option β} {l : List α} (h : ∀ a ∈ l, f a = g a) :
    l.findSome? f = l.findSome? g := by
  induction l with
  | nil => rfl
  | cons a rest ih =>
    rw [List.findSome?_cons, List.findSome?_cons, h a List.mem_cons_self,
      ih fun a' ha' => h a' (List.mem_cons_of_mem _ ha')]

theorem any_congr_left {α : Type} {f g : α → Bool} {l : List α} (h : ∀ a ∈ l, f a = g a) :
    l.any f = l.any g := by
  induction l with
  | nil => rfl
  | cons a rest ih =>
    rw [List.any_cons, List.any_cons, h a List.mem_cons_self, ih fun a' ha' => h a' (List.mem_cons_of_mem _ ha')]

/-! ## Walks of any length -/

section walks

variable {a b : Machine} (hr : a.Rooted) (hs : Succeeds a b) {name desc : String} {n n' : Nat} {c : ClassId}
include hr

theorem Machine.Rooted.super_of_zero (h : c.index = 0) : (a.classAt c).super = none :=
  Option.eq_none_iff_forall_ne_some.2 fun s hsuper => by
    have hlt := hr.super c s hsuper
    omega

theorem Machine.Rooted.component_of_zero (h : c.index = 0) : (a.classAt c).component = none :=
  Option.eq_none_iff_forall_ne_some.2 fun d hcomponent => by
    have hlt := hr.component c d hcomponent
    omega

/-- A superclass is there if the class is. -/
theorem Machine.Rooted.super_lt {s : ClassId} (hc : c.index < a.classes.size) (h : (a.classAt c).super = some s) :
    s.index < a.classes.size := Nat.lt_trans (hr.super c s h) hc

/-- The lineage of a class is the class and that of its superclass. -/
theorem Machine.Rooted.lineageWithin_eq (hn : c.index ≤ n) :
    a.lineageWithin n c = c :: ((a.classAt c).super.map (a.lineageWithin (n - 1))).getD [] := by
  cases n with
  | zero =>
    rw [hr.super_of_zero (Nat.le_zero.1 hn)]
    rfl
  | succ n =>
    rw [Machine.lineageWithin]
    cases (a.classAt c).super with
    | none => rfl
    | some s => rfl

/-- The classes of a lineage are not younger than its first. -/
theorem Machine.Rooted.le_of_mem_lineageWithin {k : ClassId} (h : k ∈ a.lineageWithin n c) : k.index ≤ c.index := by
  induction n generalizing c with
  | zero =>
    rw [Machine.lineageWithin, List.mem_singleton] at h
    exact Nat.le_of_eq (congrArg ClassId.index h)
  | succ n ih =>
    rw [Machine.lineageWithin] at h
    split at h
    · next s hsuper =>
      rcases List.mem_cons.1 h with rfl | h
      · exact Nat.le_refl _
      · exact Nat.le_trans (ih h) (Nat.le_of_lt (hr.super c s hsuper))
    · exact Nat.le_of_eq (congrArg ClassId.index (List.mem_singleton.1 h))

include hs

theorem Succeeds.rooted_super_of_zero (hc : c.index < a.classes.size) (h : c.index = 0) :
    (b.classAt c).super = none := (hs.super hc).trans (hr.super_of_zero h)

theorem Succeeds.lineageWithin (hc : c.index < a.classes.size) (hn : c.index ≤ n) (hn' : c.index ≤ n') :
    b.lineageWithin n' c = a.lineageWithin n c := by
  induction n generalizing c n' with
  | zero =>
    have hnone := hs.rooted_super_of_zero hr hc (Nat.le_zero.1 hn)
    cases n' with
    | zero => rfl
    | succ n' => simp only [Machine.lineageWithin, hnone]
  | succ n ih =>
    rw [hr.lineageWithin_eq hn, Nat.add_sub_cancel]
    cases hsuper : (a.classAt c).super with
    | none =>
      cases n' with
      | zero => rfl
      | succ n' =>
        rw [Machine.lineageWithin, hs.super hc, hsuper]
        rfl
    | some s =>
      have hlt := hr.super c s hsuper
      cases n' with
      | zero => omega
      | succ n' =>
        rw [Machine.lineageWithin, hs.super hc, hsuper]
        dsimp only [Option.map_some, Option.getD_some]
        rw [ih (hr.super_lt hc hsuper) (by omega) (by omega)]

theorem Succeeds.lookupFieldWithin (hc : c.index < a.classes.size) (hn : c.index < n) (hn' : c.index < n') :
    b.lookupFieldWithin name desc n' c = a.lookupFieldWithin name desc n c := by
  induction n generalizing c n' with
  | zero => omega
  | succ n ih =>
    cases n' with
    | zero => omega
    | succ n' =>
      have hinterfaces : (a.classAt c).interfaces.findSome? (b.lookupFieldWithin name desc n') =
          (a.classAt c).interfaces.findSome? (a.lookupFieldWithin name desc n) :=
        findSome?_congr_left fun i hi => by
          have hlt := hr.interfaces c i hi
          exact ih (Nat.lt_trans hlt hc) (by omega) (by omega)
      have hsupers : (a.classAt c).super.bind (b.lookupFieldWithin name desc n') =
          (a.classAt c).super.bind (a.lookupFieldWithin name desc n) := by
        cases hsuper : (a.classAt c).super with
        | none => rfl
        | some s =>
          have hlt := hr.super c s hsuper
          exact ih (Nat.lt_trans hlt hc) (by omega) (by omega)
      rw [Machine.lookupFieldWithin, Machine.lookupFieldWithin, Class.findField, hs.fields hc, hs.interfaces hc,
        hs.super hc, hinterfaces, hsupers]
      rfl

theorem Succeeds.searchInterfaces {search : Machine.InterfaceSearch} (hc : c.index < a.classes.size)
    (hn : c.index < n) (hn' : c.index < n') :
    b.searchInterfaces name desc n' c search = a.searchInterfaces name desc n c search := by
  induction n generalizing c n' search with
  | zero => omega
  | succ n ih =>
    cases n' with
    | zero => omega
    | succ n' =>
      rw [Machine.searchInterfaces, Machine.searchInterfaces, hs.interfaces hc]
      refine List.foldl_ext _ _ _ fun search i hi => ?_
      have hlt := hr.interfaces c i hi
      have hi : i.index < a.classes.size := Nat.lt_trans hlt hc
      have hfound : (b.classAt i).findMethod name desc = (a.classAt i).findMethod name desc := by
        rw [Class.findMethod, hs.methods hi, Class.findMethod]
      dsimp only
      rw [hfound, ih hi (by omega) (by omega)]

theorem Succeeds.hasInterfaceWithin {target : ClassId} (hc : c.index < a.classes.size) (hn : c.index < n)
    (hn' : c.index < n') : b.hasInterfaceWithin target n' c = a.hasInterfaceWithin target n c := by
  induction n generalizing c n' with
  | zero => omega
  | succ n ih =>
    cases n' with
    | zero => omega
    | succ n' =>
      rw [Machine.hasInterfaceWithin, Machine.hasInterfaceWithin, hs.interfaces hc]
      refine any_congr_left fun i hi => ?_
      have hlt := hr.interfaces c i hi
      rw [ih (Nat.lt_trans hlt hc) (by omega) (by omega)]

theorem Succeeds.elementClassWithin (hc : c.index < a.classes.size) (hn : c.index ≤ n) (hn' : c.index ≤ n') :
    b.elementClassWithin n' c = a.elementClassWithin n c := by
  have hcomponent := hs.component hc
  induction n generalizing c n' with
  | zero =>
    rw [hr.component_of_zero (Nat.le_zero.1 hn)] at hcomponent
    cases n' with
    | zero => rfl
    | succ n' => simp only [Machine.elementClassWithin, hcomponent]
  | succ n ih =>
    rw [Machine.elementClassWithin]
    cases hd : (a.classAt c).component with
    | none =>
      cases n' with
      | zero => rfl
      | succ n' => rw [Machine.elementClassWithin, hcomponent, hd]
    | some d =>
      have hlt := hr.component c d hd
      cases n' with
      | zero => omega
      | succ n' =>
        have hd' : d.index < a.classes.size := Nat.lt_trans hlt hc
        rw [Machine.elementClassWithin, hcomponent, hd]
        exact ih hd' (by omega) (by omega) (hs.component hd')

end walks

/-! ## Looks from one class -/

section looks

variable {a b : Machine} (hr : a.Rooted) (hs : Succeeds a b) {name desc : String} {c : ClassId}
include hs

theorem Succeeds.isInterface (hc : c.index < a.classes.size) : (b.classAt c).isInterface = (a.classAt c).isInterface :=
  hs.part hc Class.isInterface fun _ => rfl

theorem Succeeds.isArray (hc : c.index < a.classes.size) : (b.classAt c).isArray = (a.classAt c).isArray :=
  hs.part hc Class.isArray fun _ => rfl

theorem Succeeds.isPrimitive (hc : c.index < a.classes.size) : (b.classAt c).isPrimitive = (a.classAt c).isPrimitive :=
  hs.part hc Class.isPrimitive fun _ => rfl

theorem Succeeds.findMethod (hc : c.index < a.classes.size) :
    (b.classAt c).findMethod name desc = (a.classAt c).findMethod name desc := by
  rw [Class.findMethod, hs.methods hc, Class.findMethod]

theorem Succeeds.samePackage {d : ClassId} (hc : c.index < a.classes.size) (hd : d.index < a.classes.size) :
    b.samePackage c d = a.samePackage c d := by
  rw [Machine.samePackage, Class.package, Class.package, hs.loader hc, hs.loader hd, hs.name hc, hs.name hd]
  rfl

include hr

theorem Succeeds.lineage (hc : c.index < a.classes.size) : b.lineage c = a.lineage c :=
  hs.lineageWithin hr hc (Nat.le_of_lt hc) (Nat.le_of_lt (Nat.lt_of_lt_of_le hc hs.size))

omit hs in
/-- The classes of a lineage are there if the first is. -/
theorem Machine.Rooted.lt_of_mem_lineage {k : ClassId} (hc : c.index < a.classes.size) (h : k ∈ a.lineage c) :
    k.index < a.classes.size := Nat.lt_of_le_of_lt (hr.le_of_mem_lineageWithin h) hc

theorem Succeeds.lookupField (hc : c.index < a.classes.size) : b.lookupField c name desc = a.lookupField c name desc :=
  hs.lookupFieldWithin hr hc (by omega) (Nat.lt_succ_of_lt (Nat.lt_of_lt_of_le hc hs.size))

theorem Succeeds.lookupClassMethod (hc : c.index < a.classes.size) :
    b.lookupClassMethod c name desc = a.lookupClassMethod c name desc := by
  rw [Machine.lookupClassMethod, hs.lineage hr hc]
  exact findSome?_congr_left fun k hk => hs.findMethod (hr.lt_of_mem_lineage hc hk)

theorem Succeeds.lookupInterfaces (hc : c.index < a.classes.size) :
    b.lookupInterfaces c name desc = a.lookupInterfaces c name desc := by
  have hsearch : (a.lineage c).foldl (fun s k =>
      if s.found.isSome then s else b.searchInterfaces name desc (b.classes.size + 1) k s) {} =
      (a.lineage c).foldl (fun s k =>
        if s.found.isSome then s else a.searchInterfaces name desc (a.classes.size + 1) k s) {} := by
    refine List.foldl_ext _ _ _ fun search k hk => ?_
    have hk := hr.lt_of_mem_lineage hc hk
    rw [hs.searchInterfaces hr hk (Nat.lt_succ_of_lt hk) (Nat.lt_succ_of_lt (Nat.lt_of_lt_of_le hk hs.size))]
  rw [Machine.lookupInterfaces, hs.lineage hr hc, hsearch]
  rfl

theorem Succeeds.lookupMethod (hc : c.index < a.classes.size) :
    b.lookupMethod c name desc = a.lookupMethod c name desc := by
  rw [Machine.lookupMethod, hs.lookupClassMethod hr hc, hs.lookupInterfaces hr hc, Machine.lookupMethod]

theorem Succeeds.lookupInterfaceMethod (hc : c.index < a.classes.size) :
    b.lookupInterfaceMethod c name desc = a.lookupInterfaceMethod c name desc := by
  have hsuper : (a.classAt c).super.bind (fun s => (b.classAt s).findMethod name desc) =
      (a.classAt c).super.bind (fun s => (a.classAt s).findMethod name desc) := by
    cases hsuper : (a.classAt c).super with
    | none => rfl
    | some s => exact hs.findMethod (hr.super_lt hc hsuper)
  rw [Machine.lookupInterfaceMethod, hs.findMethod hc, hs.lookupInterfaces hr hc, hs.super hc, hsuper]
  rfl

theorem Succeeds.selectMethod {onInterface : Bool} (hc : c.index < a.classes.size) :
    Resolution.selectMethod b c name desc onInterface = Resolution.selectMethod a c name desc onInterface := by
  unfold Resolution.selectMethod
  dsimp only
  rw [hs.isInterface hc, hs.lookupInterfaceMethod hr hc, hs.lookupMethod hr hc, Class.javaName, hs.name hc]
  rfl

theorem Succeeds.isSubclassOf {other : ClassId} (hc : c.index < a.classes.size) :
    b.isSubclassOf c other = a.isSubclassOf c other := by
  rw [Machine.isSubclassOf, hs.lineage hr hc, Machine.isSubclassOf]

theorem Succeeds.isSubinterfaceOf {target : ClassId} (hc : c.index < a.classes.size) :
    b.isSubinterfaceOf c target = a.isSubinterfaceOf c target :=
  hs.hasInterfaceWithin hr hc (Nat.lt_succ_of_lt hc) (Nat.lt_succ_of_lt (Nat.lt_of_lt_of_le hc hs.size))

theorem Succeeds.implements {target : ClassId} (hc : c.index < a.classes.size) :
    b.implements c target = a.implements c target := by
  rw [Machine.implements, hs.lineage hr hc]
  exact any_congr_left fun k hk => hs.isSubinterfaceOf hr (hr.lt_of_mem_lineage hc hk)

theorem Succeeds.elementClass (hc : c.index < a.classes.size) : b.elementClass c = a.elementClass c :=
  hs.elementClassWithin hr hc (Nat.le_of_lt hc) (Nat.le_of_lt (Nat.lt_of_lt_of_le hc hs.size))

omit hs in
theorem Machine.Rooted.elementClassWithin_le (n : Nat) (c : ClassId) : (a.elementClassWithin n c).index ≤ c.index := by
  induction n generalizing c with
  | zero => exact Nat.le_refl _
  | succ n ih =>
    rw [Machine.elementClassWithin]
    split
    · next d hd => exact Nat.le_trans (ih d) (Nat.le_of_lt (hr.component c d hd))
    · exact Nat.le_refl _

theorem Succeeds.classAccessible {source : ClassId} (hsource : source.index < a.classes.size)
    (hc : c.index < a.classes.size) : b.classAccessible source c = a.classAccessible source c := by
  have helement : (a.elementClass c).index < a.classes.size := Nat.lt_of_le_of_lt (hr.elementClassWithin_le _ c) hc
  have hpublic : (b.classAt (a.elementClass c)).isPublic = (a.classAt (a.elementClass c)).isPublic :=
    hs.part helement Class.isPublic fun _ => rfl
  rw [Machine.classAccessible, hs.elementClass hr hc, hs.isPrimitive helement, hpublic, hs.samePackage hsource helement]
  rfl

omit hr in
theorem Succeeds.nameHalt? (hc : c.index < a.classes.size) : b.nameHalt? c = a.nameHalt? c := by
  rw [Machine.nameHalt?, hs.name hc, Machine.nameHalt?]

theorem Succeeds.elementHalt? (hc : c.index < a.classes.size) : b.elementHalt? c = a.elementHalt? c := by
  have helement : (a.elementClass c).index < a.classes.size := Nat.lt_of_le_of_lt (hr.elementClassWithin_le _ c) hc
  rw [Machine.elementHalt?, hs.elementClass hr hc, hs.nameHalt? helement, hs.isArray helement, Machine.elementHalt?]

theorem Succeeds.memberAccessible {source owner : ClassId} {flags : Flags} (hsource : source.index < a.classes.size)
    (howner : owner.index < a.classes.size) :
    b.memberAccessible source owner flags = a.memberAccessible source owner flags := by
  rw [Machine.memberAccessible, hs.samePackage hsource howner, hs.isSubclassOf hr hsource]
  rfl

theorem Succeeds.assignableWithin {target source : ClassId} {n n' : Nat} (htarget : target.index < a.classes.size)
    (hsource : source.index < a.classes.size) (hn : source.index < n) (hn' : source.index < n') :
    b.assignableWithin n' target source = a.assignableWithin n target source := by
  induction n generalizing target source n' with
  | zero => omega
  | succ n ih =>
    cases n' with
    | zero => omega
    | succ n' =>
      have hcomponents {sc tc : ClassId} (hsc : (a.classAt source).component = some sc)
          (htc : (a.classAt target).component = some tc) :
          (if (b.classAt sc).isPrimitive || (b.classAt tc).isPrimitive then sc == tc else b.assignableWithin n' tc sc) =
            if (a.classAt sc).isPrimitive || (a.classAt tc).isPrimitive then sc == tc else a.assignableWithin n tc sc := by
        have hlt := hr.component source sc hsc
        have hsc : sc.index < a.classes.size := Nat.lt_trans hlt hsource
        have htc : tc.index < a.classes.size := Nat.lt_trans (hr.component target tc htc) htarget
        rw [hs.isPrimitive hsc, hs.isPrimitive htc, ih htc hsc (by omega) (by omega)]
      rw [Machine.assignableWithin, Machine.assignableWithin]
      dsimp only
      rw [hs.isArray hsource, hs.isArray htarget, hs.component hsource, hs.component htarget,
        hs.isInterface hsource, hs.isInterface htarget, hs.name htarget, hs.isPrimitive hsource,
        hs.isPrimitive htarget, hs.isSubinterfaceOf hr hsource, hs.implements hr hsource, hs.isSubclassOf hr hsource]
      cases hsc : (a.classAt source).component with
      | none => rfl
      | some sc =>
        cases htc : (a.classAt target).component with
        | none => rfl
        | some tc =>
          dsimp only
          rw [hcomponents hsc htc]

theorem Succeeds.isAssignable {target source : ClassId} (htarget : target.index < a.classes.size)
    (hsource : source.index < a.classes.size) : b.isAssignable target source = a.isAssignable target source :=
  hs.assignableWithin hr htarget hsource (Nat.lt_succ_of_lt hsource)
    (Nat.lt_succ_of_lt (Nat.lt_of_lt_of_le hsource hs.size))

end looks

end JavaMachine

/-! ## What a class extends and implements -/

namespace JavaMachine.Machine

open Relation

/-- The superclass of a class is another. -/
def Extends (m : Machine) (c s : ClassId) : Prop := (m.classAt c).super = some s

/-- A class declares a superinterface. -/
def Implements (m : Machine) (c i : ClassId) : Prop := i ∈ (m.classAt c).interfaces

/-- A class has an interface, by itself or from a superclass. -/
def Inherits (m : Machine) (c i : ClassId) : Prop := ∃ k, ReflTransGen m.Extends c k ∧ TransGen m.Implements k i

variable {m : Machine} {c d i : ClassId} {n n' : Nat}

namespace Rooted

variable (h : m.Rooted)
include h

theorem lt_of_implements (hi : TransGen m.Implements c i) : i.index < c.index := by
  induction hi with
  | single hi => exact h.interfaces _ _ hi
  | tail _ hi ih => exact Nat.lt_trans (h.interfaces _ _ hi) ih

theorem le_of_extends (hd : ReflTransGen m.Extends c d) : d.index ≤ c.index := by
  induction hd with
  | refl => exact Nat.le_refl _
  | tail _ hd ih => exact Nat.le_trans (Nat.le_of_lt (h.super _ _ hd)) ih

/-- The lineage of a class is what it extends, itself included. -/
theorem mem_lineageWithin (hn : c.index ≤ n) : d ∈ m.lineageWithin n c ↔ ReflTransGen m.Extends c d := by
  induction n generalizing c with
  | zero =>
    rw [lineageWithin, List.mem_singleton]
    have hnone := h.super_of_zero (Nat.le_zero.1 hn)
    refine ⟨fun heq => heq ▸ .refl, fun hd => ?_⟩
    rcases ReflTransGen.cases_head_iff.1 hd with heq | ⟨s, hs, -⟩
    · exact heq.symm
    · rw [Extends, hnone] at hs
      cases hs
  | succ n ih =>
    rw [h.lineageWithin_eq hn, List.mem_cons, ReflTransGen.cases_head_iff, Nat.add_sub_cancel, eq_comm]
    refine or_congr_right ?_
    cases hsuper : (m.classAt c).super with
    | none => simp [Extends, hsuper]
    | some s =>
      have hlt := h.super c s hsuper
      have hs : d ∈ m.lineageWithin n s ↔ ReflTransGen m.Extends s d := ih (by omega)
      simp [Extends, hsuper, hs]

theorem mem_lineage (hc : c.index < m.classes.size) : d ∈ m.lineage c ↔ ReflTransGen m.Extends c d :=
  h.mem_lineageWithin (Nat.le_of_lt hc)

/-- A walk through the superinterfaces of a class meets all that it implements. -/
theorem hasInterfaceWithin_iff (hn : c.index < n) : m.hasInterfaceWithin i n c = true ↔ TransGen m.Implements c i := by
  induction n generalizing c with
  | zero => omega
  | succ n ih =>
    rw [hasInterfaceWithin, List.any_eq_true, TransGen.head'_iff]
    refine exists_congr fun j => and_congr_right fun hj => ?_
    have hlt := h.interfaces c j hj
    have hwalk : m.hasInterfaceWithin i n j = true ↔ TransGen m.Implements j i := ih (by omega)
    rw [Bool.or_eq_true, beq_iff_eq, hwalk, reflTransGen_iff_eq_or_transGen, eq_comm]

theorem isSubinterfaceOf_iff (hc : c.index < m.classes.size) :
    m.isSubinterfaceOf c i = true ↔ TransGen m.Implements c i := h.hasInterfaceWithin_iff (Nat.lt_succ_of_lt hc)

theorem implements_iff (hc : c.index < m.classes.size) : m.implements c i = true ↔ m.Inherits c i := by
  rw [implements, List.any_eq_true]
  refine exists_congr fun k => ?_
  rw [h.mem_lineage hc]
  refine and_congr_right fun hk => h.isSubinterfaceOf_iff (Nat.lt_of_le_of_lt (h.le_of_extends hk) hc)

theorem isSubclassOf_iff (hc : c.index < m.classes.size) : m.isSubclassOf c d = true ↔ TransGen m.Extends c d := by
  rw [isSubclassOf, List.contains_iff_mem, lineage, h.lineageWithin_eq (Nat.le_of_lt hc), List.drop_one, List.tail_cons,
    TransGen.head'_iff]
  cases hsuper : (m.classAt c).super with
  | none => simp [Extends, hsuper]
  | some s =>
    have hlt := h.super c s hsuper
    have hs : d ∈ m.lineageWithin (m.classes.size - 1) s ↔ ReflTransGen m.Extends s d := h.mem_lineageWithin (by omega)
    simp [Extends, hsuper, hs]

end Rooted

end JavaMachine.Machine
