import JavaMachine.Machine.Linking

/-!
Classes as they were planned, and what loaders know of them. The plan of a class is what its definition fixes; a machine
`Succeeds` another if it has the classes of that, as they were planned, and its loaders have forgotten nothing.
-/

namespace JavaMachine

/-- An entry of a pool before it was resolved to anything. -/
def PoolEntry.unresolved : PoolEntry → PoolEntry
  | .string units _ => .string units none
  | .class name _ => .class name none
  | .field owner name desc _ _ => .field owner name desc none none
  | .method owner name desc onInterface _ _ => .method owner name desc onInterface none none
  | e => e

/-- An entry of a pool that was resolved to all that it names. -/
def PoolEntry.Resolved : PoolEntry → Prop
  | .class _ known => known.isSome
  | .field _ _ _ _ known => known.isSome
  | .method _ _ _ _ owner known => owner.isSome ∧ known.isSome
  | _ => False

theorem PoolEntry.not_resolved_of_string {e : PoolEntry} {units : List UInt16} (h : e.unresolved = .string units none) :
    ¬ e.Resolved := by
  cases e with
  | «class» => cases h
  | field => cases h
  | method => cases h
  | _ => exact id

/-- What a class is from its definition on: all but its state, its mirror, what its pool was resolved to and
the values of its static variables. -/
def Class.plan (k : Class) : Class :=
  { k with
    pool := k.pool.map PoolEntry.unresolved, mirror := none, state := .unlinked
    statics := Slots.ofSize k.statics.size }

/-- The direct supertypes of a class. -/
def Class.supertypes (k : Class) : List ClassId := k.super.toList ++ k.interfaces

/-- The classes and loaders of a machine are there later, as they were planned. Loaders forget nothing, and if the
bootstrap loader takes a name for another class than before, that class is new. -/
structure Succeeds (a b : Machine) : Prop where
  size : a.classes.size ≤ b.classes.size
  plans : ∀ c, c.index < a.classes.size → (b.classAt c).plan = (a.classAt c).plan
  loaders : a.loaders.size ≤ b.loaders.size
  lists : ∀ l, (a.loaderAt l).classes ⊆ (b.loaderAt l).classes
  newer : ∀ n c c', a.loaded? 0 n = some c → b.loaded? 0 n = some c' → c' = c ∨ a.classes.size ≤ c'.index

/-! ## Classes of a table -/

namespace Machine

variable {m : Machine} {c : ClassId}

theorem classAt_of_le (h : m.classes.size ≤ c.index) : m.classAt c = default := by
  simp [classAt, Array.getD, Nat.not_lt.2 h]

theorem classAt_mem (h : c.index < m.classes.size) : m.classAt c ∈ m.classes := by
  simp [classAt, Array.getD, h]

/-- A class of which something holds that does not hold of the empty class is there. -/
theorem lt_of_classAt {P : Class → Prop} (h : P (m.classAt c)) (hdefault : ¬ P default) :
    c.index < m.classes.size := by
  refine Nat.lt_of_not_le fun hge => hdefault ?_
  rwa [classAt_of_le hge] at h

theorem lt_of_mem_fields {f : Field} (h : f ∈ (m.classAt c).fields) : c.index < m.classes.size :=
  lt_of_classAt (P := fun k => f ∈ k.fields) h List.not_mem_nil

theorem lt_of_mem_methods {method : Method} (h : method ∈ (m.classAt c).methods) : c.index < m.classes.size :=
  lt_of_classAt (P := fun k => method ∈ k.methods) h List.not_mem_nil

theorem lt_of_mem_pool {e : PoolEntry} (h : e ∈ (m.classAt c).pool) : c.index < m.classes.size :=
  lt_of_classAt (P := fun k => e ∈ k.pool) h (Array.not_mem_empty e)

theorem classAt_modify (m : Machine) (c k : ClassId) (f : Class → Class) :
    { m with classes := m.classes.modify c.index f }.classAt k =
      if c = k ∧ c.index < m.classes.size then f (m.classAt k) else m.classAt k := by
  obtain ⟨i⟩ := c
  obtain ⟨j⟩ := k
  simp only [classAt, Array.getD_eq_getD_getElem?, Array.getElem?_modify, ClassId.mk.injEq]
  by_cases hij : i = j
  · subst hij
    by_cases hi : i < m.classes.size
    · simp [hi]
    · simp [hi]
  · simp [hij]

/-- The machine in which an entry of a pool was set. -/
def setEntry (m : Machine) (c : ClassId) (index : Nat) (e : PoolEntry) : Machine :=
  { m with classes := m.classes.modify c.index fun k => { k with pool := k.pool.setIfInBounds index e } }

/-- Other entries are as before. -/
theorem entry_setEntry_of_ne {k : ClassId} {i j : Nat} (h : c = k → i ≠ j) (e : PoolEntry) :
    ((m.setEntry c i e).classAt k).pool.getD j .empty = (m.classAt k).pool.getD j .empty := by
  rw [setEntry, classAt_modify]
  split
  · next hk =>
    simp only [Array.getD_eq_getD_getElem?, Array.getElem?_setIfInBounds_ne (h hk.1)]
  · rfl

theorem objectAt_modify (m : Machine) (r x : Ref) (f : Object → Object) :
    { m with heap := m.heap.modify r.index f }.objectAt x =
      if r = x ∧ r.index < m.heap.size then f (m.objectAt x) else m.objectAt x := by
  obtain ⟨i⟩ := r
  obtain ⟨j⟩ := x
  simp only [objectAt, Array.getD_eq_getD_getElem?, Array.getElem?_modify, Ref.mk.injEq]
  by_cases hij : i = j
  · subst hij
    by_cases hi : i < m.heap.size
    · simp [hi]
    · simp [hi]
  · simp [hij]

/-! ## What is known -/

variable {l : Nat} {n : String}

theorem mem_of_loaded? (h : m.loaded? l n = some c) : (n, c) ∈ (m.loaderAt l).classes := by
  obtain ⟨_, _, hl, -⟩ := List.lookup_eq_some_iff.1 h
  rw [hl]
  simp

theorem isSome_loaded?_of_mem (h : (n, c) ∈ (m.loaderAt l).classes) : (m.loaded? l n).isSome := by
  rw [Option.isSome_iff_ne_none]
  intro hnone
  have hne := List.lookup_eq_none_iff.1 hnone _ h
  simp at hne

theorem exists_mem_of_isSome (h : (m.loaded? l n).isSome) : ∃ c, (n, c) ∈ (m.loaderAt l).classes := by
  obtain ⟨c, hc⟩ := Option.isSome_iff_exists.1 h
  exact ⟨c, mem_of_loaded? hc⟩

theorem isSome_loaded?_mono {m' : Machine} (hsub : (m.loaderAt l).classes ⊆ (m'.loaderAt l).classes)
    (h : (m.loaded? l n).isSome) : (m'.loaded? l n).isSome := by
  obtain ⟨c, hc⟩ := exists_mem_of_isSome h
  exact isSome_loaded?_of_mem (hsub hc)

theorem loaderAt_modify (m : Machine) (l l' : Nat) (f : Loader → Loader) :
    { m with loaders := m.loaders.modify l f }.loaderAt l' =
      if l = l' ∧ l < m.loaders.size then f (m.loaderAt l') else m.loaderAt l' := by
  simp only [loaderAt, Array.getD_eq_getD_getElem?, Array.getElem?_modify]
  by_cases hll : l = l'
  · subst hll
    by_cases hl : l < m.loaders.size
    · simp [hl]
    · simp [hl]
  · simp [hll]

/-- What a loader knows after it was told of a class. -/
theorem classes_record (m : Machine) (l l' : Nat) (n : String) (c : ClassId) :
    ((m.record l n c).loaderAt l').classes =
      if l = l' ∧ l < m.loaders.size then (n, c) :: (m.loaderAt l').classes else (m.loaderAt l').classes := by
  have hloader := m.loaderAt_modify l l' fun x => { x with classes := (n, c) :: x.classes }
  have h := congrArg Loader.classes hloader
  rw [apply_ite Loader.classes] at h
  exact h

end Machine

/-! ## Plans -/

/-- What does not see the difference between a class and its plan is the same for classes of the same plan. -/
theorem Class.of_plan {α : Type} (f : Class → α) (hf : ∀ k : Class, f k.plan = f k) {a b : Class}
    (h : a.plan = b.plan) : f a = f b := by
  rw [← hf a, h, hf b]

theorem Class.size_statics_of_plan {a b : Class} (h : a.plan = b.plan) : a.statics.size = b.statics.size := by
  have hp := congrArg (fun k : Class => k.statics.size) h
  simpa [Class.plan, Slots.ofSize] using hp

@[simp]
theorem PoolEntry.unresolved_unresolved (e : PoolEntry) : e.unresolved.unresolved = e.unresolved := by
  cases e <;> rfl

/-- The plan of a class has what the entries of its pool were before they were resolved. -/
theorem Class.entry_plan (k : Class) (i : Nat) : k.plan.pool.getD i .empty = (k.pool.getD i .empty).unresolved := by
  simp only [Class.plan, Array.getD_eq_getD_getElem?, Array.getElem?_map]
  cases k.pool[i]? <;> rfl

/-- An entry that is resolved to something else takes the place of an entry as planned. -/
theorem Class.plan_setEntry {k : Class} {i : Nat} {e : PoolEntry}
    (h : e.unresolved = (k.pool.getD i .empty).unresolved) :
    Class.plan { k with pool := k.pool.setIfInBounds i e } = k.plan := by
  have hpool : (k.pool.setIfInBounds i e).map PoolEntry.unresolved = k.pool.map PoolEntry.unresolved := by
    apply Array.ext_getElem?
    intro j
    simp only [Array.getElem?_map, Array.getElem?_setIfInBounds]
    split
    · next hij =>
      subst hij
      split
      · next hi => simp [h, Array.getD, hi]
      · next hi => simp [hi]
    · rfl
  rw [Class.plan, Class.plan, hpool]

namespace Succeeds

variable {a b c : Machine} {k : ClassId}

/-- Classes that stay as they were planned, and loaders that know the same. -/
theorem of_known (size : a.classes.size ≤ b.classes.size)
    (plans : ∀ c, c.index < a.classes.size → (b.classAt c).plan = (a.classAt c).plan)
    (loaders : a.loaders.size ≤ b.loaders.size) (known : ∀ l, (b.loaderAt l).classes = (a.loaderAt l).classes) :
    Succeeds a b := by
  refine ⟨size, plans, loaders, fun l => ?_, fun n c c' hc hc' => .inl ?_⟩
  · rw [known]
    exact List.Subset.refl _
  · rw [Machine.loaded?, known] at hc'
    exact Option.some.inj (hc'.symm.trans hc)

/-- Classes and loaders that are the same. -/
theorem of_same (classes : b.classes = a.classes) (loaders : b.loaders = a.loaders) : Succeeds a b := by
  refine of_known (Nat.le_of_eq (congrArg Array.size classes.symm)) (fun c _ => ?_)
    (Nat.le_of_eq (congrArg Array.size loaders.symm)) fun l => ?_
  · rw [Machine.classAt, classes, Machine.classAt]
  · rw [Machine.loaderAt, loaders, Machine.loaderAt]

theorem refl (m : Machine) : Succeeds m m := of_same rfl rfl

/-- What a loader knows it goes on knowing. -/
theorem isSome_loaded? (h : Succeeds a b) {l : Nat} {n : String} (hn : (a.loaded? l n).isSome) :
    (b.loaded? l n).isSome := Machine.isSome_loaded?_mono (h.lists l) hn

theorem trans (h : Succeeds a b) (h' : Succeeds b c) : Succeeds a c where
  size := Nat.le_trans h.size h'.size
  plans k hk := (h'.plans k (Nat.lt_of_lt_of_le hk h.size)).trans (h.plans k hk)
  loaders := Nat.le_trans h.loaders h'.loaders
  lists l := List.Subset.trans (h.lists l) (h'.lists l)
  newer n k k' hk hk' := by
    obtain ⟨k₁, hk₁⟩ := Option.isSome_iff_exists.1 (h.isSome_loaded? (Option.isSome_of_eq_some hk))
    rcases h'.newer n k₁ k' hk₁ hk' with rfl | hle
    · exact h.newer n k k' hk hk₁
    · exact .inr (Nat.le_trans h.size hle)

theorem part {α : Type} (h : Succeeds a b) (hk : k.index < a.classes.size) (f : Class → α)
    (hf : ∀ k : Class, f k.plan = f k) : f (b.classAt k) = f (a.classAt k) := Class.of_plan f hf (h.plans k hk)

section parts

variable (h : Succeeds a b) (hk : k.index < a.classes.size)
include h hk

theorem name : (b.classAt k).name = (a.classAt k).name := h.part hk Class.name fun _ => rfl

theorem flags : (b.classAt k).flags = (a.classAt k).flags := h.part hk Class.flags fun _ => rfl

theorem loader : (b.classAt k).loader = (a.classAt k).loader := h.part hk Class.loader fun _ => rfl

theorem super : (b.classAt k).super = (a.classAt k).super := h.part hk Class.super fun _ => rfl

theorem interfaces : (b.classAt k).interfaces = (a.classAt k).interfaces := h.part hk Class.interfaces fun _ => rfl

theorem fields : (b.classAt k).fields = (a.classAt k).fields := h.part hk Class.fields fun _ => rfl

theorem methods : (b.classAt k).methods = (a.classAt k).methods := h.part hk Class.methods fun _ => rfl

theorem instanceSlots : (b.classAt k).instanceSlots = (a.classAt k).instanceSlots :=
  h.part hk Class.instanceSlots fun _ => rfl

/-- The entry of a pool before it was resolved to anything. -/
theorem entry (i : Nat) :
    ((b.classAt k).pool.getD i .empty).unresolved = ((a.classAt k).pool.getD i .empty).unresolved := by
  rw [← Class.entry_plan, ← Class.entry_plan, h.plans k hk]

theorem component : (b.classAt k).component = (a.classAt k).component := h.part hk Class.component fun _ => rfl

theorem primitive : (b.classAt k).primitive = (a.classAt k).primitive := h.part hk Class.primitive fun _ => rfl

theorem supertypes : (b.classAt k).supertypes = (a.classAt k).supertypes := h.part hk Class.supertypes fun _ => rfl

end parts

end Succeeds

end JavaMachine
