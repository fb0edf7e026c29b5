import JavaMachine.Proofs.Machine.Lookups

/-!
How the heap and the pools fit the classes. An instance has a slot for each slot of its class, members know their
class, and what a pool entry was resolved to is what the entry means to the class that has it. A `Steady` change leaves
the classes, the loaders and this fit as they are; contents of the heap, values of static variables and states of
classes are free.
-/

namespace JavaMachine

/-- An object that is no array has a slot for each of its class, and a loader that it stands for is there. -/
structure Object.Fits (o : Object) (m : Machine) : Prop where
  owner : o.elements = none → o.owner.index < m.classes.size
  fields : o.elements = none → o.fields.size = (m.classAt o.owner).instanceSlots
  loader : ∀ l, o.attached = some (.loader l) → l < m.loaders.size

/-- A method takes the slots that its descriptor says, and its body has local variables for them. -/
structure Method.Suits (method : Method) : Prop where
  slots : ∃ type, Descriptor.parseMethod method.desc = .ok type ∧ method.argSlots = type.slots method.isStatic
  locals : method.isAbstract = false → method.argSlots ≤ method.maxLocals

/-- The members of a class are its own. -/
structure Class.Owns (k : Class) (c : ClassId) : Prop where
  fields : ∀ f ∈ k.fields, f.owner = c
  methods : ∀ method ∈ k.methods, method.owner = c ∧ method.Suits

/-- A name in code of a class stands for another class. Code of the bootstrap loader may refer to the other, which is
the one that the loader takes the name for, if it is not for one that is younger than the code. -/
structure Machine.Stands (m : Machine) (holder : ClassId) (name : String) (c : ClassId) : Prop where
  valid : c.index < m.classes.size
  known : (m.classAt holder).loader = 0 → (name, c) ∈ (m.loaderAt 0).classes
  element : m.elementHalt? c = none
  accessible : m.classAccessible holder c
  latest : (m.classAt holder).loader = 0 → ∀ d, m.loaded? 0 name = some d → d = c ∨ holder.index < d.index

/-- A field that a reference in code of a class means. -/
structure Machine.MeansField (m : Machine) (holder c : ClassId) (name desc : String) (f : Field) : Prop where
  found : m.lookupField c name desc = some f
  declared : f ∈ (m.classAt f.owner).fields
  accessible : m.memberAccessible holder f.owner f.flags

/-- A method that a reference in code of a class means. -/
structure Machine.MeansMethod (m : Machine) (holder c : ClassId) (name desc : String) (onInterface : Bool)
    (method : Method) : Prop where
  found : Resolution.selectMethod m c name desc onInterface = .ok method
  declared : method ∈ (m.classAt method.owner).methods
  accessible : m.memberAccessible holder method.owner method.flags

/-- What an entry in the pool of a class was resolved to is what it means there. -/
def PoolEntry.Fits (m : Machine) (holder : ClassId) : PoolEntry → Prop
  | .class name resolved => ∀ c, resolved = some c → m.Stands holder name c
  | .field owner name desc ownerClass resolved =>
    (∀ c, ownerClass = some c → m.Stands holder owner c) ∧
      ∀ f, resolved = some f → ∃ c, ownerClass = some c ∧ m.MeansField holder c name desc f
  | .method owner name desc onInterface ownerClass resolved =>
    (∀ c, ownerClass = some c → m.Stands holder owner c) ∧
      ∀ method, resolved = some method → ∃ c, ownerClass = some c ∧ m.MeansMethod holder c name desc onInterface method
  | _ => True

/-- Objects and pools fit the classes, and members know their class. Class 0 stands for `void`. -/
structure Machine.Fit (m : Machine) : Prop where
  rooted : m.Rooted
  void : 0 < m.classes.size ∧ (m.classAt ⟨0⟩).instanceSlots = 0
  objects : ∀ o ∈ m.heap, o.Fits m
  pools : ∀ c, ∀ e ∈ (m.classAt c).pool, e.Fits m c
  owns : ∀ c, (m.classAt c).Owns c

theorem Machine.objectAt_eq_default_or_mem (m : Machine) (r : Ref) :
    m.objectAt r = default ∨ m.objectAt r ∈ m.heap := by
  unfold Machine.objectAt Array.getD
  split
  · exact .inr (Array.getElem_mem _)
  · exact .inl rfl

/-! ## Later machines -/

section later

variable {a b : Machine} {holder c : ClassId} {name desc : String}

theorem Object.Fits.mono {o : Object} (h : o.Fits a) (hs : Succeeds a b) : o.Fits b where
  owner he := Nat.lt_of_lt_of_le (h.owner he) hs.size
  fields he := by
    rw [h.fields he, hs.instanceSlots (h.owner he)]
  loader l hl := Nat.lt_of_lt_of_le (h.loader l hl) hs.loaders

theorem Machine.Stands.mono (h : a.Stands holder name c) (hr : a.Rooted) (hs : Succeeds a b)
    (hholder : holder.index < a.classes.size) : b.Stands holder name c where
  valid := Nat.lt_of_lt_of_le h.valid hs.size
  known hl := hs.lists 0 (h.known ((hs.loader hholder).symm.trans hl))
  element := (hs.elementHalt? hr h.valid).trans h.element
  accessible := by
    rw [hs.classAccessible hr hholder h.valid]
    exact h.accessible
  latest hl d hd := by
    have hl : (a.classAt holder).loader = 0 := (hs.loader hholder).symm.trans hl
    obtain ⟨d', hd'⟩ := Option.isSome_iff_exists.1 (Machine.isSome_loaded?_of_mem (h.known hl))
    rcases hs.newer name d' d hd' hd with rfl | hnew
    · exact h.latest hl d hd'
    · exact .inr (Nat.lt_of_lt_of_le hholder hnew)

theorem Machine.MeansField.mono {f : Field} (h : a.MeansField holder c name desc f) (hr : a.Rooted)
    (hs : Succeeds a b) (hholder : holder.index < a.classes.size) (hc : c.index < a.classes.size) :
    b.MeansField holder c name desc f where
  found := by
    rw [hs.lookupField hr hc]
    exact h.found
  declared := by
    rw [hs.fields (lt_of_mem_fields h.declared)]
    exact h.declared
  accessible := by
    rw [hs.memberAccessible hr hholder (lt_of_mem_fields h.declared)]
    exact h.accessible

theorem Machine.MeansMethod.mono {onInterface : Bool} {method : Method}
    (h : a.MeansMethod holder c name desc onInterface method) (hr : a.Rooted) (hs : Succeeds a b)
    (hholder : holder.index < a.classes.size) (hc : c.index < a.classes.size) :
    b.MeansMethod holder c name desc onInterface method where
  found := by
    rw [hs.selectMethod hr hc]
    exact h.found
  declared := by
    rw [hs.methods (lt_of_mem_methods h.declared)]
    exact h.declared
  accessible := by
    rw [hs.memberAccessible hr hholder (lt_of_mem_methods h.declared)]
    exact h.accessible

theorem PoolEntry.Fits.mono {e : PoolEntry} (h : e.Fits a holder) (hr : a.Rooted) (hs : Succeeds a b)
    (hholder : holder.index < a.classes.size) : e.Fits b holder := by
  cases e with
  | «class» name resolved => exact fun c hc => (h c hc).mono hr hs hholder
  | field owner name desc ownerClass resolved =>
    refine ⟨fun c hc => (h.1 c hc).mono hr hs hholder, fun f hf => ?_⟩
    obtain ⟨c, hc, hmeans⟩ := h.2 f hf
    exact ⟨c, hc, hmeans.mono hr hs hholder (h.1 c hc).valid⟩
  | method owner name desc onInterface ownerClass resolved =>
    refine ⟨fun c hc => (h.1 c hc).mono hr hs hholder, fun method hmethod => ?_⟩
    obtain ⟨c, hc, hmeans⟩ := h.2 method hmethod
    exact ⟨c, hc, hmeans.mono hr hs hholder (h.1 c hc).valid⟩
  | _ => trivial

/-- An entry that is resolved to nothing fits every pool. -/
theorem PoolEntry.fits_of_unresolved {e : PoolEntry} (h : e.unresolved = e) (m : Machine) (c : ClassId) : e.Fits m c := by
  cases e with
  | «class» name resolved =>
    cases h
    exact nofun
  | field owner name desc ownerClass resolved =>
    cases h
    exact ⟨nofun, nofun⟩
  | method owner name desc onInterface ownerClass resolved =>
    cases h
    exact ⟨nofun, nofun⟩
  | _ => trivial

end later

namespace Machine.Fit

variable {m : Machine}

theorem objectAt (h : m.Fit) (r : Ref) : (m.objectAt r).Fits m := by
  rcases m.objectAt_eq_default_or_mem r with hd | hm
  · rw [hd]
    refine ⟨fun _ => h.void.1, fun _ => h.void.2.symm, ?_⟩
    intro l hl
    cases hl
  · exact h.objects _ hm

theorem entry (h : m.Fit) (c : ClassId) (i : Nat) : ((m.classAt c).pool.getD i .empty).Fits m c := by
  unfold Array.getD
  split
  · exact h.pools c _ (Array.getElem_mem _)
  · trivial

/-- A field that is found is declared by its class. -/
theorem lookupField (h : m.Fit) {c : ClassId} {name desc : String} {f : Field}
    (hf : m.lookupField c name desc = some f) : f ∈ (m.classAt f.owner).fields := by
  obtain ⟨k, hk⟩ := Machine.mem_fields_of_lookupField hf
  rwa [(h.owns k).fields f hk]

/-- A method that a class declares knows its class, and suits its descriptor. -/
theorem declared (h : m.Fit) {name desc : String} {method : Method} (hmethod : m.Declared name desc method) :
    method ∈ (m.classAt method.owner).methods ∧ method.name = name ∧ method.desc = desc ∧ method.Suits := by
  obtain ⟨k, hk⟩ := hmethod
  obtain ⟨hmem, hname, hdesc⟩ := Class.of_findMethod hk
  obtain ⟨howner, hsuits⟩ := (h.owns k).methods method hmem
  rw [howner]
  exact ⟨hmem, hname, hdesc, hsuits⟩

/-- A later machine fits if its new objects, pool entries and classes do. -/
theorem later {a b : Machine} (h : a.Fit) (hs : Succeeds a b)
    (objects : ∀ o ∈ b.heap, o ∈ a.heap ∨ o.Fits b)
    (pools : ∀ c, ∀ e ∈ (b.classAt c).pool, e ∈ (a.classAt c).pool ∨ e.Fits b c)
    (follows : ∀ c, a.classes.size ≤ c.index → (b.classAt c).Follows c)
    (owns : ∀ c, a.classes.size ≤ c.index → (b.classAt c).Owns c) : b.Fit where
  rooted := h.rooted.later hs follows
  void := by
    refine ⟨Nat.lt_of_lt_of_le h.void.1 hs.size, ?_⟩
    rw [hs.instanceSlots h.void.1]
    exact h.void.2
  objects o ho := by
    rcases objects o ho with hold | hnew
    · exact (h.objects o hold).mono hs
    · exact hnew
  pools c e he := by
    rcases pools c e he with hold | hnew
    · exact (h.pools c e hold).mono h.rooted hs (lt_of_mem_pool hold)
    · exact hnew
  owns c := by
    rcases Nat.lt_or_ge c.index a.classes.size with hlt | hge
    · have howns := h.owns c
      refine ⟨?_, ?_⟩
      · rw [hs.fields hlt]
        exact howns.fields
      · rw [hs.methods hlt]
        exact howns.methods
    · exact owns c hge

/-- A later machine without new classes fits if its new objects and pool entries do. -/
theorem onward {a b : Machine} (h : a.Fit) (hs : Succeeds a b) (size : b.classes.size = a.classes.size)
    (objects : ∀ o ∈ b.heap, o ∈ a.heap ∨ o.Fits b)
    (pools : ∀ c, ∀ e ∈ (b.classAt c).pool, e ∈ (a.classAt c).pool ∨ e.Fits b c) : b.Fit := by
  have hnone {c : ClassId} (hc : a.classes.size ≤ c.index) : b.classAt c = default := classAt_of_le (size ▸ hc)
  refine h.later hs objects pools (fun c hc => ?_) fun c hc => ?_
  · rw [hnone hc]
    exact ⟨nofun, nofun, nofun⟩
  · rw [hnone hc]
    exact ⟨nofun, nofun⟩

/-- Only classes, objects and loaders matter. -/
theorem congr {a b : Machine} (h : a.Fit) (classes : b.classes = a.classes) (heap : b.heap = a.heap)
    (loaders : b.loaders = a.loaders) : b.Fit := by
  refine h.onward (.of_same classes loaders) (congrArg Array.size classes) ?_ ?_
  · exact fun o ho => .inl (heap ▸ ho)
  · intro c e he
    rw [Machine.classAt, classes] at he
    exact .inl he

end Machine.Fit

/-! ## Steady changes -/

/-- A change that leaves classes and loaders as they are, but for loaders that are new and know nothing. Events may
be noted, and no object goes away. -/
structure Steady (a b : Machine) : Prop where
  events : a.journal <:+ b.journal
  options : b.options = a.options
  primitives : b.primitives = a.primitives
  stringClass : b.stringClass = a.stringClass
  charArrayClass : b.charArrayClass = a.charArrayClass
  size : b.classes.size = a.classes.size
  plans : ∀ c, (b.classAt c).plan = (a.classAt c).plan
  loaders : a.loaders.size ≤ b.loaders.size
  known : ∀ l, (b.loaderAt l).classes = (a.loaderAt l).classes
  defining : ∀ l, (b.loaderAt l).defining = (a.loaderAt l).defining
  mirrors : ∀ l, l < a.loaders.size → (b.loaderAt l).mirror = (a.loaderAt l).mirror
  heap : a.heap.size ≤ b.heap.size
  fit : a.Fit → b.Fit

namespace Steady

variable {a b c m : Machine}

theorem refl (m : Machine) : Steady m m where
  events := List.suffix_refl _
  options := rfl
  primitives := rfl
  stringClass := rfl
  charArrayClass := rfl
  size := rfl
  plans _ := rfl
  loaders := Nat.le_refl _
  known _ := rfl
  defining _ := rfl
  mirrors _ _ := rfl
  heap := Nat.le_refl _
  fit := id

theorem trans (h : Steady a b) (h' : Steady b c) : Steady a c where
  events := h.events.trans h'.events
  options := h'.options.trans h.options
  primitives := h'.primitives.trans h.primitives
  stringClass := h'.stringClass.trans h.stringClass
  charArrayClass := h'.charArrayClass.trans h.charArrayClass
  size := h'.size.trans h.size
  plans k := (h'.plans k).trans (h.plans k)
  loaders := Nat.le_trans h.loaders h'.loaders
  known l := (h'.known l).trans (h.known l)
  defining l := (h'.defining l).trans (h.defining l)
  mirrors l hl := (h'.mirrors l (Nat.lt_of_lt_of_le hl h.loaders)).trans (h.mirrors l hl)
  heap := Nat.le_trans h.heap h'.heap
  fit := h'.fit ∘ h.fit

/-- A change of what classes and loaders have no part in. -/
theorem ofSame (events : a.journal <:+ b.journal) (options : b.options = a.options) (primitives : b.primitives = a.primitives)
    (stringClass : b.stringClass = a.stringClass) (charArrayClass : b.charArrayClass = a.charArrayClass)
    (classes : b.classes = a.classes) (heap : b.heap = a.heap) (loaders : b.loaders = a.loaders) :
    Steady a b := by
  have hloader (l : Nat) : b.loaderAt l = a.loaderAt l := by rw [Machine.loaderAt, loaders, Machine.loaderAt]
  refine ⟨events, options, primitives, stringClass, charArrayClass, congrArg Array.size classes, fun c => ?_,
    Nat.le_of_eq (congrArg Array.size loaders.symm),
    fun l => by rw [hloader], fun l => by rw [hloader], fun l _ => by rw [hloader],
    Nat.le_of_eq (congrArg Array.size heap.symm), fun h => h.congr classes heap loaders⟩
  rw [Machine.classAt, classes, Machine.classAt]

theorem succeeds (h : Steady a b) : Succeeds a b := .of_known (Nat.le_of_eq h.size.symm) (fun c _ => h.plans c) h.loaders h.known

/-- A change of the heap by which none of its objects goes away, if new objects fit. -/
theorem ofHeap {heap : Array Object} (hsize : m.heap.size ≤ heap.size) (h : m.Fit → ∀ o ∈ heap, o.Fits m) :
    Steady m { m with heap } := by
  refine { refl m with heap := hsize, fit := fun hm => ?_ }
  refine hm.onward (.of_same rfl rfl) rfl (fun o ho => .inr ?_) fun _ _ => .inl
  exact ⟨(h hm o ho).owner, (h hm o ho).fields, (h hm o ho).loader⟩

/-- A change of an object that keeps its shape. -/
theorem updateObject {r : Ref} {f : Object → Object}
    (h : m.Fit → (m.objectAt r).Fits m → (f (m.objectAt r)).Fits m) :
    Steady m { m with heap := m.heap.modify r.index f } := by
  refine ofHeap (Nat.le_of_eq Array.size_modify.symm) fun hm o ho => ?_
  obtain ⟨i, hi, rfl⟩ := Array.mem_iff_getElem.1 ho
  rw [Array.size_modify] at hi
  rw [Array.getElem_modify]
  split
  · next hr =>
    have hobject : m.heap[i] = m.objectAt r := by
      simp [Machine.objectAt, hr, hi]
    rw [hobject]
    exact h hm (hm.objectAt r)
  · exact hm.objects _ (Array.getElem_mem hi)

/-- A new object that fits. -/
theorem allocate {o : Object} (h : m.Fit → o.Fits m) : Steady m { m with heap := m.heap.push o } := by
  refine ofHeap (by rw [Array.size_push]; omega) fun hm o' ho => ?_
  rcases Array.mem_push.1 ho with hold | rfl
  · exact hm.objects _ hold
  · exact h hm

/-- A change of a class that keeps its plan, if the new entries of its pool fit. -/
theorem updateClass {c : ClassId} {f : Class → Class} (plan : (f (m.classAt c)).plan = (m.classAt c).plan)
    (pool : m.Fit → c.index < m.classes.size →
      ∀ e ∈ (f (m.classAt c)).pool, e ∈ (m.classAt c).pool ∨ e.Fits m c) :
    Steady m { m with classes := m.classes.modify c.index f } := by
  have hplans (k : ClassId) :
      ({ m with classes := m.classes.modify c.index f }.classAt k).plan = (m.classAt k).plan := by
    rw [Machine.classAt_modify]
    split
    · next h =>
      obtain ⟨rfl, -⟩ := h
      exact plan
    · rfl
  have hs : Succeeds m { m with classes := m.classes.modify c.index f } :=
    .of_known (by simp) (fun k _ => hplans k) (Nat.le_refl _) fun _ => rfl
  refine { refl m with size := by simp, plans := hplans, fit := fun hm => ?_ }
  refine hm.onward hs (by simp) (fun _ => .inl) fun k e he => ?_
  rw [Machine.classAt_modify] at he
  split at he
  · next h =>
    obtain ⟨rfl, hlt⟩ := h
    exact (pool hm hlt e he).imp_right fun hnew => hnew.mono hm.rooted hs hlt
  · exact .inl he

end Steady

end JavaMachine
