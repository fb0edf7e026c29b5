import JavaMachine.Proofs.Machine.Outlines

/-!
What arrays of references hold. A machine `Persists` in a later one that has its classes, its objects and what its
loaders know. Whether an element is of its array's kind is asked of the classes of one machine, in which all others
persist: classes that are there are assignable to each other then just when they are now (`Persists.isAssignable`). A machine
is `Machine.Stocked` if each of its arrays holds what its component admits, and `Stocks` are the changes that leave a
machine stocked.
-/

namespace JavaMachine

/-- The later machine has the classes of the earlier one, in any state, and its objects, and its loaders have forgotten
nothing. -/
structure Persists (a b : Machine) : Prop where
  size : a.classes.size ≤ b.classes.size
  cores : ∀ c, c.index < a.classes.size → (b.classAt c).core = (a.classAt c).core
  loaders : a.loaders.size ≤ b.loaders.size
  lists : ∀ l, (a.loaderAt l).classes ⊆ (b.loaderAt l).classes
  heap : a.heap.size ≤ b.heap.size
  owners : ∀ r, r.index < a.heap.size → b.classOf r = a.classOf r
  unchecked : a.unchecked = true → b.unchecked = true

/-- The bootstrap loader knows a class by a name. -/
def Machine.Knows (m : Machine) (name : String) (c : ClassId) : Prop := (name, c) ∈ (m.loaderAt 0).classes

/-- A reference is to an object of a class. -/
structure Machine.Refers (m : Machine) (r : Ref) (c : ClassId) : Prop where
  valid : r.index < m.heap.size
  owner : m.classOf r = c

namespace Persists

variable {a b c : Machine} {k : ClassId} {name : String}

theorem ofSucceeds (h : Succeeds a b) (heap : a.heap.size ≤ b.heap.size)
    (owners : ∀ r, r.index < a.heap.size → b.classOf r = a.classOf r) (unchecked : b.unchecked = a.unchecked) :
    Persists a b where
  size := h.size
  cores k hk := Class.core_of_plan (h.plans k hk)
  loaders := h.loaders
  lists := h.lists
  heap := heap
  owners := owners
  unchecked ha := unchecked.trans ha

/-- The same classes but for what changes after their definition, the same loaders and the same objects. -/
theorem ofSame (cores : ∀ c, (b.classAt c).core = (a.classAt c).core) (classes : b.classes.size = a.classes.size)
    (loaders : b.loaders = a.loaders) (heap : b.heap = a.heap) (unchecked : a.unchecked = true → b.unchecked = true) :
    Persists a b where
  size := Nat.le_of_eq classes.symm
  cores k _ := cores k
  loaders := Nat.le_of_eq (congrArg Array.size loaders.symm)
  lists l := by
    rw [Machine.loaderAt, Machine.loaderAt, loaders]
    exact List.Subset.refl _
  heap := Nat.le_of_eq (congrArg Array.size heap.symm)
  owners r _ := by rw [Machine.classOf, Machine.objectAt, heap, ← Machine.objectAt, ← Machine.classOf]
  unchecked := unchecked

theorem refl (m : Machine) : Persists m m := ofSame (fun _ => rfl) rfl rfl rfl id

theorem trans (h : Persists a b) (h' : Persists b c) : Persists a c where
  size := Nat.le_trans h.size h'.size
  cores k hk := (h'.cores k (Nat.lt_of_lt_of_le hk h.size)).trans (h.cores k hk)
  loaders := Nat.le_trans h.loaders h'.loaders
  lists l := List.Subset.trans (h.lists l) (h'.lists l)
  heap := Nat.le_trans h.heap h'.heap
  owners r hr := (h'.owners r (Nat.lt_of_lt_of_le hr h.heap)).trans (h.owners r hr)
  unchecked := h'.unchecked ∘ h.unchecked

theorem knows (h : Persists a b) (hk : a.Knows name k) : b.Knows name k := h.lists 0 hk

theorem refers {r : Ref} (h : Persists a b) (hr : a.Refers r k) : b.Refers r k :=
  ⟨Nat.lt_of_lt_of_le hr.valid h.heap, (h.owners r hr.valid).trans hr.owner⟩

theorem part {α : Type} (h : Persists a b) (hk : k.index < a.classes.size) (f : Class → α) (hf : ∀ k, f k = f k.core) :
    f (b.classAt k) = f (a.classAt k) := Class.of_core f hf (h.cores k hk)

/-- A component that a class has now it always has. -/
theorem component (h : Persists a b) {d : ClassId} (hd : (a.classAt k).component = some d) :
    (b.classAt k).component = some d := by
  have hk : k.index < a.classes.size := Machine.lt_of_classAt (P := fun k => k.component = some d) hd nofun
  rw [h.part hk Class.component fun _ => rfl, hd]

/-- The later machine with as many classes as the earlier one has. -/
private def former (a b : Machine) : Machine := { b with classes := b.classes.extract 0 a.classes.size }

private theorem size_former (h : Persists a b) : (former a b).classes.size = a.classes.size := by
  simp [former, h.size]

private theorem classAt_former (h : Persists a b) (hk : k.index < a.classes.size) :
    (former a b).classAt k = b.classAt k := by
  have hb := Nat.lt_of_lt_of_le hk h.size
  have hmin := Nat.lt_min.2 ⟨hk, hb⟩
  simp [former, Machine.classAt, Array.getD_eq_getD_getElem?, hmin, hb]

/-- Classes that are there now are assignable to each other later if they are now. -/
theorem isAssignable (h : Persists a b) (hb : b.Rooted) {target source : ClassId}
    (htarget : target.index < a.classes.size) (hsource : source.index < a.classes.size) :
    b.isAssignable target source = a.isAssignable target source := by
  have hsucceeds : Succeeds (former a b) b := by
    refine .of_known (h.size_former ▸ h.size) (fun c hc => ?_) (Nat.le_refl _) fun _ => rfl
    rw [h.classAt_former (h.size_former ▸ hc)]
  have hrooted : (former a b).Rooted := by
    refine ⟨fun c => ?_⟩
    rcases Nat.lt_or_ge c.index a.classes.size with hc | hc
    · rw [h.classAt_former hc]
      exact hb.follows c
    · rw [Machine.classAt_of_le (h.size_former ▸ hc)]
      exact ⟨nofun, nofun, nofun⟩
  have hcores : a.classes.map Class.core = (former a b).classes.map Class.core := by
    refine Array.ext (by simp [h.size_former]) fun i hi _ => ?_
    have hi : i < a.classes.size := by simpa using hi
    have hcore := h.cores ⟨i⟩ hi
    rw [← h.classAt_former hi] at hcore
    simpa [Machine.classAt, hi, h.size_former] using hcore.symm
  rw [Machine.isAssignable_congr hcores, hsucceeds.isAssignable hrooted (h.size_former ▸ htarget) (h.size_former ▸ hsource)]

end Persists

theorem Machine.assignableWithin_refl {m : Machine} (n : Nat) (c : ClassId) : m.assignableWithin n c c = true := by
  cases n with
  | zero => exact beq_self_eq_true c
  | succ n => rw [assignableWithin, if_pos (beq_self_eq_true c)]

/-- No test of a class stops the machine that has a name and is not one of arrays. -/
theorem Machine.testHalt?_of_plain {m : Machine} {source : ClassId} (hname : (m.classAt source).name ≠ "")
    (hplain : (m.classAt source).isArray = false) (target : ClassId) : m.testHalt? target source = none := by
  rw [testHalt?, testHaltWithin]
  split
  · rfl
  · dsimp only
    rw [nameHalt?, if_neg hname, hplain]
    rfl

/-- Nothing else is assignable from a class that is not there. -/
theorem Machine.valid_of_isAssignable {m : Machine} {target source : ClassId} (htarget : target.index < m.classes.size)
    (h : m.isAssignable target source = true) : source.index < m.classes.size := by
  by_contra hsource
  have hnone := classAt_of_le (Nat.not_lt.1 hsource)
  have hne : source ≠ target := by
    rintro rfl
    exact hsource htarget
  have hclass : (default : Class).isArray = false ∧ (default : Class).isPrimitive = false ∧
      (default : Class).isInterface = false := by decide +kernel
  have hlineage (n : Nat) : m.lineageWithin n source = [source] := by
    cases n with
    | zero => rfl
    | succ n =>
      rw [lineageWithin, hnone]
      rfl
  have hinterface (i : ClassId) : m.isSubinterfaceOf source i = false := by
    rw [isSubinterfaceOf, hasInterfaceWithin, hnone]
    rfl
  rw [isAssignable, assignableWithin, if_neg (by simpa using hne)] at h
  simp [hnone, hclass, implements, isSubclassOf, lineage, hlineage, hinterface] at h

/-! ## Stocked machines -/

namespace Machine

/-- An array is there. -/
theorem lt_of_elements {m : Machine} {r : Ref} {e : Elements} (h : (m.objectAt r).elements = some e) :
    r.index < m.heap.size := by
  refine Nat.lt_of_not_le fun hle => ?_
  rw [objectAt, Array.getD_eq_getD_getElem?, Array.getElem?_eq_none hle] at h
  cases h

/-- A reference may be an element of the arrays of a class, by the classes of a machine. -/
structure Admits (f m : Machine) (array : ClassId) (v : Ref) : Prop where
  there : array.index < m.classes.size
  valid : v.index < m.heap.size
  fits : ∃ k, (f.classAt array).component = some k ∧ f.isAssignable k (m.classOf v) = true

/-- Arrays hold what their components admit. What the machine makes arrays of is what it is taken for: mirrors are of the
class of mirrors, and strings of that of strings. -/
structure Stocked (f m : Machine) : Prop where
  held : ∀ r refs, (m.objectAt r).elements = some (.refs refs) → ∀ v, some v ∈ refs → f.Admits m (m.classOf r) v
  mirrors : ∀ c r, (m.classAt c).mirror = some r → ∃ d, m.Refers r d ∧ m.Knows "java/lang/Class" d
  classClass : ∀ c, m.classClass = some c → m.Knows "java/lang/Class" c
  stringClass : ∀ c, m.stringClass = some c → m.Knows "java/lang/String" c
  listed : ∀ l, ∀ e ∈ (m.loaderAt l).classes, e.2.index < m.classes.size
  loaders : 0 < m.loaders.size

/-- The names of classes that the machine itself makes arrays of. -/
def filled : List String := ["java/lang/Class", "java/lang/String", "java/lang/reflect/Field"]

/-- The classes of a machine can judge what arrays hold, also those that the machine itself makes. -/
structure Judges (f : Machine) : Prop where
  rooted : f.Rooted
  checked : f.unchecked = false
  trans : ∀ c d e, c.index < f.classes.size → d.index < f.classes.size → e.index < f.classes.size →
    f.isAssignable c d = true → f.isAssignable d e = true → f.isAssignable c e = true
  named : ∀ n ∈ filled, ∀ c, f.Knows n c →
    (f.classAt c).name = n ∧ (f.classAt c).loader = 0 ∧ (f.classAt c).primitive = none
  arrays : ∀ n ∈ filled, ∀ c d, f.Knows ("[L" ++ n ++ ";") c → f.Knows n d →
    ∃ k, (f.classAt c).component = some k ∧ f.isAssignable k d = true

/-- The classes of a later machine can judge what arrays hold, and they hold what they may. -/
def Judged (m : Machine) : Prop := ∃ f : Machine, f.Judges ∧ Persists m f ∧ f.Stocked m

variable {f m m' : Machine} {array : ClassId} {v : Ref}

theorem Admits.mono (h : f.Admits m array v) (hc : Persists m m') : f.Admits m' array v where
  there := Nat.lt_of_lt_of_le h.there hc.size
  valid := Nat.lt_of_lt_of_le h.valid hc.heap
  fits := by
    rw [hc.owners v h.valid]
    exact h.fits

/-- A reference whose class passes the test of an array now is admitted. -/
theorem Judges.admits (hf : f.Judges) (hc : Persists m f) {k : ClassId} (hk : (m.classAt array).component = some k)
    (hv : v.index < m.heap.size) (h : m.isAssignable k (m.classOf v) = true) : f.Admits m array v := by
  have harray : array.index < m.classes.size := lt_of_classAt (P := fun x => x.component = some k) hk nofun
  have hcomponent := hc.component hk
  have hvalid : k.index < m.classes.size := Nat.lt_trans (hf.rooted.component array k hcomponent) harray
  refine ⟨harray, hv, k, hcomponent, ?_⟩
  rw [hc.isAssignable hf.rooted hvalid (valid_of_isAssignable hvalid h)]
  exact h

/-- What arrays of a class hold may be an element of arrays whose component the first one's is assignable to. -/
theorem Admits.widen (h : f.Admits m array v) (hf : f.Judges) (hc : Persists m f) {other k d : ClassId}
    (hd : (m.classAt array).component = some d) (hk : (m.classAt other).component = some k)
    (hkd : m.isAssignable k d = true) : f.Admits m other v := by
  have there {x y : ClassId} (hx : (m.classAt x).component = some y) : x.index < m.classes.size :=
    lt_of_classAt (P := fun x => x.component = some y) hx nofun
  have valid {x y : ClassId} (hx : (m.classAt x).component = some y) : y.index < m.classes.size :=
    Nat.lt_trans (hf.rooted.component x y (hc.component hx)) (there hx)
  obtain ⟨d', hd', hv⟩ := h.fits
  obtain rfl : d = d' := Option.some.inj ((hc.component hd).symm.trans hd')
  have hkd : f.isAssignable k d = true := by rwa [hc.isAssignable hf.rooted (valid hk) (valid hd)]
  have lt {c : ClassId} (hc' : c.index < m.classes.size) := Nat.lt_of_lt_of_le hc' hc.size
  have hclass := valid_of_isAssignable (lt (valid hd)) hv
  exact ⟨there hk, h.valid, k, hc.component hk, hf.trans k d _ (lt (valid hk)) (lt (valid hd)) hclass hkd hv⟩

/-- What is made of a class that the machine itself makes arrays of is admitted to such an array. -/
theorem Judges.fills (hf : f.Judges) (hc : Persists m f) (hm : f.Stocked m) {n : String} (hn : n ∈ filled)
    (harray : m.Knows ("[L" ++ n ++ ";") array) {c : ClassId} (hv : m.Refers v c) (hclass : m.Knows n c) :
    f.Admits m array v :=
  ⟨hm.listed 0 _ harray, hv.valid, hv.owner ▸ hf.arrays n hn _ _ (hc.knows harray) (hc.knows hclass)⟩

/-- A machine with the same objects stays stocked, if what is new of its classes and loaders is as it should be. -/
theorem Stocked.onward (hm : f.Stocked m) (hc : Persists m m') (heap : m'.heap = m.heap)
    (mirrors : ∀ c r, (m'.classAt c).mirror = some r →
      (m.classAt c).mirror = some r ∨ ∃ d, m.Refers r d ∧ m.Knows "java/lang/Class" d)
    (classClass : ∀ c, m'.classClass = some c → m.classClass = some c ∨ m.Knows "java/lang/Class" c)
    (stringClass : ∀ c, m'.stringClass = some c → m.stringClass = some c ∨ m.Knows "java/lang/String" c)
    (listed : ∀ l, ∀ e ∈ (m'.loaderAt l).classes, e ∈ (m.loaderAt l).classes ∨ e.2.index < m'.classes.size) :
    f.Stocked m' where
  held r refs hr v hv := by
    have hobject : m'.objectAt r = m.objectAt r := by rw [objectAt, heap, objectAt]
    rw [hobject] at hr
    rw [classOf, hobject]
    exact (hm.held r refs hr v hv).mono hc
  mirrors c r hr := by
    obtain ⟨d, hd, hknown⟩ := (mirrors c r hr).elim (hm.mirrors c r) id
    exact ⟨d, hc.refers hd, hc.knows hknown⟩
  classClass c h := hc.knows ((classClass c h).elim (hm.classClass c) id)
  stringClass c h := hc.knows ((stringClass c h).elim (hm.stringClass c) id)
  listed l e he := (listed l e he).elim (fun h => Nat.lt_of_lt_of_le (hm.listed l e h) hc.size) id
  loaders := Nat.lt_of_lt_of_le hm.loaders hc.loaders

end Machine

/-- A change that leaves a machine stocked, if its classes are those of the machine that judges. -/
structure Stocks (f a b : Machine) : Prop where
  persists : Persists a b
  stocked : f.Judges → Persists b f → f.Stocked a → f.Stocked b

namespace Stocks

open Machine

variable {f a b c m : Machine}

theorem refl (m : Machine) : Stocks f m m := ⟨.refl m, fun _ _ => id⟩

theorem trans (h : Stocks f a b) (h' : Stocks f b c) : Stocks f a c :=
  ⟨h.persists.trans h'.persists, fun hf hc ha => h'.stocked hf hc (h.stocked hf (h'.persists.trans hc) ha)⟩

/-- A change that leaves objects, loaders and the cores of classes alone, and makes no mirrors. -/
theorem ofSame (cores : ∀ c, (b.classAt c).core = (a.classAt c).core) (classes : b.classes.size = a.classes.size)
    (mirrors : ∀ c, (b.classAt c).mirror = (a.classAt c).mirror) (loaders : b.loaders = a.loaders) (heap : b.heap = a.heap)
    (classClass : b.classClass = a.classClass) (stringClass : b.stringClass = a.stringClass)
    (unchecked : a.unchecked = true → b.unchecked = true) : Stocks f a b := by
  have hc : Persists a b := .ofSame cores classes loaders heap unchecked
  refine ⟨hc, fun _ _ ha => ha.onward hc heap (fun c r hr => ?_) (fun c h => ?_) (fun c h => ?_) fun l e he => ?_⟩
  · exact .inl (mirrors c ▸ hr)
  · exact .inl (classClass ▸ h)
  · exact .inl (stringClass ▸ h)
  · rw [loaderAt, loaders] at he
    exact .inl he

/-- A change of the heap in which arrays hold what is admitted. -/
theorem ofHeap {heap : Array Object} (size : m.heap.size ≤ heap.size)
    (owners : ∀ r, r.index < m.heap.size → { m with heap }.classOf r = m.classOf r)
    (held : f.Judges → Persists m f → f.Stocked m → ∀ r refs, ({ m with heap }.objectAt r).elements = some (.refs refs) →
      ∀ v, some v ∈ refs → f.Admits { m with heap } ({ m with heap }.classOf r) v) : Stocks f m { m with heap } := by
  have hc : Persists m { m with heap } :=
    .ofSucceeds (.of_same rfl rfl) size owners rfl
  refine ⟨hc, fun hf hcf ha => ?_⟩
  refine { ha with held := held hf (hc.trans hcf) ha, mirrors := fun c r hr => ?_ }
  obtain ⟨d, hd, hknown⟩ := ha.mirrors c r hr
  exact ⟨d, hc.refers hd, hknown⟩

/-- A new object that holds what is admitted. -/
theorem allocate {o : Object} (h : f.Judges → Persists m f → f.Stocked m → ∀ refs, o.elements = some (.refs refs) →
      ∀ v, some v ∈ refs → f.Admits m o.owner v) : Stocks f m { m with heap := m.heap.push o } := by
  have hold {r : Ref} (hr : r.index < m.heap.size) : { m with heap := m.heap.push o }.objectAt r = m.objectAt r := by
    simp only [objectAt, Array.getD_eq_getD_getElem?, Array.getElem?_push_lt hr, Array.getElem?_eq_getElem hr]
  have size : m.heap.size ≤ (m.heap.push o).size := by simp
  have owners (r : Ref) (hr : r.index < m.heap.size) :
      { m with heap := m.heap.push o }.classOf r = m.classOf r := by rw [classOf, hold hr, ← classOf]
  have hc : Persists m { m with heap := m.heap.push o } := .ofSucceeds (.of_same rfl rfl) size owners rfl
  refine ofHeap size owners fun hf hcf ha r refs hr v hv => ?_
  rcases Nat.lt_trichotomy r.index m.heap.size with hlt | heq | hgt
  · rw [hold hlt] at hr
    rw [owners r hlt]
    exact (ha.held r refs hr v hv).mono hc
  · have hnew : { m with heap := m.heap.push o }.objectAt r = o := by simp [objectAt, Array.getD, heq]
    rw [classOf, hnew]
    exact (h hf hcf ha refs (hnew ▸ hr) v hv).mono hc
  · have hnone : { m with heap := m.heap.push o }.objectAt r = default := by
      rw [objectAt, Array.getD, dif_neg (by rw [Array.size_push]; omega)]
    rw [hnone] at hr
    cases hr

theorem persists_updateObject {r : Ref} {change : Object → Object}
    (owner : (change (m.objectAt r)).owner = (m.objectAt r).owner) :
    Persists m { m with heap := m.heap.modify r.index change } := by
  refine .ofSucceeds (.of_same rfl rfl) (by simp) (fun x _ => ?_) rfl
  rw [classOf, objectAt_modify]
  split
  · next hx =>
    obtain ⟨rfl, -⟩ := hx
    exact owner
  · rfl

/-- A change of an object of the same class, whose new elements are admitted. -/
theorem updateObject {r : Ref} {change : Object → Object} (owner : (change (m.objectAt r)).owner = (m.objectAt r).owner)
    (h : f.Judges → Persists m f → f.Stocked m → ∀ refs, (change (m.objectAt r)).elements = some (.refs refs) →
      (m.objectAt r).elements = some (.refs refs) ∨ ∀ v, some v ∈ refs → f.Admits m (m.classOf r) v) :
    Stocks f m { m with heap := m.heap.modify r.index change } := by
  have hc : Persists m { m with heap := m.heap.modify r.index change } := persists_updateObject owner
  refine ofHeap hc.heap hc.owners fun hf hcf ha x refs hx v hv => ?_
  have hvalid : x.index < m.heap.size := by
    have hx' := lt_of_elements hx
    simpa using hx'
  rw [hc.owners x hvalid]
  rw [objectAt_modify] at hx
  split at hx
  · next hr =>
    obtain ⟨rfl, -⟩ := hr
    rcases h hf hcf ha refs hx with hsame | hnew
    · exact (ha.held r refs hsame v hv).mono hc
    · exact (hnew v hv).mono hc
  · exact (ha.held x refs hx v hv).mono hc

/-- Loaders that learn of classes that are there. -/
theorem ofLoaders {loaders : Array Loader} (size : m.loaders.size ≤ loaders.size)
    (lists : ∀ l, (m.loaderAt l).classes ⊆ ({ m with loaders }.loaderAt l).classes)
    (listed : f.Stocked m → ∀ l, ∀ e ∈ ({ m with loaders }.loaderAt l).classes, e.2.index < m.classes.size) :
    Stocks f m { m with loaders } := by
  have hc : Persists m { m with loaders } :=
    ⟨Nat.le_refl _, fun _ _ => rfl, size, lists, Nat.le_refl _, fun _ _ => rfl, id⟩
  exact ⟨hc, fun _ _ ha => ha.onward hc rfl (fun _ _ => .inl) (fun _ => .inl) (fun _ => .inl) fun l e he =>
    .inr (listed ha l e he)⟩

/-- A new loader that knows nothing. -/
theorem newLoader {x : Loader} (known : x.classes = []) : Stocks f m { m with loaders := m.loaders.push x } := by
  have hknown (l : Nat) : ({ m with loaders := m.loaders.push x }.loaderAt l).classes = (m.loaderAt l).classes := by
    simp only [loaderAt, Array.getD_eq_getD_getElem?, Array.getElem?_push]
    split
    · next hl => simp [hl, known, show (default : Loader).classes = [] from rfl]
    · rfl
  refine ofLoaders (by simp) (fun l => hknown l ▸ List.Subset.refl _) fun ha l e he => ?_
  rw [hknown] at he
  exact ha.listed l e he

end Stocks

end JavaMachine
