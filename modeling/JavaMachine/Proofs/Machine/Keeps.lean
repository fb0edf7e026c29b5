import JavaMachine.Proofs.Frames.Shape
import JavaMachine.Proofs.Machine.Stocks

/-!
Actions that keep a relation between the machine before and the machine after, whether they halt or not.
The relations of interest look at the classes and their states, at loaders, at the journal and at frames; a change
of anything else is minor, and a `Tolerant` relation allows it. A `Touching` relation allows what is done to the
innermost frame too. Main results: the ways to build actions keep a relation that their parts keep, and so do all
actions that touch the heap, the streams, and the contents of the innermost frame only.
-/

namespace JavaMachine

/-- What a frame is for the order of initialization. -/
inductive Mark where
  | barrier
  | shim
  | plain
  | waiting (c : ClassId)
  | initializer (c : ClassId)
deriving DecidableEq, Repr

/-- The mark of a frame: its kind, and for an initializer its class and whether it has started. -/
def Frame.mark : Frame → Mark
  | .barrier => .barrier
  | .shim _ => .shim
  | .active a =>
    if a.method.isClinit then
      if 0 ≤ a.pc then .initializer a.method.owner else .waiting a.method.owner
    else .plain

/-- The marks of the frame stack. -/
def Machine.marks (m : Machine) : List Mark := m.frames.map Frame.mark

/-- A change of nothing that initialization depends on. -/
structure Quiet (a b : Machine) : Prop where
  current : b.current = a.current
  journal : b.journal = a.journal
  marks : b.marks = a.marks
  classes : b.classes.map Class.outline = a.classes.map Class.outline

/-- A change of the heap, of storage or of the streams. -/
theorem Quiet.ofSame {a b : Machine} (current : b.current = a.current) (journal : b.journal = a.journal)
    (frames : b.frames = a.frames) (classes : b.classes = a.classes) : Quiet a b :=
  ⟨current, journal, by simp [Machine.marks, frames], by rw [classes]⟩

theorem Quiet.refl (m : Machine) : Quiet m m := ⟨rfl, rfl, rfl, rfl⟩

theorem Quiet.trans {a b c : Machine} (h : Quiet a b) (h' : Quiet b c) : Quiet a c :=
  ⟨h'.current.trans h.current, h'.journal.trans h.journal, h'.marks.trans h.marks, h'.classes.trans h.classes⟩

/-- A change of nothing that initialization, classes or loaders depend on. -/
structure Still (a b : Machine) : Prop extends Quiet a b, Steady a b

/-- A still change that leaves storage, the frames, exceptions on their way and what pools were resolved to alone
too. -/
structure Slight (a b : Machine) : Prop extends Still a b where
  persists : Persists a b
  storage : b.storage = a.storage
  frames : b.frames = a.frames
  pending : b.pending = a.pending
  overflowing : b.overflowing = a.overflowing
  resolved : ∀ c i, ((a.classAt c).pool.getD i .empty).Resolved →
    (b.classAt c).pool.getD i .empty = (a.classAt c).pool.getD i .empty

/-- A slight change that leaves arrays with what they may hold. -/
structure Minor (a b : Machine) : Prop extends Slight a b where
  stocked : ∀ f : Machine, f.Judges → Persists b f → f.Stocked a → f.Stocked b

/-- A machine without storage, the pool of strings, threads, streams and counters. -/
def Machine.essence (m : Machine) : Machine :=
  { m with
    storage := {}, interned := {}, threads := #[], waiting := [], stdout := #[], stderr := #[], stdin := []
    classesLoaded := 0, classBytes := 0, started := false, systemLoader := none, memory := {}
    threadHalt := none, hashSeed := 0 }

theorem Still.ofSame {a b : Machine} (h : b.essence = a.essence) : Still a b := by
  have part {α : Type} (f : Machine → α) : f b.essence = f a.essence := congrArg f h
  exact ⟨.ofSame (part Machine.current) (part Machine.journal) (part Machine.frames) (part Machine.classes),
    .ofSame (part Machine.journal ▸ List.suffix_refl _) (part Machine.options) (part Machine.primitives)
      (part Machine.stringClass) (part Machine.charArrayClass) (part Machine.classes) (part Machine.heap)
      (part Machine.loaders)⟩

namespace Slight

variable {a b c : Machine}

theorem ofStill (h : Still a b) (persists : Persists a b) (storage : b.storage = a.storage) (frames : b.frames = a.frames)
    (pending : b.pending = a.pending) (overflowing : b.overflowing = a.overflowing) (classes : b.classes = a.classes) :
    Slight a b := by
  refine ⟨h, persists, storage, frames, pending, overflowing, fun c i _ => ?_⟩
  rw [Machine.classAt, classes, Machine.classAt]

theorem trans (h : Slight a b) (h' : Slight b c) : Slight a c where
  toStill := ⟨h.toQuiet.trans h'.toQuiet, h.toSteady.trans h'.toSteady⟩
  persists := h.persists.trans h'.persists
  storage := h'.storage.trans h.storage
  frames := h'.frames.trans h.frames
  pending := h'.pending.trans h.pending
  overflowing := h'.overflowing.trans h.overflowing
  resolved k i hr := by
    have hb := h.resolved k i hr
    rw [h'.resolved k i (hb ▸ hr), hb]

/-- The class of mirrors matters to mirrors only. -/
theorem setClassClass (m : Machine) (classClass : Option ClassId) : Slight m { m with classClass } :=
  .ofStill ⟨.ofSame rfl rfl rfl rfl, .ofSame (List.suffix_refl _) rfl rfl rfl rfl rfl rfl rfl⟩
    (.ofSame (fun _ => rfl) rfl rfl rfl id) rfl rfl rfl rfl rfl

end Slight

namespace Minor

variable {a b c : Machine}

theorem ofStocks (h : Slight a b) (hs : ∀ f, Stocks f a b) : Minor a b := ⟨h, fun f => (hs f).stocked⟩

theorem stocks (h : Minor a b) (f : Machine) : Stocks f a b := ⟨h.persists, h.stocked f⟩

theorem ofSame (h : b.essence = a.essence) (storage : b.storage = a.storage) : Minor a b := by
  have part {α : Type} (f : Machine → α) : f b.essence = f a.essence := congrArg f h
  have hclasses : b.classes = a.classes := part Machine.classes
  have hclass (c : ClassId) : b.classAt c = a.classAt c := by rw [Machine.classAt, hclasses, Machine.classAt]
  have hstocks (f : Machine) : Stocks f a b := by
    refine .ofSame (fun c => by rw [hclass]) (congrArg Array.size hclasses) (fun c => by rw [hclass]) (part Machine.loaders)
      (part Machine.heap) (part Machine.classClass) (part Machine.stringClass) fun ha => ?_
    exact (part Machine.unchecked).trans ha
  refine .ofStocks (.ofStill (.ofSame h) (hstocks a).persists storage ?_ ?_ ?_ hclasses) hstocks
  · exact part Machine.frames
  · exact part Machine.pending
  · exact part Machine.overflowing

theorem refl (m : Machine) : Minor m m := .ofSame rfl rfl

theorem trans (h : Minor a b) (h' : Minor b c) : Minor a c :=
  .ofStocks (h.toSlight.trans h'.toSlight) fun f => (h.stocks f).trans (h'.stocks f)

end Minor

/-- How an action ends. -/
inductive Ending where
  | done
  | halted

/-- A relation between machines, one for each ending, that orders them and allows minor changes. -/
class Tolerant (R : Ending → Machine → Machine → Prop) : Prop where
  minor : ∀ {e a b}, Minor a b → R e a b
  trans : ∀ {e a b c}, R .done a b → R e b c → R e a c
  calm : ∀ {e a b c}, R e a b → Minor b c → R e a c

/-- A relation that allows changes of storage too. -/
class Lenient (R : Ending → Machine → Machine → Prop) : Prop extends Tolerant R where
  stored : ∀ {e m} storage, R e m { m with storage }

/-- A relation that does not look at what pools were resolved to. -/
class Forgetful (R : Ending → Machine → Machine → Prop) : Prop extends Lenient R where
  setEntry : ∀ {e m} (c : ClassId) (index : Nat) (entry : PoolEntry), R e m (m.setEntry c index entry)

/-- A relation that does not look at what arrays hold. -/
class Careless (R : Ending → Machine → Machine → Prop) : Prop extends Tolerant R where
  slight : ∀ {e a b}, Slight a b → R e a b

/-- A lenient relation that allows what is done to the innermost frame. -/
class Touching (R : Ending → Machine → Machine → Prop) : Prop extends Lenient R where
  touch : ∀ {e m frames}, Retouched m.frames frames → R e m { m with frames }

/-- A relation that allows frames to become others with the same marks, and exceptions to be on their way or not. -/
class Marking (R : Ending → Machine → Machine → Prop) : Prop extends Lenient R where
  mark : ∀ {e m frames} pending overflowing, frames.map Frame.mark = m.marks →
    R e m { m with frames, pending, overflowing }
  marked : ∀ {e a b frames} pending overflowing, R e a b → frames.map Frame.mark = b.marks →
    R e a { b with frames, pending, overflowing }

/-- A relation that allows all still changes: it looks neither at what frames hold nor at exceptions on their way. -/
class Heedless (R : Ending → Machine → Machine → Prop) : Prop extends Lenient R where
  still : ∀ {e a b}, Still a b → R e a b
  settle : ∀ {e a b c}, R e a b → Still b c → R e a c

instance {R : Ending → Machine → Machine → Prop} [Heedless R] : Careless R where
  slight h := Heedless.still h.toStill

instance : Tolerant fun _ => Minor := ⟨id, Minor.trans, Minor.trans⟩

instance : Careless fun _ => Slight where
  minor := Minor.toSlight
  trans := Slight.trans
  calm h h' := h.trans h'.toSlight
  slight := id

namespace M

/-- What holds after an action: `Q` of its value and the machine, or `H` of the machine if it halts. -/
def After {α : Type} (act : M α) (m : Machine) (Q : α → Machine → Prop) (H : Machine → Prop) : Prop :=
  match act m with
  | .ok a m => Q a m
  | .error _ m => H m

variable {α β : Type}

theorem After.mono {act : M α} {m : Machine} {Q Q' : α → Machine → Prop} {H H' : Machine → Prop}
    (h : After act m Q H) (hq : ∀ a m', Q a m' → Q' a m') (hh : ∀ m', H m' → H' m') :
    After act m Q' H' := by
  unfold After at *
  cases hm : act m with
  | ok a m' =>
    rw [hm] at h
    exact hq a m' h
  | error e m' =>
    rw [hm] at h
    exact hh m' h

theorem After.of_ok {act : M α} {m m' : Machine} {a : α} {Q : α → Machine → Prop} {H : Machine → Prop}
    (h : After act m Q H) (hok : act m = .ok a m') : Q a m' := by
  rw [After, hok] at h
  exact h

theorem bind_apply (act : M α) (f : α → M β) (m : Machine) :
    (act >>= f) m =
      match act m with
      | .ok a m' => f a m'
      | .error e m' => .error e m' := by
  change EStateM.bind act f m = _
  unfold EStateM.bind
  cases act m <;> rfl

/-- What holds after two actions holds after the second wherever the first may end. -/
@[simp]
theorem after_bind_iff {act : M α} {f : α → M β} {m : Machine} {Q : β → Machine → Prop}
    {H : Machine → Prop} :
    After (act >>= f) m Q H ↔ After act m (fun a m' => After (f a) m' Q H) H := by
  unfold After
  rw [bind_apply]
  cases act m <;> rfl

theorem After.bind {act : M α} {f : α → M β} {m : Machine} {P : α → Machine → Prop}
    {Q : β → Machine → Prop} {H : Machine → Prop} (h : After act m P H)
    (hf : ∀ a m', P a m' → After (f a) m' Q H) : After (act >>= f) m Q H :=
  after_bind_iff.2 (h.mono hf fun _ => id)

@[simp]
theorem after_pure {a : α} {m : Machine} {Q : α → Machine → Prop} {H : Machine → Prop} :
    After (pure a) m Q H ↔ Q a m := Iff.rfl

@[simp]
theorem after_get {m : Machine} {Q : Machine → Machine → Prop} {H : Machine → Prop} :
    After get m Q H ↔ Q m m := Iff.rfl

@[simp]
theorem after_modify {f : Machine → Machine} {m : Machine} {Q : Unit → Machine → Prop} {H : Machine → Prop} :
    After (modify f) m Q H ↔ Q () (f m) := Iff.rfl

@[simp]
theorem after_classAt {c : ClassId} {m : Machine} {Q : Class → Machine → Prop} {H : Machine → Prop} :
    After (classAt c) m Q H ↔ Q (m.classAt c) m := Iff.rfl

@[simp]
theorem after_objectAt {r : Ref} {m : Machine} {Q : Object → Machine → Prop} {H : Machine → Prop} :
    After (objectAt r) m Q H ↔ Q (m.objectAt r) m := Iff.rfl

@[simp]
theorem after_classOf {r : Ref} {m : Machine} {Q : Class → Machine → Prop} {H : Machine → Prop} :
    After (classOf r) m Q H ↔ Q (m.classAt (m.classOf r)) m := Iff.rfl

@[simp]
theorem after_some {a : α} {m : Machine} {Q : α → Machine → Prop} {H : Machine → Prop} :
    After (some! (some a)) m Q H ↔ Q a m := Iff.rfl

theorem after_present (r : Ref) (m : Machine) :
    After (present r) m (fun o m' => m' = m ∧ r.index < m.heap.size ∧ o = m.objectAt r) (· = m) := by
  rw [present, after_bind_iff, after_get]
  cases ho : m.heap[r.index]? with
  | none => rfl
  | some o =>
    obtain ⟨hr, rfl⟩ := Array.getElem?_eq_some_iff.1 ho
    exact ⟨rfl, hr, by simp [Machine.objectAt, hr]⟩

/-- Where there is no reason to stop, the machine goes on as it is. -/
theorem after_haltFor (h : Option Halt) (m : Machine) : After (haltFor h) m (fun _ m' => m' = m ∧ h = none) (· = m) := by
  cases h with
  | none => exact ⟨rfl, rfl⟩
  | some h => rfl

theorem after_assignable (target source : ClassId) (m : Machine) :
    After (assignable target source) m
      (fun fits m' => m' = m ∧ m.testHalt? target source = none ∧ fits = m.isAssignable target source) (· = m) := by
  rw [assignable, after_bind_iff, after_get, after_bind_iff]
  refine (after_haltFor _ m).mono ?_ fun _ => id
  rintro _ _ ⟨rfl, hnone⟩
  exact ⟨rfl, hnone, rfl⟩

theorem after_isInstance (r : Ref) (c : ClassId) (m : Machine) :
    After (isInstance r c) m
      (fun fits m' => m' = m ∧ m.testHalt? c (m.classOf r) = none ∧ fits = m.isAssignable c (m.classOf r)) (· = m) := by
  rw [isInstance, after_bind_iff, after_get]
  exact after_assignable c _ m

theorem after_isArrayClass (c : ClassId) (m : Machine) :
    After (isArrayClass c) m (fun isArray m' => m' = m ∧ m.nameHalt? c = none ∧ isArray = (m.classAt c).isArray) (· = m) := by
  rw [isArrayClass, after_bind_iff, after_get, after_bind_iff]
  refine (after_haltFor _ m).mono ?_ fun _ => id
  rintro _ _ ⟨rfl, hnone⟩
  exact ⟨rfl, hnone, rfl⟩

@[simp]
theorem after_topFrame {m : Machine} {Q : Option Frame → Machine → Prop} {H : Machine → Prop} :
    After topFrame m Q H ↔ Q m.frames.head? m := Iff.rfl

/-- An action keeps a relation if it holds between the machine before and the machine after. -/
def Keeps {α : Type} (R : Ending → Machine → Machine → Prop) (act : M α) : Prop :=
  ∀ m, After act m (fun _ => R .done m) (R .halted m)

variable {R : Ending → Machine → Machine → Prop}

theorem Keeps.mono {R' : Ending → Machine → Machine → Prop} (hR : ∀ {e a b}, R e a b → R' e a b)
    {act : M α} (h : Keeps R act) : Keeps R' act := fun m => (h m).mono (fun _ _ => hR) fun _ => hR

/-! ## Building actions -/

theorem keeps_modify {f : Machine → Machine} (h : ∀ m, R .done m (f m)) : Keeps R (modify f : M Unit) := h

/-- What holds after an action and a last change, which is made however the action ends. -/
theorem after_ensuring_iff {act : M α} {last : Machine → Machine} {m : Machine} {Q : α → Machine → Prop}
    {H : Machine → Prop} :
    After (ensuring act last) m Q H ↔ After act m (fun a m' => Q a (last m')) fun m' => H (last m') := by
  unfold After ensuring
  cases act m <;> rfl

/-- An action and a last change that the relation absorbs. -/
theorem keeps_ensuring_of {act : M α} (ha : Keeps R act) {last : Machine → Machine}
    (hl : ∀ {e a b}, R e a b → R e a (last b)) : Keeps R (ensuring act last) := fun m =>
  after_ensuring_iff.2 ((ha m).mono (fun _ _ => hl) fun _ => hl)

variable [Tolerant R]

/-- An action that only looks at the machine. -/
theorem keeps_of_same {act : M α} (h : ∀ m, After act m (fun _ m' => m' = m) (· = m)) : Keeps R act := by
  refine fun m => (h m).mono ?_ ?_
  · rintro _ _ rfl
    exact Tolerant.minor (.refl _)
  · rintro _ rfl
    exact Tolerant.minor (.refl _)

@[grind ←]
theorem keeps_pure {a : α} : Keeps R (pure a : M α) := keeps_of_same fun _ => rfl

@[grind ←]
theorem keeps_throw {h : Halt} : Keeps R (throw h : M α) := keeps_of_same fun _ => rfl

/-- An action that does well on a machine may be followed by one that does on every machine. -/
theorem After.bind_keeps {act : M α} {f : α → M β} {m : Machine} (ha : After act m (fun _ => R .done m) (R .halted m))
    (hf : ∀ a, Keeps R (f a)) : After (act >>= f) m (fun _ => R .done m) (R .halted m) := by
  refine ha.bind fun a m' h => ?_
  exact (hf a m').mono (fun _ _ => Tolerant.trans h) fun _ => Tolerant.trans h

/-- What comes after a minor change. -/
theorem After.bind_minor {act : M α} {f : α → M β} {m : Machine} {Q : β → Machine → Prop} {H : Machine → Prop}
    (ha : Keeps (fun _ => Minor) act) (hf : ∀ a m', Minor m m' → After (f a) m' Q H) (hh : ∀ m', Minor m m' → H m') :
    After (act >>= f) m Q H :=
  after_bind_iff.2 ((ha m).mono hf hh)

@[grind ←]
theorem keeps_bind {act : M α} {f : α → M β} (ha : Keeps R act) (hf : ∀ a, Keeps R (f a)) :
    Keeps R (act >>= f) := fun m => (ha m).bind_keeps hf

@[grind ←]
theorem keeps_get : Keeps R (get : M Machine) := keeps_of_same fun _ => rfl

theorem keeps_minor {f : Machine → Machine} (h : ∀ m, Minor m (f m)) : Keeps R (modify f : M Unit) :=
  keeps_modify fun m => Tolerant.minor (h m)

@[grind ←]
theorem keeps_mapM {f : α → M β} (h : ∀ a, Keeps R (f a)) {xs : List α} : Keeps R (xs.mapM f) := by
  induction xs with
  | nil =>
    rw [List.mapM_nil]
    exact keeps_pure
  | cons x xs ih =>
    rw [List.mapM_cons]
    exact keeps_bind (h x) fun _ => keeps_bind ih fun _ => keeps_pure

@[grind ←]
theorem keeps_map {act : M α} {f : α → β} (h : Keeps R act) : Keeps R (f <$> act) :=
  keeps_bind h fun _ => keeps_pure

/-! ## Actions that end otherwise -/

/-- What one relation allows, closed by another at most once. -/
def Closing (R S : Ending → Machine → Machine → Prop) (e : Ending) (a b : Machine) : Prop :=
  R e a b ∨ ∃ c, R .done a c ∧ S e c b

/-- An action keeps a relation up to its end, where it may be another. -/
abbrev Closes {α : Type} (R S : Ending → Machine → Machine → Prop) (act : M α) : Prop := Keeps (Closing R S) act

variable {S : Ending → Machine → Machine → Prop}

omit [Tolerant R] in
@[grind ←]
theorem Keeps.closes {act : M α} (h : Keeps R act) : Closes R S act := h.mono .inl

/-- An action may consist of nothing but its end. -/
theorem closes_at_once {act : M α} (h : Keeps S act) : Closes R S act :=
  h.mono fun hs => .inr ⟨_, Tolerant.minor (.refl _), hs⟩

theorem Closing.after {e : Ending} {a b c : Machine} (h : R .done a b) (hc : Closing R S e b c) : Closing R S e a c := by
  rcases hc with hr | ⟨x, hr, hs⟩
  · exact .inl (Tolerant.trans h hr)
  · exact .inr ⟨x, Tolerant.trans h hr, hs⟩

/-- An end that is no different is none. -/
theorem Closing.same {e : Ending} {a b : Machine} (h : Closing R R e a b) : R e a b := by
  rcases h with hr | ⟨x, hr, hs⟩
  · exact hr
  · exact Tolerant.trans hr hs

theorem After.then {act : M α} {f : α → M β} {m : Machine} (ha : After act m (fun _ => R .done m) (R .halted m))
    (hf : ∀ a, Closes R S (f a)) :
    After (act >>= f) m (fun _ => Closing R S .done m) (Closing R S .halted m) := by
  have hact : After act m (fun _ => R .done m) (Closing R S .halted m) := ha.mono (fun _ _ => id) fun _ => .inl
  refine hact.bind fun a m' h => ?_
  exact (hf a m').mono (fun _ _ => Closing.after h) fun _ => Closing.after h

@[grind ←]
theorem closes_bind {act : M α} {f : α → M β} (ha : Keeps R act) (hf : ∀ a, Closes R S (f a)) :
    Closes R S (act >>= f) := fun m => (ha m).then hf

/-- An action that tells by its value whether it is still open or has come to its end. -/
def Settles (R S : Ending → Machine → Machine → Prop) (act : M α) (isOpen : α → Prop) : Prop :=
  ∀ m, After act m (fun a m' => Closing R S .done m m' ∧ (isOpen a → R .done m m')) (Closing R S .halted m)

namespace Settles

variable {isOpen : α → Prop}

omit [Tolerant R] in
theorem of_keeps {act : M α} (h : Keeps R act) : Settles R S act isOpen :=
  fun m => (h m).mono (fun _ _ hr => ⟨.inl hr, fun _ => hr⟩) fun _ => .inl

omit [Tolerant R] in
theorem ended {act : M Unit} (h : Closes R S act) {a : α} (ha : ¬ isOpen a) :
    Settles R S (act >>= fun _ => pure a) isOpen :=
  fun m => (h m).bind fun _ _ hc => ⟨hc, fun hopen => absurd hopen ha⟩

theorem bind {act : M β} {f : β → M α} (ha : Keeps R act) (hf : ∀ b, Settles R S (f b) isOpen) :
    Settles R S (act >>= f) isOpen := by
  intro m
  have hact : After act m (fun _ => R .done m) (Closing R S .halted m) := (ha m).mono (fun _ _ => id) fun _ => .inl
  refine hact.bind fun b m' h => ?_
  refine (hf b m').mono (fun a m'' ⟨hc, hopen⟩ => ?_) fun _ => Closing.after h
  exact ⟨hc.after h, fun ho => Tolerant.trans h (hopen ho)⟩

/-- After the end nothing more is done. -/
theorem closes {act : M α} {f : α → M Unit} (ha : Settles R S act isOpen) (hf : ∀ a, isOpen a → Closes R S (f a))
    (hend : ∀ a, ¬ isOpen a → f a = pure ()) : Closes R S (act >>= f) := by
  intro m
  refine (ha m).bind fun a m' ⟨hclosed, hopen⟩ => ?_
  by_cases h : isOpen a
  · exact (hf a h m').mono (fun _ _ => Closing.after (hopen h)) fun _ => Closing.after (hopen h)
  · rw [hend a h]
    exact hclosed

/-- After the end there is no value, and nothing more is done. -/
theorem closes_some {act : M (Option α)} {f : Option α → M Unit} (ha : Settles R S act (·.isSome))
    (hf : ∀ a, Closes R S (f (some a))) (hnone : f none = pure ()) : Closes R S (act >>= f) := by
  refine ha.closes (fun r hr => ?_) fun r hr => ?_
  · obtain ⟨a, rfl⟩ := Option.isSome_iff_exists.1 hr
    exact hf a
  · rw [Bool.not_eq_true, Option.isSome_eq_false_iff, Option.isNone_iff_eq_none] at hr
    subst hr
    exact hnone

end Settles

/-! ## Building attempts -/

end M

/-- What holds after two attempts: the second is made only if the first has a value. -/
theorem Attempt.after_bind_iff {α β : Type} {act : Attempt α} {f : α → Attempt β} {m : Machine}
    {Q : Except Failure β → Machine → Prop} {H : Machine → Prop} :
    M.After (act >>= f).run m Q H ↔
      M.After act.run m (fun r m' =>
        match r with
        | .ok a => M.After (f a).run m' Q H
        | .error e => Q (.error e) m') H := by
  change M.After (act.run >>= ExceptT.bindCont f) m Q H ↔ _
  rw [M.after_bind_iff]
  constructor
  · refine fun h => h.mono (fun r m' hr => ?_) fun _ => id
    cases r <;> exact hr
  · refine fun h => h.mono (fun r m' hr => ?_) fun _ => id
    cases r <;> exact hr

/-- What holds after an attempt that is made up for if it fails. -/
theorem Attempt.after_tryCatch_iff {α : Type} {act : Attempt α} {f : Failure → Attempt α} {m : Machine}
    {Q : Except Failure α → Machine → Prop} {H : Machine → Prop} :
    M.After (tryCatch act f).run m Q H ↔
      M.After act.run m (fun r m' =>
        match r with
        | .ok a => Q (.ok a) m'
        | .error e => M.After (f e).run m' Q H) H := by
  change M.After (act.run >>= _) m Q H ↔ _
  rw [M.after_bind_iff]
  constructor
  · refine fun h => h.mono (fun r m' hr => ?_) fun _ => id
    cases r <;> exact hr
  · refine fun h => h.mono (fun r m' hr => ?_) fun _ => id
    cases r <;> exact hr

theorem Attempt.after_lift_iff {α : Type} {act : M α} {m : Machine} {Q : Except Failure α → Machine → Prop}
    {H : Machine → Prop} :
    M.After (liftM act : Attempt α).run m Q H ↔ M.After act m (fun a => Q (.ok a)) H := by
  change M.After (act >>= fun a => pure (.ok a)) m Q H ↔ _
  rw [M.after_bind_iff]
  rfl

theorem Attempt.after_modifyGet_iff {α : Type} {f : Machine → α × Machine} {m : Machine}
    {Q : Except Failure α → Machine → Prop} {H : Machine → Prop} :
    M.After (modifyGet f : Attempt α).run m Q H ↔ Q (.ok (f m).1) (f m).2 := Iff.rfl

theorem Attempt.after_get_iff {m : Machine} {Q : Except Failure Machine → Machine → Prop}
    {H : Machine → Prop} : M.After (get : Attempt Machine).run m Q H ↔ Q (.ok m) m := Iff.rfl

theorem Attempt.after_failIf_iff {b : Bool} {name message : String} {m : Machine}
    {Q : Except Failure Unit → Machine → Prop} {H : Machine → Prop} :
    M.After (failIf b name message).run m Q H ↔
      Q (if b then .error (.java name message none) else .ok ()) m := by
  cases b <;> exact Iff.rfl

/-- An attempt keeps a relation, whether it fails or not. -/
def Attempt.Keeps {α : Type} (R : Ending → Machine → Machine → Prop) (act : Attempt α) : Prop :=
  M.Keeps R act.run

namespace Attempt

variable {α β : Type} {R : Ending → Machine → Machine → Prop}

@[grind ←]
theorem Keeps.run {act : Attempt α} (h : Keeps R act) : M.Keeps R act.run := h

@[grind ←]
theorem keeps_mk {act : M (Except Failure α)} (h : M.Keeps R act) : Keeps R (ExceptT.mk act) := h

variable [Tolerant R]

@[grind ←]
theorem keeps_lift {act : M α} (h : M.Keeps R act) : Keeps R (liftM act : Attempt α) :=
  M.keeps_bind h fun _ => M.keeps_pure

@[grind ←]
theorem keeps_pure {a : α} : Keeps R (pure a : Attempt α) := M.keeps_pure (a := Except.ok a)

@[grind ←]
theorem keeps_throw {f : Failure} : Keeps R (throw f : Attempt α) := M.keeps_pure (a := Except.error f)

@[grind ←]
theorem keeps_bind {act : Attempt α} {f : α → Attempt β} (ha : Keeps R act) (hf : ∀ a, Keeps R (f a)) :
    Keeps R (act >>= f) := by
  refine M.keeps_bind ha fun r => ?_
  cases r with
  | ok a => exact hf a
  | error e => exact M.keeps_pure

@[grind ←]
theorem keeps_map {act : Attempt α} {f : α → β} (h : Keeps R act) : Keeps R (f <$> act) :=
  keeps_bind h fun _ => keeps_pure

@[grind ←]
theorem keeps_mapM {f : α → Attempt β} (h : ∀ a, Keeps R (f a)) {xs : List α} : Keeps R (xs.mapM f) := by
  induction xs with
  | nil =>
    rw [List.mapM_nil]
    exact keeps_pure
  | cons x xs ih =>
    rw [List.mapM_cons]
    exact keeps_bind (h x) fun _ => keeps_bind ih fun _ => keeps_pure

@[grind ←]
theorem keeps_discard {act : Attempt α} (h : Keeps R act) : Keeps R (discard act) := keeps_map h

@[grind ←]
theorem keeps_get : Keeps R (get : Attempt Machine) := keeps_lift M.keeps_get

theorem keeps_modify {f : Machine → Machine} (h : ∀ m, R .done m (f m)) : Keeps R (modify f : Attempt Unit) :=
  keeps_lift (M.keeps_modify h)

theorem keeps_minor {f : Machine → Machine} (h : ∀ m, Minor m (f m)) : Keeps R (modify f : Attempt Unit) :=
  keeps_modify fun m => Tolerant.minor (h m)

theorem keeps_modifyGet {f : Machine → α × Machine} (h : ∀ m, R .done m (f m).2) :
    Keeps R (modifyGet f : Attempt α) := by
  have hm : M.Keeps R (modifyGet f : M α) := h
  exact M.keeps_bind hm fun _ => M.keeps_pure

@[grind ←]
theorem keeps_tryCatch {act : Attempt α} {f : Failure → Attempt α} (ha : Keeps R act)
    (hf : ∀ e, Keeps R (f e)) : Keeps R (tryCatch act f) := by
  refine M.keeps_bind ha fun r => ?_
  cases r with
  | ok a => exact M.keeps_pure
  | error e => exact hf e

@[grind ←]
theorem keeps_fail {name message : String} : Keeps R (fail name message : Attempt α) := keeps_throw

@[grind ←]
theorem keeps_failIf {b : Bool} {name message : String} : Keeps R (failIf b name message) := by
  unfold failIf
  split
  · exact keeps_fail
  · exact keeps_pure

@[grind ←]
theorem keeps_attemptLift {act : M α} (h : M.Keeps R act) : Keeps R (lift act) := keeps_lift h

@[grind ←]
theorem keeps_inContext {context : String} {act : Attempt α} (h : Keeps R act) :
    Keeps R (inContext context act) := keeps_tryCatch h fun _ => keeps_throw

end Attempt

namespace M

variable {α : Type} {R : Ending → Machine → Machine → Prop} [Tolerant R]

omit [Tolerant R] in
/-- A change that nothing can be said against but what arrays hold has to be looked at only where this can be judged. -/
theorem After.minor_of_judged {act : M α} {m : Machine} (hslight : After act m (fun _ => Slight m) (Slight m))
    (h : m.Judged → After act m (fun _ => Minor m) (Minor m)) : After act m (fun _ => Minor m) (Minor m) := by
  by_cases hm : m.Judged
  · exact h hm
  · have hminor {b : Machine} (hb : Slight m b) : Minor m b :=
      ⟨hb, fun f hf hc ha => absurd ⟨f, hf, hb.persists.trans hc, ha⟩ hm⟩
    exact hslight.mono (fun _ _ => hminor) fun _ => hminor

omit [Tolerant R] in
/-- What holds of each value of several actions, and goes on to hold. -/
theorem after_mapM_minor {β : Type} {act : α → M β} {P : β → Machine → Prop} {m₀ : Machine}
    (mono : ∀ {b m m'}, Minor m m' → P b m → P b m')
    (hact : ∀ a m, Minor m₀ m → After (act a) m (fun b m' => Minor m m' ∧ P b m') (Minor m)) (xs : List α) {m : Machine}
    (hm : Minor m₀ m) : After (xs.mapM act) m (fun bs m' => Minor m m' ∧ ∀ b ∈ bs, P b m') (Minor m) := by
  induction xs generalizing m with
  | nil =>
    rw [List.mapM_nil]
    exact ⟨.refl m, nofun⟩
  | cons x xs ih =>
    rw [List.mapM_cons]
    refine (hact x m hm).bind fun b m₁ ⟨h₁, hb⟩ => ?_
    refine ((ih (hm.trans h₁)).mono (fun _ _ => id) fun _ => h₁.trans).bind fun bs m₂ ⟨h₂, hbs⟩ => ?_
    exact ⟨h₁.trans h₂, List.forall_mem_cons.2 ⟨mono h₂ hb, hbs⟩⟩

/-! ## Halts and looks at the machine -/

@[grind ←]
theorem keeps_fatal {message : String} : Keeps R (fatal message : M α) := keeps_throw

@[grind ←]
theorem keeps_crash : Keeps R (crash : M α) := keeps_throw

@[grind ←]
theorem keeps_outside {i : Int} {length : Nat} : Keeps R (outside i length : M α) := keeps_throw

@[grind ←]
theorem keeps_some! {v : Option α} : Keeps R (some! v) := by
  cases v with
  | none => exact keeps_crash
  | some a => exact keeps_pure

@[grind ←]
theorem keeps_haltFor {h : Option Halt} : Keeps R (haltFor h) := by
  cases h with
  | none => exact keeps_pure
  | some h => exact keeps_throw

@[grind ←]
theorem keeps_attemptSome! {v : Option α} : Attempt.Keeps R (Attempt.some! v) :=
  Attempt.keeps_lift keeps_some!

@[grind ←]
theorem keeps_classAt {c : ClassId} : Keeps R (classAt c) := keeps_of_same fun _ => rfl

@[grind ←]
theorem keeps_objectAt {r : Ref} : Keeps R (objectAt r) := keeps_of_same fun _ => rfl

@[grind ←]
theorem keeps_classIdOf {r : Ref} : Keeps R (classIdOf r) := keeps_of_same fun _ => rfl

@[grind ←]
theorem keeps_classOf {r : Ref} : Keeps R (classOf r) := keeps_of_same fun _ => rfl

@[grind ←]
theorem keeps_depth : Keeps R depth := keeps_of_same fun _ => rfl

@[grind ←]
theorem keeps_topFrame : Keeps R topFrame := keeps_of_same fun _ => rfl

@[grind ←]
theorem keeps_activation : Keeps R activation := keeps_of_same fun m => by
  unfold After activation
  rcases m.frames with _ | ⟨_ | _ | a, rest⟩ <;> rfl

/-! ## Minor changes -/

omit [Tolerant R] in
/-- Exceptions on their way do not matter. -/
theorem keeps_exceptions [Marking R] (pending : Machine → Option Ref) (overflowing : Machine → Bool) :
    Keeps R (modify fun m => { m with pending := pending m, overflowing := overflowing m } : M Unit) :=
  keeps_modify fun m => Marking.mark (pending m) (overflowing m) rfl

omit [Tolerant R] in
theorem keeps_stored [Lenient R] {f : Machine → Storage} : Keeps R (modify fun m => { m with storage := f m } : M Unit) :=
  keeps_modify fun m => Lenient.stored (f m)

/-- A change of the heap that leaves the objects fitting, each of its class. -/
theorem slight_heap {m : Machine} {heap : Array Object} (h : Steady m { m with heap })
    (persists : Persists m { m with heap }) : Slight m { m with heap } :=
  .ofStill ⟨.ofSame rfl rfl rfl rfl, h⟩ persists rfl rfl rfl rfl rfl

/-- A change of the heap that leaves the objects fitting and arrays with what they may hold. -/
theorem minor_heap {m : Machine} {heap : Array Object} (h : Steady m { m with heap })
    (hs : ∀ f, Stocks f m { m with heap }) : Minor m { m with heap } := .ofStocks (slight_heap h (hs m).persists) hs

/-- A new object that fits and holds what is admitted. -/
theorem minor_allocate {m : Machine} {o : Object} (fits : m.Fit → o.Fits m)
    (held : ∀ f, f.Judges → Persists m f → f.Stocked m → ∀ refs, o.elements = some (.refs refs) → ∀ v, some v ∈ refs →
      f.Admits m o.owner v) : Minor m { m with heap := m.heap.push o } :=
  minor_heap (.allocate fits) fun f => .allocate (held f)

/-- A change of an object that keeps its shape and its elements. -/
theorem minor_updateObject {m : Machine} {r : Ref} {f : Object → Object}
    (fits : (m.objectAt r).Fits m → (f (m.objectAt r)).Fits m) (owner : (f (m.objectAt r)).owner = (m.objectAt r).owner)
    (elements : (f (m.objectAt r)).elements = (m.objectAt r).elements) :
    Minor m { m with heap := m.heap.modify r.index f } :=
  minor_heap (.updateObject fun _ => fits) fun _ => .updateObject owner fun _ _ _ _ h => .inl (elements ▸ h)

theorem keeps_updateObject {r : Ref} {f : Object → Object} (h : ∀ o m, Object.Fits o m → (f o).Fits m)
    (owner : ∀ o, (f o).owner = o.owner) (elements : ∀ o, (f o).elements = o.elements) : Keeps R (updateObject r f) :=
  keeps_minor fun m => minor_updateObject (h _ m) (owner _) (elements _)

/-- What the machine keeps with an object does not change its shape. -/
theorem keeps_attach {r : Ref} {a : Option Attachment} (h : ∀ l, a ≠ some (.loader l)) :
    Keeps R (updateObject r fun o => { o with attached := a }) :=
  keeps_updateObject (fun _ _ ho => ⟨ho.owner, ho.fields, fun l hl => absurd hl (h l)⟩) (fun _ => rfl) fun _ => rfl

/-- The elements of an array change to others. -/
theorem slight_changeElements {m : Machine} {r : Ref} (change : Option Elements → Option Elements)
    (array : change (m.objectAt r).elements = none → (m.objectAt r).elements = none) :
    Slight m { m with heap := m.heap.modify r.index fun o => { o with elements := change o.elements } } :=
  slight_heap (.updateObject fun _ ho => ⟨fun he => ho.owner (array he), fun he => ho.fields (array he), ho.loader⟩)
    (Stocks.persists_updateObject rfl)

/-- The elements of an array change to others that it may hold. -/
theorem minor_changeElements {m : Machine} {r : Ref} (change : Option Elements → Option Elements)
    (array : change (m.objectAt r).elements = none → (m.objectAt r).elements = none)
    (held : ∀ f, f.Judges → Persists m f → f.Stocked m → ∀ refs, change (m.objectAt r).elements = some (.refs refs) →
      (m.objectAt r).elements = some (.refs refs) ∨ ∀ v, some v ∈ refs → f.Admits m (m.classOf r) v) :
    Minor m { m with heap := m.heap.modify r.index fun o => { o with elements := change o.elements } } :=
  .ofStocks (slight_changeElements change array) fun f => .updateObject rfl (held f)

@[grind ←]
theorem keeps_writeOut {bytes : List UInt8} : Keeps R (writeOut bytes) :=
  keeps_minor fun _ => .ofSame rfl rfl

@[grind ←]
theorem keeps_writeErr {bytes : List UInt8} : Keeps R (writeErr bytes) :=
  keeps_minor fun _ => .ofSame rfl rfl

omit [Tolerant R] in
@[grind ←]
theorem keeps_onStorage [Lenient R] {act : Storage.Action α} : Keeps R (onStorage act) := by
  intro m
  unfold After onStorage
  cases act m.storage <;> exact Lenient.stored _

theorem outline_modify {classes : Array Class} {i : Nat} {f : Class → Class}
    (hf : ∀ k, (f k).outline = k.outline) :
    (classes.modify i f).map Class.outline = classes.map Class.outline := by
  apply Array.ext
  · simp
  · intro j h₁ h₂
    simp only [Array.getElem_map, Array.getElem_modify]
    split
    · exact hf _
    · rfl

/-- A change of a class that keeps its outline and its plan, if the new entries of its pool fit. -/
theorem still_updateClass {m : Machine} {c : ClassId} {f : Class → Class} (outline : ∀ k, (f k).outline = k.outline)
    (plan : (f (m.classAt c)).plan = (m.classAt c).plan)
    (pool : m.Fit → c.index < m.classes.size →
      ∀ e ∈ (f (m.classAt c)).pool, e ∈ (m.classAt c).pool ∨ e.Fits m c) :
    Still m { m with classes := m.classes.modify c.index f } :=
  ⟨⟨rfl, rfl, rfl, outline_modify outline⟩, .updateClass plan pool⟩

/-- A change of a class that keeps its core does not matter to the class's objects. -/
theorem persists_updateClass {m : Machine} {c : ClassId} {f : Class → Class} (core : ∀ k, (f k).core = k.core) :
    Persists m { m with classes := m.classes.modify c.index f } := by
  refine .ofSame (fun k => ?_) (by simp) rfl rfl id
  rw [Machine.classAt_modify]
  split
  · exact core _
  · rfl

/-- A change of a class that keeps its outline, its plan and its pool. -/
theorem slight_updateClass {m : Machine} {c : ClassId} {f : Class → Class} (outline : ∀ k, (f k).outline = k.outline)
    (plan : (f (m.classAt c)).plan = (m.classAt c).plan) (pool : (f (m.classAt c)).pool = (m.classAt c).pool) :
    Slight m { m with classes := m.classes.modify c.index f } := by
  refine ⟨still_updateClass outline plan fun _ _ e he => .inl ?_,
    persists_updateClass fun k => Class.core_of_outline (outline k), rfl, rfl, rfl, rfl, fun k i _ => ?_⟩
  · rwa [pool] at he
  · rw [Machine.classAt_modify]
    split
    · next h =>
      obtain ⟨rfl, -⟩ := h
      rw [pool]
    · rfl

/-- A change of a class that makes no mirror does not matter to what arrays hold. -/
theorem stocks_updateClass {m g : Machine} {c : ClassId} {f : Class → Class} (core : ∀ k, (f k).core = k.core)
    (mirror : (f (m.classAt c)).mirror = (m.classAt c).mirror) :
    Stocks g m { m with classes := m.classes.modify c.index f } := by
  have hc := persists_updateClass (m := m) (c := c) core
  refine ⟨hc, fun _ _ ha => ha.onward hc rfl (fun k r hr => .inl ?_) (fun _ => .inl) (fun _ => .inl) fun _ _ => .inl⟩
  rw [Machine.classAt_modify] at hr
  split at hr
  · next h =>
    obtain ⟨rfl, -⟩ := h
    exact mirror ▸ hr
  · exact hr

/-- A change of a class that keeps its mirror too. -/
theorem minor_updateClass {m : Machine} {c : ClassId} {f : Class → Class} (outline : ∀ k, (f k).outline = k.outline)
    (plan : (f (m.classAt c)).plan = (m.classAt c).plan) (pool : (f (m.classAt c)).pool = (m.classAt c).pool)
    (mirror : (f (m.classAt c)).mirror = (m.classAt c).mirror) :
    Minor m { m with classes := m.classes.modify c.index f } :=
  .ofStocks (slight_updateClass outline plan pool) fun _ =>
    stocks_updateClass (fun k => Class.core_of_outline (outline k)) mirror

theorem keeps_updateClass {c : ClassId} {f : Class → Class} (outline : ∀ k, (f k).outline = k.outline)
    (plan : ∀ k, (f k).plan = k.plan) (pool : ∀ k, (f k).pool = k.pool) (mirror : ∀ k, (f k).mirror = k.mirror) :
    Keeps R (updateClass c f) :=
  keeps_minor fun _ => minor_updateClass outline (plan _) (pool _) (mirror _)

/-- An entry of a pool takes the place of another that names the same. -/
theorem still_setEntry {m : Machine} {c : ClassId} {index : Nat} {e : PoolEntry}
    (h : e.unresolved = ((m.classAt c).pool.getD index .empty).unresolved)
    (hfits : m.Fit → c.index < m.classes.size → e.Fits m c) : Still m (m.setEntry c index e) := by
  refine still_updateClass (fun _ => rfl) (Class.plan_setEntry h) fun hm hc e' he' => ?_
  rcases Array.mem_or_eq_of_mem_setIfInBounds he' with hold | rfl
  · exact .inl hold
  · exact .inr (hfits hm hc)

/-- An entry of a pool takes the place of another that was not resolved yet. -/
theorem minor_setEntry {m : Machine} {c : ClassId} {index : Nat} {e : PoolEntry}
    (h : e.unresolved = ((m.classAt c).pool.getD index .empty).unresolved)
    (hfits : m.Fit → c.index < m.classes.size → e.Fits m c)
    (hopen : ¬ ((m.classAt c).pool.getD index .empty).Resolved) : Minor m (m.setEntry c index e) := by
  have hstocks (f : Machine) : Stocks f m (m.setEntry c index e) := stocks_updateClass (fun _ => rfl) rfl
  refine .ofStocks ⟨still_setEntry h hfits, (hstocks m).persists, rfl, rfl, rfl, rfl, fun k i hr => ?_⟩ hstocks
  refine Machine.entry_setEntry_of_ne ?_ e
  rintro rfl rfl
  exact hopen hr

/-! ## The heap -/

/-- An array has no fields that could misfit. -/
theorem keeps_allocateElements {c : ClassId} {e : Elements} (h : ∀ refs, e = .refs refs → ∀ v, some v ∉ refs) :
    Keeps R (allocate { owner := c, elements := some e }) := by
  refine fun m => Tolerant.minor (minor_allocate (fun _ => ⟨nofun, nofun, nofun⟩) fun _ _ _ _ refs he v hv => ?_)
  exact absurd hv (h refs (Option.some.inj he) v)

@[grind ←]
theorem keeps_allocateChars {c : ClassId} {a : Array UInt16} :
    Keeps R (allocate { owner := c, elements := some (.chars a) }) := keeps_allocateElements nofun

/-- A new instance is an object of its class. -/
theorem after_newObject (c : ClassId) (m : Machine) :
    After (newObject c) m (fun r m' => Minor m m' ∧ m'.Refers r c) (Minor m) := by
  simp only [newObject, after_bind_iff, after_get]
  cases hc : m.classes[c.index]? with
  | none => exact .refl m
  | some k =>
    refine ⟨minor_allocate (fun _ => ⟨fun _ => ?_, fun _ => ?_, nofun⟩) fun _ _ _ _ _ he => ?_, ?_, ?_⟩
    · exact (Array.getElem?_eq_some_iff.1 hc).1
    · simp [Machine.classAt, Array.getD_eq_getD_getElem?, hc, Slots.ofSize]
    · cases he
    · simp
    · simp [Machine.classOf, Machine.objectAt, Array.getD]

@[grind ←]
theorem keeps_newObject {c : ClassId} : Keeps R (newObject c) := fun m =>
  (after_newObject c m).mono (fun _ _ h => Tolerant.minor h.1) fun _ => Tolerant.minor

/-- The elements of a new array are no references. -/
theorem empty_ofClassName? {name : String} {n : Nat} {e : Elements} (h : Elements.ofClassName? name n = some e)
    (refs : Array (Option Ref)) (hrefs : e = .refs refs) (v : Ref) : some v ∉ refs := by
  have hletter (letter : Char) : Elements.ofLetter letter n = .refs refs → some v ∉ refs := by
    unfold Elements.ofLetter
    split
    all_goals
      intro h
      cases h
    simp
  subst hrefs
  unfold Elements.ofClassName? at h
  split at h
  · cases h
  · split at h
    · cases h
    · exact hletter _ (Option.some.inj h)
  · exact hletter _ (Option.some.inj h)

/-- A new array is an object of its class. -/
theorem after_newArray (c : ClassId) (n : Int32) (m : Machine) :
    After (newArray c n) m (fun r m' => Minor m m' ∧ m'.Refers r c) (Minor m) := by
  rw [newArray, after_bind_iff, after_classAt]
  cases he : Elements.ofClassName? (m.classAt c).name n.toInt.toNat with
  | none => exact .refl m
  | some e =>
    refine ⟨keeps_allocateElements (R := fun _ => Minor) (empty_ofClassName? he) m, ?_, ?_⟩
    · simp
    · simp [Machine.classOf, Machine.objectAt, Array.getD]

@[grind ←]
theorem keeps_newArray {c : ClassId} {n : Int32} : Keeps R (newArray c n) := fun m =>
  (after_newArray c n m).mono (fun _ _ h => Tolerant.minor h.1) fun _ => Tolerant.minor

@[grind ←]
theorem keeps_refsOf {r : Ref} : Keeps R (refsOf r) := by unfold refsOf; grind

/-- The elements of an array may become others that it may hold. -/
theorem minor_setElements {m : Machine} {r : Ref} {e : Elements}
    (h : ∀ f, f.Judges → Persists m f → f.Stocked m → ∀ refs, e = .refs refs → ∀ v, some v ∈ refs →
      f.Admits m (m.classOf r) v) : Minor m { m with heap := m.heap.modify r.index fun o => { o with elements := some e } } :=
  minor_changeElements (fun _ => some e) nofun
    fun f hf hc ha refs he => .inr (h f hf hc ha refs (Option.some.inj he))

/-- Elements that are no references may always be set. -/
theorem keeps_setElements {r : Ref} {e : Elements} (h : ∀ refs, e ≠ .refs refs) : Keeps R (setElements r e) :=
  keeps_minor fun _ => minor_setElements fun _ _ _ _ refs he => absurd he (h refs)

/-- A relation that does not look at what arrays hold. -/
@[grind ←]
theorem careless_setElements {R : Ending → Machine → Machine → Prop} [Careless R] {r : Ref} {e : Elements} :
    Keeps R (setElements r e) :=
  keeps_modify fun _ => Careless.slight (slight_changeElements (fun _ => some e) nofun)

@[grind ←]
theorem keeps_arrayLength {r : Ref} : Keeps R (arrayLength r) := by unfold arrayLength; grind

@[grind ←]
theorem keeps_field {r : Ref} {name desc : String} : Keeps R (field r name desc) := by
  unfold field; grind

@[grind ←]
theorem keeps_hasField {r : Ref} {name desc : String} : Keeps R (hasField r name desc) := by
  unfold hasField; grind

@[grind ←]
theorem keeps_slotOf {r : Ref} {i : Int} : Keeps R (slotOf r i) := by unfold slotOf; grind

theorem Slots.size_write {i : Int} {v : Slot} {slots after : Slots} {u : Unit}
    (h : Slots.write i v slots = .ok u after) : after.size = slots.size := by
  unfold Slots.write at h
  split at h
  · cases h
  · split at h
    · cases h
      simp
    · cases h

@[grind ←]
theorem keeps_setSlot {r : Ref} {i : Int} {v : Slot} : Keeps R (setSlot r i v) := by
  intro m
  rw [setSlot, after_bind_iff, after_objectAt]
  split
  · next fields hw =>
    refine Tolerant.minor (minor_updateObject (fun ho => ⟨ho.owner, fun he => ?_, ho.loader⟩) rfl rfl)
    exact (Slots.size_write hw).trans (ho.fields he)
  · exact keeps_outside m

@[grind ←]
theorem keeps_getRefField {r : Ref} {name desc : String} : Keeps R (getRefField r name desc) := by
  unfold getRefField; grind

@[grind ←]
theorem keeps_setRefField {r : Ref} {name desc : String} {v : Option Ref} :
    Keeps R (setRefField r name desc v) := by unfold setRefField; grind

@[grind ←]
theorem keeps_getIntField {r : Ref} {name : String} : Keeps R (getIntField r name) := by
  unfold getIntField; grind

@[grind ←]
theorem keeps_setIntField {r : Ref} {name : String} {v : Int32} : Keeps R (setIntField r name v) := by
  unfold setIntField; grind

@[grind ←]
theorem keeps_setRefIfPresent {r : Ref} {name desc : String} {v : Option Ref} :
    Keeps R (setRefIfPresent r name desc v) := by unfold setRefIfPresent; grind

@[grind ←]
theorem keeps_setIntIfPresent {r : Ref} {name : String} {v : Int32} :
    Keeps R (setIntIfPresent r name v) := by unfold setIntIfPresent; grind

@[grind ←]
theorem keeps_unitsOf {r : Option Ref} : Keeps R (unitsOf r) := by
  unfold unitsOf
  cases r with
  | none => exact keeps_pure
  | some r =>
    refine keeps_bind (keeps_getRefField) fun v => ?_
    grind

@[grind ←]
theorem keeps_textOf {r : Option Ref} : Keeps R (textOf r) := by unfold textOf; grind

@[grind ←]
theorem keeps_newChars {units : List UInt16} : Keeps R (newChars units) := by
  unfold newChars
  refine keeps_bind keeps_get fun m => keeps_bind keeps_some! fun c => ?_
  split
  · exact keeps_throw
  · exact keeps_allocateChars

/-- A new string is of the class that is taken for that of strings. -/
theorem after_newStringUnits (units : List UInt16) (m : Machine) :
    After (newStringUnits units) m (fun r m' => Minor m m' ∧ ∃ c, m.stringClass = some c ∧ m'.Refers r c) (Minor m) := by
  rw [newStringUnits]
  refine .bind_minor keeps_newChars (fun array m₁ h₁ => ?_) fun _ => id
  rw [after_bind_iff, after_get, h₁.stringClass]
  cases hstring : m.stringClass with
  | none => exact h₁
  | some c =>
    rw [after_bind_iff, after_some]
    refine ((after_newObject c m₁).mono (fun _ _ => id) fun _ => h₁.trans).bind fun r m₂ ⟨h₂, hr⟩ => ?_
    refine .bind_minor keeps_setRefField (fun _ m₃ h₃ => ?_) fun _ => (h₁.trans h₂).trans
    exact ⟨h₁.trans (h₂.trans h₃), c, rfl, h₃.persists.refers hr⟩

@[grind ←]
theorem keeps_newStringUnits {units : List UInt16} : Keeps R (newStringUnits units) := fun m =>
  (after_newStringUnits units m).mono (fun _ _ h => Tolerant.minor h.1) fun _ => Tolerant.minor

@[grind ←]
theorem keeps_newString {s : String} : Keeps R (newString s) := keeps_newStringUnits

@[grind ←]
theorem keeps_internWith {units : List UInt16} {make : M Ref} (h : Keeps R make) :
    Keeps R (internWith units make) := by
  unfold internWith
  refine keeps_bind keeps_get fun m => ?_
  split
  · exact keeps_pure
  · refine keeps_bind h fun r => ?_
    exact keeps_bind (keeps_minor fun _ => .ofSame rfl rfl) fun _ => keeps_pure

@[grind ←]
theorem keeps_internUnits {units : List UInt16} : Keeps R (internUnits units) :=
  keeps_internWith keeps_newStringUnits

@[grind ←]
theorem keeps_intern {s : String} : Keeps R (intern s) := keeps_internUnits

@[grind ←]
theorem keeps_internObject {r : Ref} : Keeps R (internObject r) := by unfold internObject; grind

@[grind ←]
theorem keeps_identityHash {r : Ref} : Keeps R (identityHash r) := by
  unfold identityHash
  refine keeps_bind (keeps_objectAt) fun o => ?_
  split
  · exact keeps_pure
  · refine keeps_bind keeps_get fun m => ?_
    refine keeps_bind (keeps_minor fun _ => .ofSame (by simp only [Machine.essence]) rfl) fun _ => ?_
    have hhash (h : Int32) : Keeps R (updateObject r fun o => { o with hash := h }) :=
      keeps_updateObject (fun _ _ ho => ⟨ho.owner, ho.fields, ho.loader⟩) (fun _ => rfl) fun _ => rfl
    exact keeps_bind (hhash _) fun _ => keeps_pure

@[grind ←]
theorem keeps_present {r : Ref} : Keeps R (present r) := by unfold present; grind

@[grind ←]
theorem keeps_assignable {target source : ClassId} : Keeps R (assignable target source) := by
  unfold assignable; grind

@[grind ←]
theorem keeps_isArrayClass {c : ClassId} : Keeps R (isArrayClass c) := by
  unfold isArrayClass; grind

@[grind ←]
theorem keeps_isInstance {r : Ref} {c : ClassId} : Keeps R (isInstance r c) := by
  unfold isInstance; grind

@[grind ←]
theorem keeps_loaderMirror {l : Nat} : Keeps R (loaderMirror l) := by unfold loaderMirror; grind

/-- The mirror of a class is of the class of mirrors, as long as only that was taken for it. -/
theorem after_mirror (c : ClassId) (m : Machine) :
    After (mirror c) m (fun r m' => Minor m m' ∧ ∀ f : Machine, f.Judges → Persists m' f → f.Stocked m →
      ∃ d, m'.Refers r d ∧ m'.Knows "java/lang/Class" d) (Minor m) := by
  rw [mirror, after_bind_iff, after_classAt]
  split
  · next r hr => exact ⟨.refl m, fun f _ _ hm => hm.mirrors c r hr⟩
  · rw [after_bind_iff, after_get]
    cases hcc : m.classClass with
    | none => exact .refl m
    | some cc =>
      refine (after_newObject cc m).bind fun r m₁ ⟨h₁, hr⟩ => ?_
      refine .bind_minor (keeps_attach nofun) (fun _ m₂ h₂ => ?_) fun _ => h₁.trans
      refine .bind_minor keeps_loaderMirror (fun l m₃ h₃ => ?_) fun _ => (h₁.trans h₂).trans
      refine .bind_minor keeps_setRefIfPresent (fun _ m₄ h₄ => ?_) fun _ => (h₁.trans (h₂.trans h₃)).trans
      have hrest := h₂.trans (h₃.trans h₄)
      have hall := h₁.trans hrest
      have hset := slight_updateClass (m := m₄) (c := c) (f := fun k => { k with mirror := some r }) (fun _ => rfl) rfl rfl
      have hrefers : m₄.Refers r cc := hrest.persists.refers hr
      have hknows {f : Machine} (hm : f.Stocked m) : m₄.Knows "java/lang/Class" cc :=
        hall.persists.knows (hm.classClass cc hcc)
      refine ⟨⟨hall.toSlight.trans hset, fun f hf hc hm => ?_⟩, fun f _ _ hm => ?_⟩
      · -- the mirror is still of the class that it was made of, which was the class of mirrors from the start
        have hm₄ := hall.stocked f hf (hset.persists.trans hc) hm
        refine hm₄.onward hset.persists rfl (fun k x hx => ?_) (fun _ => .inl) (fun _ => .inl) fun _ _ => .inl
        rw [Machine.classAt_modify] at hx
        split at hx
        · cases hx
          exact .inr ⟨cc, hrefers, hknows hm⟩
        · exact .inl hx
      · exact ⟨cc, hset.persists.refers hrefers, hset.persists.knows (hknows hm)⟩

@[grind ←]
theorem keeps_mirror {c : ClassId} : Keeps R (mirror c) := fun m =>
  (after_mirror c m).mono (fun _ _ h => Tolerant.minor h.1) fun _ => Tolerant.minor

@[grind ←]
theorem keeps_mirrored {r : Ref} : Keeps R (mirrored r) := by unfold mirrored; grind

theorem loaderAt_push (m : Machine) (x : Loader) (l : Nat) :
    { m with loaders := m.loaders.push x }.loaderAt l = if l = m.loaders.size then x else m.loaderAt l := by
  simp only [Machine.loaderAt, Array.getD_eq_getD_getElem?, Array.getElem?_push]
  split <;> rfl

/-- A loader is added that knows nothing. -/
theorem minor_newLoader (m : Machine) (x : Loader) (classes : x.classes = []) (defining : x.defining = []) :
    Minor m { m with loaders := m.loaders.push x } := by
  have hnone : m.loaderAt m.loaders.size = {} := by
    rw [Machine.loaderAt, Array.getD, dif_neg (Nat.lt_irrefl _)]
    rfl
  have hknown (l : Nat) : ({ m with loaders := m.loaders.push x }.loaderAt l).classes = (m.loaderAt l).classes := by
    rw [loaderAt_push]
    split
    · next hl => rw [hl, hnone, classes]
    · rfl
  have hs : Succeeds m { m with loaders := m.loaders.push x } :=
    .of_known (Nat.le_refl _) (fun _ _ => rfl) (by simp) hknown
  have hstocks (f : Machine) : Stocks f m { m with loaders := m.loaders.push x } := .newLoader classes
  refine .ofStocks (.ofStill ⟨.ofSame rfl rfl rfl rfl, ?_⟩ (hstocks m).persists rfl rfl rfl rfl rfl) hstocks
  refine { Steady.refl m with loaders := hs.loaders, known := hknown, defining := ?_, mirrors := ?_, fit := ?_ }
  · intro l
    rw [loaderAt_push]
    split
    · next hl => rw [hl, hnone, defining]
    · rfl
  · intro l hl
    rw [loaderAt_push, if_neg (Nat.ne_of_lt hl)]
  · exact fun hm => hm.onward hs rfl (fun _ => .inl) fun _ _ => .inl

@[grind ←]
theorem keeps_loaderOf {r : Option Ref} : Keeps R (loaderOf r) := by
  unfold loaderOf
  cases r with
  | none => exact keeps_pure
  | some r =>
    intro m
    rw [after_bind_iff, after_objectAt]
    split
    · exact keeps_pure m
    · have hpush := minor_newLoader m { mirror := some r } rfl rfl
      refine Tolerant.minor (hpush.trans (minor_updateObject (fun ho => ⟨ho.owner, ho.fields, ?_⟩) rfl rfl))
      rintro l ⟨⟩
      simp

end M

/-! ## The innermost frame -/

theorem mark_of_becomes {f g : Frame} (h : f.Becomes g) : g.mark = f.mark := by
  cases h with
  | barrier => rfl
  | shim => rfl
  | active hmethod hpc => rw [Frame.mark, Frame.mark, hmethod, hpc]

/-- A machine with other frames that have the same marks, whatever exception is on its way. -/
theorem still_frames {m : Machine} {frames : List Frame} (h : frames.map Frame.mark = m.marks) (pending : Option Ref)
    (overflowing : Bool) : Still m { m with frames, pending, overflowing } :=
  ⟨⟨rfl, rfl, h, rfl⟩, .ofSame (List.suffix_refl _) rfl rfl rfl rfl rfl rfl rfl⟩

theorem Retouched.marks {a b : List Frame} (h : Retouched a b) : b.map Frame.mark = a.map Frame.mark := by
  cases h with
  | same => rfl
  | top rest hf => rw [List.map_cons, List.map_cons, mark_of_becomes hf]

instance {R : Ending → Machine → Machine → Prop} [Heedless R] : Marking R where
  mark pending overflowing h := Heedless.still (still_frames h pending overflowing)
  marked pending overflowing hr h := Heedless.settle hr (still_frames h pending overflowing)

instance {R : Ending → Machine → Machine → Prop} [Marking R] : Touching R where
  touch {_ m _} h := Marking.mark m.pending m.overflowing h.marks

namespace M

variable {α : Type} {R : Ending → Machine → Machine → Prop} [Touching R]

@[grind ←]
theorem keeps_onStack {act : OperandStack.Action α} (h : OperandStack.Orderly act) : Keeps R (onStack act) := by
  intro m
  unfold After onStack
  cases hm : m.frames with
  | nil => exact Tolerant.minor (.refl m)
  | cons f rest =>
    have hact := h f.stack
    dsimp only
    cases hr : act f.stack <;>
      (rw [hr] at hact; exact Touching.touch (hm ▸ .top rest (Frame.becomes_withStack hact)))

@[grind ←]
theorem keeps_onLocals {act : Slots.Action α} (h : Slots.Sized act) : Keeps R (onLocals act) := by
  intro m
  unfold After onLocals
  rcases hm : m.frames with _ | ⟨_ | _ | a, rest⟩
  · exact Tolerant.minor (.refl m)
  · exact Tolerant.minor (.refl m)
  · exact Tolerant.minor (.refl m)
  · have hact := h a.locals
    dsimp only
    cases hr : act a.locals <;>
      (rw [hr] at hact; exact Touching.touch (hm ▸ .top rest (.active rfl rfl (.refl _) hact)))

/-- An activation that goes on elsewhere. -/
theorem keeps_goOn {next : Activation → Int} :
    Keeps R (updateActivation fun a => { a with nextPc := next a }) := by
  refine keeps_modify fun m => ?_
  split
  · next a rest hf => exact Touching.touch (hf ▸ .top rest (.active rfl rfl (.refl _) rfl))
  · exact Tolerant.minor (.refl m)

@[grind ←] theorem keeps_push {v : Slot} : Keeps R (push v) := keeps_onStack OperandStack.orderly_push
@[grind ←] theorem keeps_pop : Keeps R pop := keeps_onStack OperandStack.orderly_pop
@[grind ←] theorem keeps_pushInt {v : Int32} : Keeps R (pushInt v) := keeps_onStack OperandStack.orderly_pushInt
@[grind ←] theorem keeps_popInt : Keeps R popInt := keeps_onStack OperandStack.orderly_popInt
@[grind ←] theorem keeps_pushLong {v : Int64} : Keeps R (pushLong v) := keeps_onStack OperandStack.orderly_pushLong
@[grind ←] theorem keeps_popLong : Keeps R popLong := keeps_onStack OperandStack.orderly_popLong
@[grind ←] theorem keeps_pushFloat {v : UInt32} : Keeps R (pushFloat v) := keeps_onStack OperandStack.orderly_pushFloat
@[grind ←] theorem keeps_popFloat : Keeps R popFloat := keeps_onStack OperandStack.orderly_popFloat
@[grind ←] theorem keeps_pushDouble {v : UInt64} : Keeps R (pushDouble v) := keeps_onStack OperandStack.orderly_pushDouble
@[grind ←] theorem keeps_popDouble : Keeps R popDouble := keeps_onStack OperandStack.orderly_popDouble
@[grind ←] theorem keeps_pushRef {r : Option Ref} : Keeps R (pushRef r) := keeps_onStack OperandStack.orderly_pushRef
@[grind ←] theorem keeps_popRef : Keeps R popRef := keeps_onStack OperandStack.orderly_popRef
@[grind ←] theorem keeps_pushBool {b : Bool} : Keeps R (pushBool b) := keeps_onStack OperandStack.orderly_pushBool

@[grind ←]
theorem keeps_localInt {i : Nat} : Keeps R (localInt i) := by unfold localInt; grind

@[grind ←]
theorem keeps_localRef {i : Nat} : Keeps R (localRef i) := by unfold localRef; grind

@[grind ←]
theorem keeps_localLong {i : Nat} : Keeps R (localLong i) := keeps_onLocals Slots.sized_readLong

@[grind ←]
theorem keeps_localDouble {i : Nat} : Keeps R (localDouble i) := by unfold localDouble; grind

@[grind ←]
theorem keeps_receiver : Keeps R receiver := by unfold receiver; grind

end M

end JavaMachine
