import JavaMachine.Machine.Throwing
import JavaMachine.Proofs.Machine.Keeps

/-!
What the operations of the machine are built from keeps a relation that the operations themselves keep: the
parts of a definition, resolution, new throwables and the search for handlers. Main result: `keeps_loadClass`, for
loading, which a `Defining` relation is kept by if it is kept where classes are added.
-/

namespace JavaMachine

open M

/-- Resolution keeps a relation. -/
structure Resolving (R : Ending → Machine → Machine → Prop) (s : Services) : Prop where
  classEntry : ∀ holder index, Attempt.Keeps R (Resolution.classEntry s holder index)
  fieldEntry : ∀ holder index, Attempt.Keeps R (Resolution.fieldEntry s holder index)
  methodEntry : ∀ holder index, Attempt.Keeps R (Resolution.methodEntry s holder index)

/-- Loading, resolution, initializing and calling keep a relation. -/
structure Hosted (R : Ending → Machine → Machine → Prop) (s : Services) : Prop extends Resolving R s where
  load : ∀ l name, Attempt.Keeps R (s.load l name)
  initClass : ∀ c, Attempt.Keeps R (s.initClass c)
  invoke : ∀ method args, Attempt.Keeps R (s.invoke method args)

attribute [grind ←] Hosted.load Hosted.initClass Hosted.invoke
attribute [grind →] Hosted.toResolving
attribute [grind ←] Resolving.classEntry Resolving.fieldEntry Resolving.methodEntry

variable {R : Ending → Machine → Machine → Prop} {s : Services}

@[grind ←]
theorem Hosted.loadBoot (h : Hosted R s) {name : String} : Attempt.Keeps R (s.loadBoot name) := h.load 0 name

/-- Operations that keep a relation keep a coarser one. -/
theorem Hosted.mono {R' : Ending → Machine → Machine → Prop} (hR : ∀ {e a b}, R e a b → R' e a b) (h : Hosted R s) :
    Hosted R' s where
  classEntry holder index := (h.classEntry holder index).run.mono hR
  fieldEntry holder index := (h.fieldEntry holder index).run.mono hR
  methodEntry holder index := (h.methodEntry holder index).run.mono hR
  load l name := (h.load l name).run.mono hR
  initClass c := (h.initClass c).run.mono hR
  invoke method args := (h.invoke method args).run.mono hR

variable [Tolerant R]

@[grind ←]
theorem M.keeps_methodText {method : Method} : Keeps R (methodText method) := by unfold methodText; grind

@[grind ←]
theorem M.keeps_fieldText {f : Field} : Keeps R (fieldText f) := by unfold fieldText; grind

@[grind ←]
theorem M.keeps_loaderText {l : Nat} : Keeps R (loaderText l) := by unfold loaderText; grind

/-! ## Linking -/

namespace Linking

@[grind ←]
theorem keeps_accessible {k : Class} {c : ClassId} : Keeps R (superclass.accessible k c) := by
  unfold superclass.accessible; grind

theorem keeps_superclass (h : Hosted R s) {k : Class} : Attempt.Keeps R (superclass s k) := by
  unfold superclass
  split
  · grind
  · refine Attempt.keeps_bind Attempt.keeps_failIf fun _ => ?_
    refine Attempt.keeps_bind (h.load _ _) fun c => ?_
    refine Attempt.keeps_bind (Attempt.keeps_lift keeps_classAt) fun super => ?_
    refine Attempt.keeps_bind Attempt.keeps_failIf fun _ => ?_
    refine Attempt.keeps_bind Attempt.keeps_failIf fun _ => ?_
    grind

theorem keeps_superinterfaces (h : Hosted R s) {k : Class} {names : List String} :
    Attempt.Keeps R (superinterfaces s k names) := by
  induction names with
  | nil => exact Attempt.keeps_pure
  | cons name rest ih =>
    unfold superinterfaces
    refine Attempt.keeps_bind (h.load _ _) fun c => ?_
    refine Attempt.keeps_bind (Attempt.keeps_lift keeps_classAt) fun i => ?_
    refine Attempt.keeps_bind Attempt.keeps_failIf fun _ => ?_
    grind

omit [Tolerant R] in
/-- An entry of a pool remembers the string that was made for it. -/
theorem minor_stringConstant {c : ClassId} {index : Nat} {units : List UInt16} (known : Option Ref) {m : Machine}
    (h : ((m.classAt c).pool.getD index .empty).unresolved = .string units none) :
    After (stringConstant c index units known) m (fun _ => Minor m) (Minor m) := by
  unfold stringConstant
  cases known with
  | some r => exact .refl m
  | none =>
    refine After.bind (keeps_internUnits (R := fun _ => Minor) m) fun r m' hminor => ?_
    have hc : c.index < m.classes.size := by
      refine m.lt_of_classAt (P := fun k => (k.pool.getD index .empty).unresolved = .string units none) h ?_
      exact nofun
    have hentry := (hminor.toSteady.succeeds.entry hc index).trans h
    refine hminor.trans (minor_setEntry hentry.symm (fun _ _ => trivial) ?_)
    exact PoolEntry.not_resolved_of_string hentry

section constants

variable {c : ClassId} (hremember : ∀ index e, Keeps R (Resolution.remember c index e))
include hremember

/-- An entry remembers a string, whatever it was. -/
theorem keeps_stringConstant {index : Nat} {units : List UInt16} {known : Option Ref} :
    Keeps R (stringConstant c index units known) := by
  unfold stringConstant
  cases known with
  | some r => exact keeps_pure
  | none => exact keeps_bind keeps_internUnits fun r => keeps_bind (hremember _ _) fun _ => keeps_pure

theorem keeps_constantSlots (hs : Attempt.Keeps R (ensureStringClasses s)) {f : Field} :
    Attempt.Keeps R (constantSlots s c f) := by
  have hstring (index : Nat) (units : List UInt16) (known : Option Ref) : Keeps R (stringConstant c index units known) :=
    keeps_stringConstant hremember
  unfold constantSlots
  grind

end constants

theorem size_putStatics (statics : Slots) (i : Nat) (slots : List Slot) :
    (putStatics statics i slots).size = statics.size := by
  induction slots generalizing statics i with
  | nil => rfl
  | cons v rest ih => rw [putStatics, ih, Array.size_setIfInBounds]

theorem keeps_seed {c : ClassId} (hremember : ∀ index e, Keeps R (Resolution.remember c index e))
    (hs : Attempt.Keeps R (ensureStringClasses s)) {fields : List Field} : Attempt.Keeps R (seed s c fields) := by
  induction fields with
  | nil => exact Attempt.keeps_pure
  | cons f rest ih =>
    unfold seed
    split
    · refine Attempt.keeps_bind (keeps_constantSlots hremember hs) fun slots => ?_
      refine Attempt.keeps_bind (Attempt.keeps_lift (keeps_updateClass ?_ ?_ ?_ ?_)) fun _ => ih
      · exact fun _ => rfl
      · intro k
        rw [Class.plan, size_putStatics]
        rfl
      · exact fun _ => rfl
      · exact fun _ => rfl
    · exact ih

@[grind ←]
theorem keeps_describedClass (h : Hosted R s) {l : Nat} {desc : String} :
    Attempt.Keeps R (describedClass s l desc) := by unfold describedClass; grind

theorem keeps_arrayClassOf (h : Hosted R s) {c : ClassId} : Attempt.Keeps R (arrayClassOf s c) := by
  unfold arrayClassOf; grind

theorem keeps_newStringArray {R : Ending → Machine → Machine → Prop} [Careless R] (h : Hosted R s)
    {values : List String} : Attempt.Keeps R (newStringArray s values) := by
  unfold newStringArray
  refine Attempt.keeps_bind Attempt.keeps_get fun m => ?_
  refine Attempt.keeps_bind keeps_attemptSome! fun c => ?_
  refine Attempt.keeps_bind (keeps_arrayClassOf h) fun c => ?_
  grind

end Linking

/-! ## Resolution -/

namespace Resolution

omit [Tolerant R] in
/-- The entry of a pool is read. Where there is none, the machine stops. -/
theorem after_entry {m : Machine} (c : ClassId) (index : Nat) :
    After (entry c index) m (fun e m' => m' = m ∧ (m.classAt c).pool.getD index .empty = e ∧ e ≠ .empty) (· = m) := by
  unfold entry
  rw [after_bind_iff, after_classAt]
  split
  · unfold After
    split
    · next h => cases h
    · next h =>
      cases h
      rfl
  · next hne => exact ⟨rfl, rfl, hne⟩

@[grind ←]
theorem keeps_entry {c : ClassId} {index : Nat} : Keeps R (entry c index) := by unfold entry; grind

@[grind ←]
theorem keeps_wrongKind {α : Type} {c : ClassId} {index : Nat} {e : PoolEntry} {wanted : String} :
    Keeps R (wrongKind c index e wanted : M α) := by unfold wrongKind; grind

@[grind ←]
theorem keeps_loadFor (hload : ∀ l name, Attempt.Keeps R (s.load l name)) {holder : ClassId} {name : String} :
    Attempt.Keeps R (loadFor s holder name) := by
  unfold loadFor
  grind

@[grind ←]
theorem keeps_ownerOf (hload : ∀ l name, Attempt.Keeps R (s.load l name)) {holder : ClassId} {name : String}
    {known : Option ClassId} : Attempt.Keeps R (ownerOf s holder name known) := by
  cases known with
  | some c => exact Attempt.keeps_pure
  | none => exact keeps_loadFor hload

section entries

variable (hload : ∀ l name, Attempt.Keeps R (s.load l name)) {holder : ClassId} {index : Nat}
  (hremember : ∀ e, Keeps R (remember holder index e))
include hload hremember

/-- The resolution of an entry keeps a relation that loads keep and that allows the entry to be set. -/
theorem keeps_classEntry : Attempt.Keeps R (classEntry s holder index) := by
  unfold classEntry
  grind

theorem keeps_fieldEntry : Attempt.Keeps R (fieldEntry s holder index) := by
  unfold fieldEntry
  refine Attempt.keeps_bind (Attempt.keeps_lift keeps_entry) fun e => ?_
  split
  · exact Attempt.keeps_pure
  · refine Attempt.keeps_bind (keeps_ownerOf hload) fun c => ?_
    refine Attempt.keeps_bind (Attempt.keeps_lift (hremember _)) fun _ => ?_
    refine Attempt.keeps_bind Attempt.keeps_get fun m => ?_
    split
    · exact Attempt.keeps_fail
    · refine Attempt.keeps_bind Attempt.keeps_failIf fun _ => ?_
      exact Attempt.keeps_bind (Attempt.keeps_lift (hremember _)) fun _ => Attempt.keeps_pure
  · exact Attempt.keeps_attemptLift keeps_wrongKind

theorem keeps_methodEntry : Attempt.Keeps R (methodEntry s holder index) := by
  unfold methodEntry
  refine Attempt.keeps_bind (Attempt.keeps_lift keeps_entry) fun e => ?_
  split
  · exact Attempt.keeps_pure
  · refine Attempt.keeps_bind (keeps_ownerOf hload) fun c => ?_
    refine Attempt.keeps_bind (Attempt.keeps_lift (hremember _)) fun _ => ?_
    grind
  · exact Attempt.keeps_attemptLift keeps_wrongKind

end entries

theorem keeps_remember {R : Ending → Machine → Machine → Prop} [Forgetful R] {c : ClassId} {index : Nat}
    {e : PoolEntry} : Keeps R (remember c index e) := keeps_modify fun _ => Forgetful.setEntry c index e

end Resolution

/-- Resolution keeps a relation that loads keep, if the relation does not look at what pools were resolved to. -/
theorem Resolving.of_load {R : Ending → Machine → Machine → Prop} [Forgetful R]
    (hload : ∀ l name, Attempt.Keeps R (s.load l name)) : Resolving R s where
  classEntry _ _ := Resolution.keeps_classEntry hload fun _ => Resolution.keeps_remember
  fieldEntry _ _ := Resolution.keeps_fieldEntry hload fun _ => Resolution.keeps_remember
  methodEntry _ _ := Resolution.keeps_methodEntry hload fun _ => Resolution.keeps_remember

/-! ## Loading -/

/-- A relation that allows loaders to learn of classes that are there, names to be marked as being defined, and classes of
arrays to be added. -/
class Learning (R : Ending → Machine → Machine → Prop) : Prop extends Lenient R where
  record : ∀ {e m} l name c, (c.index < m.classes.size ∨ ∃ x n, (n, c) ∈ (m.loaderAt x).classes) →
    R e m (m.record l name c)
  beginDefine : ∀ {e m} l name, R e m (m.beginDefine l name)
  endDefine : ∀ {e a b} l name, R e a b → R e a (b.endDefine l name)
  arrays : ∀ {e m} k asked, k.state = .initialized → k.mirror = none → R e m (m.addArrayClass k asked).2

/-- A relation that allows loaders to become others, the machine to note the classes that strings need, and classes of
arrays to be added. -/
class Defining (R : Ending → Machine → Machine → Prop) : Prop extends Lenient R where
  loaders : ∀ {e m} loaders, R e m { m with loaders }
  afterLoaders : ∀ {e a b} loaders, R e a b → R e a { b with loaders }
  strings : ∀ {e m} charArrayClass stringClass, R e m { m with charArrayClass, stringClass }
  arrays : ∀ {e m} k asked, k.state = .initialized → R e m (m.addArrayClass k asked).2

instance {R : Ending → Machine → Machine → Prop} [Defining R] : Learning R where
  record _ _ _ _ := Defining.loaders _
  beginDefine _ _ := Defining.loaders _
  endDefine _ _ h := Defining.afterLoaders _ h
  arrays k asked h _ := Defining.arrays k asked h

namespace Linking

theorem keeps_refuseKnown {l : Nat} {name : String} : Attempt.Keeps R (refuseKnown l name) := by
  unfold refuseKnown
  grind

theorem keeps_reportLoaded {k : Class} {size : Nat} {source : String} : Keeps R (reportLoaded k size source) := by
  unfold reportLoaded
  refine keeps_bind (keeps_minor fun _ => .ofSame rfl rfl) fun _ => ?_
  grind

theorem keeps_resolveSupertypes (h : Hosted R s) {k : Class} : Attempt.Keeps R (resolveSupertypes s k) := by
  unfold resolveSupertypes
  refine Attempt.keeps_bind (keeps_superclass h) fun super => ?_
  exact Attempt.keeps_bind (keeps_superinterfaces h) fun interfaces => Attempt.keeps_pure

theorem of_ofFile {l : Nat} {cf : ClassFile} {k : Class} (h : Class.ofFile l cf = .ok k) :
    k.state = .unlinked ∧ k.mirror = none ∧ k.name = cf.className := by
  unfold Class.ofFile at h
  cases hpool : PoolEntry.ofPool cf.className cf.pool with
  | error f => simp [hpool, bind, Except.bind] at h
  | ok pool =>
    simp only [hpool, bind, Except.bind] at h
    split at h
    · cases h
    · split at h
      · cases h
      · cases h
        exact ⟨rfl, rfl, rfl⟩

theorem keeps_ensureStringClasses {R : Ending → Machine → Machine → Prop} [Defining R] (h : Hosted R s) :
    Attempt.Keeps R (ensureStringClasses s) := by
  have hchars : Attempt.Keeps R (ensureCharArrayClass s) := by
    unfold ensureCharArrayClass
    refine Attempt.keeps_bind Attempt.keeps_get fun m => ?_
    split
    · refine Attempt.keeps_bind h.loadBoot fun c => ?_
      exact Attempt.keeps_modify fun m => Defining.strings (some c) m.stringClass
    · exact Attempt.keeps_pure
  unfold ensureStringClasses
  refine Attempt.keeps_bind hchars fun _ => Attempt.keeps_bind Attempt.keeps_get fun m => ?_
  split
  · refine Attempt.keeps_bind h.loadBoot fun c => ?_
    exact Attempt.keeps_modify fun m => Defining.strings m.charArrayClass (some c)
  · exact Attempt.keeps_pure

section loading

variable {R : Ending → Machine → Machine → Prop} [Learning R]

theorem keeps_arrayClass (h : Hosted R s) {l : Nat} {name : String} : Attempt.Keeps R (arrayClass s l name) := by
  unfold arrayClass
  generalize (name.drop 1).toString = element
  refine Attempt.keeps_bind Attempt.keeps_failIf fun _ => ?_
  refine Attempt.keeps_bind (keeps_describedClass h) fun component => ?_
  refine Attempt.keeps_bind (Attempt.keeps_lift keeps_classAt) fun k => fun m => ?_
  rw [Attempt.after_bind_iff, Attempt.after_get_iff]
  dsimp only
  split
  · next c hc => exact Learning.record l name c (.inr ⟨_, _, Machine.mem_of_loaded? hc⟩)
  · refine Attempt.keeps_bind h.loadBoot (fun object => ?_) m
    refine Attempt.keeps_bind h.loadBoot fun cloneable => ?_
    refine Attempt.keeps_bind h.loadBoot fun serializable => ?_
    refine Attempt.keeps_bind (Attempt.keeps_lift keeps_classAt) fun _ => ?_
    refine Attempt.keeps_bind (Attempt.keeps_lift keeps_classAt) fun _ => ?_
    refine Attempt.keeps_bind (Attempt.keeps_lift keeps_classAt) fun _ => ?_
    refine Attempt.keeps_bind (Attempt.keeps_lift keeps_classAt) fun _ => ?_
    exact Attempt.keeps_modifyGet fun m => Learning.arrays _ l rfl rfl

theorem keeps_loadThrough (h : Hosted R s) {l : Nat} {loader : Ref} {name : String} (hname : name ≠ "") :
    Attempt.Keeps R (loadThrough s l loader name) := by
  have hrefuse (owner : ClassId) : Attempt.Keeps R (loadThrough.refuse name owner) :=
    Attempt.keeps_bind (Attempt.keeps_lift keeps_classAt) fun _ => Attempt.keeps_fail
  unfold loadThrough
  refine Attempt.keeps_bind Attempt.keeps_get fun m => ?_
  dsimp only
  split
  · split
    · exact hrefuse _
    · refine Attempt.keeps_bind (Attempt.keeps_lift keeps_newString) fun argument => ?_
      refine Attempt.keeps_bind (Attempt.keeps_tryCatch (h.invoke _ _) fun f => ?_) fun result => ?_
      · refine Attempt.keeps_bind Attempt.keeps_get fun m => ?_
        split
        · exact Attempt.keeps_throw
        · exact Attempt.keeps_throw
      · refine Attempt.keeps_bind keeps_attemptSome! fun slot => Attempt.keeps_bind Attempt.keeps_get fun m => ?_
        split
        · next c _ =>
          intro m
          rw [Attempt.after_bind_iff, Attempt.after_lift_iff, after_classAt]
          dsimp only
          rw [Attempt.after_bind_iff, Attempt.after_failIf_iff]
          by_cases hk : (m.classAt c).name = name
          · -- A class that has a name is there, so the loader may learn of it.
            have hc : c.index < m.classes.size := m.lt_of_classAt (P := fun k => k.name = name) hk (Ne.symm hname)
            rw [if_neg (by simpa using hk)]
            exact Learning.record l name c (.inl hc)
          · rw [if_pos (by simpa using hk)]
            exact Tolerant.minor (.refl m)
        · exact Attempt.keeps_fail
  · exact hrefuse _

variable (h : Hosted R s) (hpublish : ∀ l k, k.state = .unlinked → k.mirror = none → Attempt.Keeps R (publish s l k))
include h hpublish

theorem keeps_defineMarked {l : Nat} {cf : ClassFile} {size : Nat} {source : String} :
    Attempt.Keeps R (defineMarked s l cf size source) := by
  unfold defineMarked
  refine Attempt.keeps_bind keeps_refuseKnown fun _ => ?_
  split
  · exact Attempt.keeps_throw
  · exact Attempt.keeps_lift keeps_outside
  · next k hk =>
    simp only [resolveSupertypes, bind_assoc, pure_bind]
    refine Attempt.keeps_bind (keeps_superclass h) fun super => ?_
    refine Attempt.keeps_bind (keeps_superinterfaces h) fun interfaces => ?_
    obtain ⟨hstate, hmirror, -⟩ := of_ofFile hk
    refine Attempt.keeps_bind (hpublish l { k with super, interfaces } hstate hmirror) fun c => ?_
    exact Attempt.keeps_bind (Attempt.keeps_lift keeps_reportLoaded) fun _ => Attempt.keeps_pure

theorem keeps_defineClass (l : Nat) (expected : String) (data : List UInt8) (source : String) :
    Attempt.Keeps R (defineClass s l expected data source) := by
  unfold defineClass
  split
  · split
    · exact Attempt.keeps_throw
    · exact Attempt.keeps_throw
  · refine Attempt.keeps_bind Attempt.keeps_failIf fun _ => ?_
    refine Attempt.keeps_bind Attempt.keeps_get fun m => ?_
    refine Attempt.keeps_bind keeps_attemptSome! fun loader => ?_
    refine Attempt.keeps_bind Attempt.keeps_failIf fun _ => ?_
    refine Attempt.keeps_bind (Attempt.keeps_modify fun _ => Learning.beginDefine _ _) fun _ => ?_
    exact Attempt.keeps_mk (keeps_ensuring_of (keeps_defineMarked h hpublish) fun hr => Learning.endDefine _ _ hr)

theorem keeps_define (l : Nat) (data : List UInt8) : Attempt.Keeps R (define s l data) :=
  Attempt.keeps_bind (Attempt.keeps_lift keeps_loaderText) fun _ => keeps_defineClass h hpublish _ _ _ _

theorem keeps_loadFile {name : String} : Attempt.Keeps R (loadFile s name) := by
  have hdefine := keeps_defineClass h hpublish
  unfold loadFile
  grind

/-- Loading a class keeps a relation that the operations behind it keep, and that is kept where classes are added. -/
theorem keeps_loadClass (l : Nat) (name : String) : Attempt.Keeps R (loadClass s l name) := by
  have harray := @keeps_arrayClass s R _ h
  have hfile := @keeps_loadFile s R _ h hpublish
  have hthrough := @keeps_loadThrough s R _ h
  unfold loadClass
  grind

end loading

end Linking

/-! ## Throwables -/

namespace Throwing

@[grind ←]
theorem keeps_setMessage {message : String} {object : Ref} :
    Keeps R (newThrowable.setMessage message object) := by unfold newThrowable.setMessage; grind

@[grind ←]
theorem keeps_setCause {cause : Option Ref} {object : Ref} :
    Keeps R (newThrowable.setCause cause object) := by unfold newThrowable.setCause; grind

@[grind ←]
theorem keeps_newThrowable_finish (h : Hosted R s) {name message : String} {cause : Option Ref} {object : Ref}
    {constructor : Method} {args : List Slot} :
    Keeps R (newThrowable.finish s name message cause object constructor args) := by
  unfold newThrowable.finish
  refine keeps_bind (h.invoke _ _).run fun r => ?_
  grind

theorem keeps_newThrowable_build (h : Hosted R s) {name message : String} {cause : Option Ref} :
    Keeps R (newThrowable.build s name message cause) := by
  unfold newThrowable.build
  refine keeps_bind h.loadBoot.run fun r => ?_
  split
  · grind
  · refine keeps_bind (h.initClass _).run fun r => ?_
    split
    · grind
    · refine keeps_bind keeps_newObject fun object => ?_
      refine keeps_bind keeps_classAt fun k => ?_
      grind

omit [Tolerant R] in
theorem keeps_newThrowable [Marking R] (h : Hosted R s) {name message : String} {cause : Option Ref} :
    Keeps R (newThrowable s name message cause) := by
  unfold newThrowable
  refine keeps_bind keeps_get fun m => ?_
  refine keeps_bind (keeps_exceptions Machine.pending _) fun _ => ?_
  exact keeps_ensuring_of (keeps_newThrowable_build h) fun {_ _ b} hr => Marking.marked b.pending _ hr rfl

@[grind ←]
theorem keeps_findHandler (h : Hosted R s) {a : Activation} {exception : Ref} {rows : List Handler} :
    Keeps R (findHandler s a exception rows) := by
  induction rows with
  | nil => exact keeps_pure
  | cons row rest ih =>
    unfold findHandler
    grind

/-- A frame that handles an exception has nothing but it on its stack, and goes on at the handler. -/
theorem keeps_deliver {R : Ending → Machine → Machine → Prop} [Touching R] {exception : Ref} {entry : Nat} :
    Keeps R (do
      onStack do
        OperandStack.clear
        OperandStack.pushRef (some exception)
      updateActivation fun a => { a with nextPc := entry }) :=
  keeps_bind (keeps_onStack (by grind)) fun _ => keeps_goOn

theorem keeps_escaping (h : Hosted R s) {exception : Ref} : Keeps R (escaping s exception) := by
  unfold escaping
  refine keeps_bind h.loadBoot.run fun r => ?_
  split
  · exact keeps_pure
  · refine keeps_bind keeps_isInstance fun b => ?_
    split
    · exact keeps_pure
    · refine keeps_bind h.loadBoot.run fun r => ?_
      split
      · exact keeps_pure
      · refine keeps_bind keeps_classAt fun k => ?_
        split
        · exact keeps_pure
        · refine keeps_bind (h.initClass _).run fun r => ?_
          grind

end Throwing

end JavaMachine
