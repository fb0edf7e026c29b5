import JavaMachine.Machine.Native.Table
import JavaMachine.Proofs.Machine.Instructions
import Mathlib.Data.List.Basic

/-!
Every native method of the machine keeps a relation that the operations behind instructions keep. Main
result: `lawful_standard`, for the whole table of natives. An implementation takes the place of an earlier one under its
key, so a method is implemented by the last entry that was registered under it; `find?_standard` finds the implementations
that the machine itself provides by their place among all of them.
-/

namespace JavaMachine

open M Throwing

variable {R S : Ending → Machine → Machine → Prop} [Touching R] {s : Services}

/-! ## Calls of methods and threads -/

omit [Touching R] in
@[grind ←]
theorem Services.keeps_invokeVirtual [Tolerant R] (h : Hosted R s) {receiver : Option Ref} {name desc : String}
    {args : List Slot} : Attempt.Keeps R (s.invokeVirtual receiver name desc args) := by
  unfold Services.invokeVirtual Services.invokeVirtual.missing; grind

@[grind ←]
theorem Threads.keeps_ofObject {r : Ref} : Keeps R (ofObject? r) := by unfold ofObject?; grind

@[grind ←]
theorem Threads.keeps_start {r : Ref} : Keeps R (start r) := by
  unfold start
  refine keeps_bind keeps_get fun m => ?_
  exact keeps_bind (keeps_minor fun _ => .ofSame rfl rfl) fun _ => keeps_attach nofun

namespace Native

/-! ## What natives share -/

@[grind ←]
theorem closes_notNull (h : Working R S s) {r : Option Ref} {next : Ref → M Unit}
    (hn : ∀ r, Closes R S (next r)) : Closes R S (notNull s r next) := by unfold notNull; grind

@[grind ←]
theorem keeps_classBehind {r : Ref} : Keeps R (classBehind r) := by unfold classBehind; grind

@[grind ←]
theorem keeps_receiverClass : Keeps R receiverClass := by unfold receiverClass; grind

@[grind ←]
theorem keeps_mirrorOrNull {c : Option ClassId} : Keeps R (mirrorOrNull c) := by unfold mirrorOrNull; grind

@[grind ←]
theorem closes_withNew (h : Working R S s) {name : String} {next : Ref → M Unit}
    (hn : ∀ r, Closes R S (next r)) : Closes R S (withNew s name next) := by unfold withNew; grind

@[grind ←]
theorem keeps_bytesOf {r : Ref} : Keeps R (bytesOf r) := by unfold bytesOf; grind

@[grind ←]
theorem keeps_inRange {array : Ref} {start count : Int32} : Keeps R (inRange array start count) := by
  unfold inRange; grind

@[grind ←]
theorem keeps_bytesIn {array : Ref} {start count : Int32} : Keeps R (bytesIn array start count) := by
  unfold bytesIn; grind

@[grind ←]
theorem keeps_nothing : Keeps R (nothing s) := keeps_pure

/-- The implementations of a family of methods keep a relation. -/
def Family (R S : Ending → Machine → Machine → Prop) (s : Services) (methods : List (String × String × Native)) :
    Prop := ∀ method ∈ methods, Closes R S (method.2.2 s)

omit [Touching R] in
@[grind ←]
theorem Family.nil : Family R S s [] := fun _ h => nomatch h

omit [Touching R] in
theorem Family.cons {name desc : String} {act : Native} {rest : List (String × String × Native)}
    (ha : Closes R S (act s)) (hr : Family R S s rest) : Family R S s ((name, desc, act) :: rest) := by
  intro method hm
  rcases List.mem_cons.1 hm with rfl | hm
  · exact ha
  · exact hr method hm

/-! ## Objects, classes, strings and throwables -/

@[grind ←]
theorem closes_clone (h : Working R S s) : Closes R S (clone s) := by
  unfold clone
  refine closes_bind keeps_receiver fun r m => ?_
  rw [after_bind_iff, after_objectAt]
  have hcopy : After (allocate (m.objectAt r).clone >>= fun copy => pushRef (some copy)) m
      (fun _ => R .done m) (R .halted m) := by
    refine After.bind_keeps (Tolerant.minor (minor_allocate (fun hm => ?_) fun _ _ _ hm => ?_)) fun _ => keeps_pushRef
    · exact ⟨(hm.objectAt r).owner, (hm.objectAt r).fields, nofun⟩
    · -- the copy holds what the array holds, which is of the same class
      exact hm.held r
  rw [after_bind_iff, after_get]
  split
  · exact closes_bind keeps_classOf (fun _ => closes_throwNew h) m
  · exact hcopy.mono (fun _ _ => .inl) fun _ => .inl

@[grind ←]
theorem closes_await (h : Working R S s) : Closes R S (await s) := by unfold await; grind

theorem family_object (h : Working R S s) : Family R S s object := by
  unfold object
  repeat' apply Family.cons
  all_goals grind

@[grind ←]
theorem closes_primitiveClass (h : Working R S s) : Closes R S (primitiveClass s) := by
  unfold primitiveClass; grind

@[grind ←]
theorem closes_forName (h : Working R S s) : Closes R S (forName s) := by
  unfold forName
  refine closes_bind keeps_localRef fun r => closes_notNull h fun text => ?_
  refine closes_bind keeps_textOf fun name => closes_bind keeps_localInt fun i => ?_
  refine closes_bind keeps_localRef fun r => closes_bind keeps_loaderOf fun l => ?_
  refine closes_bind (h.load _ _).run fun result => ?_
  grind

@[grind ←]
theorem keeps_superclassOf : Keeps R (superclassOf s) := by unfold superclassOf; grind

theorem closes_interfacesOf [Careless R] (h : Working R S s) : Closes R S (interfacesOf s) := by
  unfold interfacesOf
  refine closes_bind keeps_receiverClass fun c => closes_bind keeps_classAt fun k => ?_
  refine closes_orThrow h h.loadBoot fun c => closes_bind keeps_newArray fun array => ?_
  refine closes_bind (keeps_mapM fun _ => keeps_map keeps_mirror) fun mirrors => ?_
  grind

@[grind ←]
theorem keeps_assignable {target source : Option ClassId} : Keeps R (assignable target source) := by
  unfold assignable; grind

@[grind ←]
theorem keeps_typeClass (h : Hosted R s) {c : ClassId} {desc : String} :
    Attempt.Keeps R (typeClass s c desc) := by unfold typeClass; grind

theorem closes_fieldObjects (h : Working R S s) {c : ClassId} {next : List (Option Ref) → M Unit}
    (hn : ∀ l, Closes R S (next l)) {fields : List Field} {made : List (Option Ref)} :
    Closes R S (fieldObjects s c fields made next) := by
  induction fields generalizing made with
  | nil => exact hn _
  | cons f rest ih =>
    unfold fieldObjects
    refine closes_orThrow h (keeps_typeClass h.toHosted) fun type => closes_withNew h fun object => ?_
    refine closes_bind keeps_mirror fun _ => closes_bind keeps_setRefIfPresent fun _ => ?_
    refine closes_bind keeps_intern fun _ => closes_bind keeps_setRefIfPresent fun _ => ?_
    refine closes_bind keeps_mirror fun _ => closes_bind keeps_setRefIfPresent fun _ => ?_
    exact closes_bind keeps_setIntIfPresent fun _ => closes_bind keeps_setIntIfPresent fun _ => ih

theorem closes_declaredFields [Careless R] (h : Working R S s) : Closes R S (declaredFields s) := by
  unfold declaredFields
  refine closes_bind keeps_receiverClass fun c => closes_bind keeps_localInt fun i => ?_
  refine closes_orThrow h h.loadBoot fun arrayClass => closes_bind keeps_classAt fun k => ?_
  refine closes_fieldObjects h fun objects => ?_
  grind

@[grind ←]
theorem keeps_classProperty {p : Class → Bool} : Keeps R (classProperty p s) := by
  unfold classProperty; grind

/-- Natives that load a class of arrays and then fill an array of it keep a relation. -/
structure Filling (R S : Ending → Machine → Machine → Prop) (s : Services) : Prop where
  interfacesOf : Closes R S (interfacesOf s)
  declaredFields : Closes R S (declaredFields s)
  newStringArray : ∀ values, Attempt.Keeps R (Linking.newStringArray s values)

/-- They keep a relation that does not look at what arrays hold, if the operations behind them do. -/
theorem Filling.of_careless [Careless R] (h : Working R S s) : Filling R S s where
  interfacesOf := closes_interfacesOf h
  declaredFields := closes_declaredFields h
  newStringArray _ := Linking.keeps_newStringArray h.toHosted

theorem family_classMethods (h : Working R S s) (hfilling : Filling R S s) : Family R S s classMethods := by
  have hinterfaces := hfilling.interfacesOf
  have hfields := hfilling.declaredFields
  unfold classMethods
  repeat' apply Family.cons
  -- most of these methods throw nothing
  all_goals try exact Keeps.closes (by grind)
  all_goals grind

theorem family_string : Family R S s string := by
  unfold string
  repeat' apply Family.cons
  all_goals grind

@[grind ←]
theorem keeps_fillInStackTrace : Keeps R (fillInStackTrace s) := by
  unfold fillInStackTrace
  refine keeps_bind keeps_receiver fun r => keeps_bind keeps_get fun m => ?_
  exact keeps_bind (keeps_attach nofun) fun _ => keeps_pushRef

@[grind ←]
theorem closes_stackTraceElement (h : Working R S s) : Closes R S (stackTraceElement s) := by
  unfold stackTraceElement
  refine closes_bind keeps_receiver fun r => closes_bind keeps_objectAt fun o => ?_
  refine closes_bind keeps_localInt fun i => ?_
  split
  · grind
  · refine closes_withNew h fun object => ?_
    refine closes_bind keeps_newString fun _ => closes_bind keeps_setRefIfPresent fun _ => ?_
    refine closes_bind keeps_newString fun _ => closes_bind keeps_setRefIfPresent fun _ => ?_
    grind

theorem family_throwable (h : Working R S s) : Family R S s throwable := by
  unfold throwable
  repeat' apply Family.cons
  all_goals grind

/-! ## Loaders, reflection and privileged actions -/

@[grind ←]
theorem closes_findBootstrapClass (h : Working R S s) : Closes R S (findBootstrapClass s) := by
  unfold findBootstrapClass; grind

@[grind ←]
theorem closes_findLoadedClass (h : Working R S s) : Closes R S (findLoadedClass s) := by
  unfold findLoadedClass
  refine closes_bind keeps_localRef fun r => closes_notNull h fun name => closes_bind keeps_localRef fun loader => ?_
  grind

@[grind ←]
theorem closes_defineClass (h : Working R S s) : Closes R S (defineClass s) := by
  unfold defineClass
  refine closes_bind keeps_localRef fun name => closes_bind keeps_localInt fun start => ?_
  refine closes_bind keeps_localInt fun count => closes_bind keeps_localRef fun r => ?_
  refine closes_notNull h fun buffer => closes_bind keeps_inRange fun fits => ?_
  split
  · exact closes_throwNew h
  · have hdefine (expected source : String) (data : List UInt8) : Closes R S (do
        let l ← loaderOf (← localRef 0)
        orThrow s (Linking.defineClass s l expected data source) fun c => do pushRef (some (← mirror c))) := by
      refine closes_bind keeps_localRef fun r => closes_bind keeps_loaderOf fun l => ?_
      exact closes_orThrow h (h.defineClass _ _ _ _) fun c => closes_bind keeps_mirror fun r => keeps_pushRef.closes
    refine closes_bind keeps_bytesIn fun data => closes_bind keeps_textOf fun text => ?_
    refine closes_bind keeps_localRef fun source => ?_
    split
    · exact closes_bind keeps_pure fun source => hdefine _ source data
    · exact closes_bind keeps_textOf fun source => hdefine _ source data

theorem family_classLoader (h : Working R S s) : Family R S s classLoader := by
  unfold classLoader
  repeat' apply Family.cons
  all_goals grind

@[grind ←]
theorem closes_systemPackage (h : Working R S s) : Closes R S (systemPackage s) := by
  unfold systemPackage; grind

theorem family_package (h : Working R S s) : Family R S s package := .cons (closes_systemPackage h) .nil

@[grind ←]
theorem keeps_callerClass : Keeps R (callerClass s) := by unfold callerClass; grind

theorem family_reflection (h : Working R S s) : Family R S s reflection := by
  unfold reflection
  repeat' apply Family.cons
  all_goals grind

theorem family_virtualMachine : Family R S s virtualMachine := .cons keeps_nothing.closes .nil

@[grind ←]
theorem closes_throwWrapped (h : Working R S s) {f : Failure} {r : Ref} : Closes R S (throwWrapped s f r) := by
  unfold throwWrapped
  refine closes_withNew h fun wrapper => closes_bind keeps_classOf fun k => ?_
  split
  · exact closes_throwFailure h
  · exact closes_orThrow h (h.invoke _ _) fun _ => closes_at_once (h.throwObject _)

@[grind ←]
theorem closes_doPrivileged (h : Working R S s) {wrapChecked : Bool} :
    Closes R S (doPrivileged wrapChecked s) := by
  unfold doPrivileged
  refine closes_bind keeps_localRef fun r => closes_notNull h fun action => ?_
  refine closes_bind (Services.keeps_invokeVirtual h.toHosted).run fun result => ?_
  grind

theorem family_accessController (h : Working R S s) : Family R S s accessController := by
  unfold accessController
  repeat' apply Family.cons
  all_goals grind

/-! ## Numbers -/

@[grind ←]
theorem keeps_copyOne : Keeps R (copyOne s) := by unfold copyOne; grind

@[grind ←]
theorem keeps_copyTwo : Keeps R (copyTwo s) := by unfold copyTwo; grind

theorem family_single : Family R S s single := .cons keeps_copyOne.closes (.cons keeps_copyOne.closes .nil)

theorem family_double : Family R S s double := .cons keeps_copyTwo.closes (.cons keeps_copyTwo.closes .nil)

theorem family_strictMath : Family R S s strictMath := by
  intro method hm
  simp only [strictMath, List.mem_append, List.mem_map] at hm
  rcases hm with ⟨_, _, rfl⟩ | ⟨_, _, rfl⟩ <;> grind

/-! ## Threads -/

@[grind ←]
theorem keeps_threadAt {id : Nat} : Keeps R (threadAt id) := by unfold threadAt; grind

@[grind ←]
theorem keeps_swapInterrupted {id : Nat} {v : Bool} : Keeps R (swapInterrupted id v) := by
  unfold swapInterrupted
  refine keeps_bind keeps_threadAt fun t => ?_
  exact keeps_bind (keeps_minor fun _ => .ofSame rfl rfl) fun _ => keeps_pure

@[grind ←]
theorem closes_startThread (h : Working R S s) : Closes R S (startThread s) := by unfold startThread; grind

@[grind ←]
theorem closes_sleep (h : Working R S s) : Closes R S (sleep s) := by unfold sleep; grind

@[grind ←]
theorem keeps_isInterrupted : Keeps R (isInterrupted s) := by unfold isInterrupted; grind

theorem family_thread (h : Working R S s) : Family R S s thread := by
  unfold thread
  repeat' apply Family.cons
  all_goals grind

/-! ## The system -/

@[grind ←]
theorem careless_copyFitting {R : Ending → Machine → Machine → Prop} [Careless R] {target : Ref} {component : ClassId}
    {i : Nat} {values : List (Option Ref)} : Keeps R (copyFitting target component i values) := by
  induction values generalizing i with
  | nil => exact keeps_pure
  | cons v rest ih =>
    unfold copyFitting
    cases v <;> grind

/-- References to objects that are there are copied while they fit. -/
theorem minor_copyFitting {m : Machine} {target : Ref} {array component : ClassId} (htarget : m.Refers target array)
    (hcomponent : (m.classAt array).component = some component) {i : Nat} {values : List (Option Ref)}
    (hvalues : ∀ v, some v ∈ values → v.index < m.heap.size) :
    After (copyFitting target component i values) m (fun _ => Minor m) (Minor m) := by
  induction values generalizing i m with
  | nil => exact .refl m
  | cons v rest ih =>
    have hrest {m' : Machine} (h : Minor m m') :
        After (copyFitting target component (i + 1) rest) m' (fun _ => Minor m) (Minor m) := by
      refine (ih (h.persists.refers htarget) (h.persists.component hcomponent) fun v hv => ?_).mono
        (fun _ _ => h.trans) fun _ => h.trans
      exact Nat.lt_of_lt_of_le (hvalues v (List.mem_cons_of_mem _ hv)) h.persists.heap
    cases v with
    | none =>
      change After (do storeElement target .ref i (.ofRef none) .null; copyFitting target component (i + 1) rest) m _ _
      exact (minor_storeElement fun _ _ hv => by cases hv).bind fun _ m' h => hrest h
    | some v =>
      rw [copyFitting, after_bind_iff]
      refine (after_isInstance v component m).mono ?_ ?_
      · rintro fits m ⟨rfl, -, rfl⟩
        dsimp only
        split
        · next hfits =>
          have hvalid := hvalues v List.mem_cons_self
          have hk : (m.classAt (m.classOf target)).component = some component := htarget.owner ▸ hcomponent
          exact (minor_storeFitting rfl hvalid hk hfits).bind fun _ m' h => hrest h
        · exact .refl m
      · rintro _ rfl
        exact .refl _

theorem mem_of_extract {α : Type} {a : Array α} {start stop : Nat} {x : α} (h : x ∈ a.extract start stop) : x ∈ a := by
  rw [← Array.mem_toList_iff, Array.toList_extract, List.extract_eq_take_drop] at h
  exact Array.mem_toList_iff.1 (List.mem_of_mem_drop (List.mem_of_mem_take h))

theorem mem_copyRange {α : Type} {a b : Array α} {start place count : Nat} {x : α}
    (h : x ∈ copyRange a start b place count) : x ∈ a ∨ x ∈ b := by
  simp only [copyRange, Array.mem_append] at h
  rcases h with (h | h) | h
  · exact .inr (mem_of_extract h)
  · exact .inl (mem_of_extract h)
  · exact .inr (mem_of_extract h)

/-- Elements that are not both references become no references. -/
theorem of_copyRange? {a b : Elements} {start place count : Nat} {refs : Array (Option Ref)}
    (h : a.copyRange? start b place count = some (.refs refs)) : ∃ a' b', a = .refs a' ∧ b = .refs b' := by
  cases a <;> cases b <;> cases h
  exact ⟨_, _, rfl, rfl⟩

/-- A range of references is copied at once into an array whose component is the same or a supertype. -/
theorem minor_copyAll {m : Machine} {source target : Ref} {a b : Array (Option Ref)} {start place count : Nat}
    (ha : (m.objectAt source).elements = some (.refs a)) (hb : (m.objectAt target).elements = some (.refs b))
    (h : (m.classAt (m.classOf source)).component = none ∨
      ∃ t c, (m.classAt (m.classOf source)).component = some c ∧ (m.classAt (m.classOf target)).component = some t ∧
        m.isAssignable t c = true) :
    After (setElements target (.refs (copyRange a start b place count))) m (fun _ => Minor m) (Minor m) := by
  refine minor_setElements fun f hf hc hm refs hrefs v hv => ?_
  cases hrefs
  rcases mem_copyRange hv with hsource | htarget
  · have hadmits := hm.held source a ha v hsource
    rcases h with hnone | ⟨t, c, hc', ht, hassignable⟩
    · -- a class without component admits nothing
      obtain ⟨k, hk, -⟩ := hadmits.fits
      rw [hc.part hadmits.there Class.component fun _ => rfl, hnone] at hk
      cases hk
    · exact hadmits.widen hf hc hc' ht hassignable
  · exact hm.held target b hb v htarget

@[grind ←]
theorem closes_copyElements (h : Working R S s) {source target : Ref} {start place count : Nat} :
    Closes R S (copyElements s source target start place count) := by
  intro m
  have hclosing {act : M Unit} (hact : After act m (fun _ => Minor m) (Minor m)) :
      After act m (fun _ => Closing R S .done m) (Closing R S .halted m) :=
    hact.mono (fun _ _ hm => .inl (Tolerant.minor hm)) fun _ hm => .inl (Tolerant.minor hm)
  rw [copyElements, after_bind_iff, after_objectAt, after_bind_iff, after_objectAt]
  split
  · next a b ha hb =>
    rw [after_bind_iff, after_classOf, after_bind_iff, after_classOf]
    cases ht : (m.classAt (m.classOf target)).component with
    | none => cases hs : (m.classAt (m.classOf source)).component with
      | none => exact hclosing (minor_copyAll ha hb (.inl hs))
      | some c => exact .inl (Tolerant.minor (.refl m))
    | some t => cases hs : (m.classAt (m.classOf source)).component with
      | none => exact .inl (Tolerant.minor (.refl m))
      | some c =>
        dsimp only
        rw [after_bind_iff]
        refine (after_assignable t c m).mono ?_ ?_
        rotate_left
        · rintro _ rfl
          exact .inl (Tolerant.minor (.refl _))
        rintro bulk m ⟨rfl, -, rfl⟩
        split
        · next hassignable => exact hclosing (minor_copyAll ha hb (.inr ⟨t, c, hs, ht, hassignable⟩))
        · have hcopy : After (copyFitting target t place (a.extract start (start + count)).toList) m (fun _ => Minor m)
              (Minor m) := by
            refine After.minor_of_judged (careless_copyFitting (R := fun _ => Slight) m) fun ⟨f, _, _, hm⟩ => ?_
            refine minor_copyFitting ⟨Machine.lt_of_elements hb, rfl⟩ ht fun v hv => ?_
            exact (hm.held source a ha v (mem_of_extract (Array.mem_toList_iff.1 hv))).valid
          have hstart : After (copyFitting target t place (a.extract start (start + count)).toList) m (fun _ => R .done m)
              (R .halted m) := hcopy.mono (fun _ _ => Tolerant.minor) fun _ => Tolerant.minor
          exact hstart.then fun all => by cases all <;> grind
  · next a b hne ha hb =>
    cases hchanged : a.copyRange? start b place count with
    | none => exact .inl (Tolerant.minor (.refl m))
    | some changed =>
      refine hclosing (minor_setElements fun _ _ _ _ refs hrefs => ?_)
      obtain ⟨a', b', rfl, rfl⟩ := of_copyRange? (hrefs ▸ hchanged)
      exact absurd rfl (hne a' b' rfl)
  · exact .inl (Tolerant.minor (.refl m))

@[grind ←]
theorem closes_arraycopy (h : Working R S s) : Closes R S (arraycopy s) := by
  unfold arraycopy
  refine closes_bind keeps_localRef fun source => closes_bind keeps_localInt fun start => ?_
  refine closes_bind keeps_localRef fun target => closes_bind keeps_localInt fun place => ?_
  refine closes_bind keeps_localInt fun count => ?_
  split
  · refine closes_bind keeps_objectAt fun a => closes_bind keeps_objectAt fun b => ?_
    split
    · exact closes_throwNew h
    · refine closes_bind keeps_classOf fun sc => closes_bind keeps_classOf fun tc => ?_
      refine closes_bind keeps_classIdOf fun _ => closes_bind keeps_classIdOf fun _ => ?_
      grind
  · exact closes_throwNull h

theorem keeps_setProperties (h : Hosted R s) {object : Ref} {properties : List (String × String)} :
    Attempt.Keeps R (setProperties s object properties) := by
  induction properties with
  | nil => exact Attempt.keeps_pure
  | cons p rest ih =>
    refine Attempt.keeps_bind (Attempt.keeps_lift keeps_newString) fun k => ?_
    refine Attempt.keeps_bind (Attempt.keeps_lift keeps_newString) fun v => ?_
    exact Attempt.keeps_bind (Services.keeps_invokeVirtual h) fun _ => ih

@[grind ←]
theorem closes_initProperties (h : Working R S s) : Closes R S (initProperties s) := by
  unfold initProperties
  refine closes_bind keeps_localRef fun r => closes_notNull h fun object => closes_bind keeps_get fun m => ?_
  exact closes_orThrow h (keeps_setProperties h.toHosted) fun _ => keeps_pushRef.closes

@[grind ←]
theorem keeps_setStream {name desc : String} : Keeps R (setStream name desc s) := by
  unfold setStream
  refine keeps_bind keeps_activation fun a => keeps_bind keeps_localRef fun v => ?_
  refine keeps_bind keeps_classAt fun k => ?_
  split
  · split
    · refine keeps_updateClass (fun _ => rfl) (fun k => ?_) (fun _ => rfl) fun _ => rfl
      rw [Class.plan, Array.size_setIfInBounds]
      rfl
    · exact keeps_pure
  · exact keeps_pure

@[grind ←]
theorem keeps_now : Keeps R now := by unfold now; grind

theorem family_system (h : Working R S s) : Family R S s system := by
  unfold system
  repeat' apply Family.cons
  all_goals grind

theorem family_runtime : Family R S s runtime := by
  unfold runtime
  repeat' apply Family.cons
  all_goals grind

theorem family_shutdown : Family R S s shutdown := by
  unfold shutdown
  repeat' apply Family.cons
  all_goals grind

/-! ## Direct access -/

omit [Touching R] in
@[grind ←]
theorem keeps_insideArray [Tolerant R] {r : Ref} {kind : ElementKind} {i : Int64} : Keeps R (insideArray r kind i) := by
  unfold insideArray; grind

@[grind ←]
theorem keeps_readDirect {r : Ref} {kind : DirectKind} {offset : Int64} :
    Keeps R (readDirect r kind offset) := by unfold readDirect; grind

theorem minor_noteUnchecked (m : Machine) (kind : DirectKind) :
    Minor m { m with unchecked := m.unchecked || kind = .ref } := by
  have hstocks (f : Machine) : Stocks f m { m with unchecked := m.unchecked || kind = .ref } :=
    .ofSame (fun _ => rfl) rfl (fun _ => rfl) rfl rfl rfl rfl fun h => by simp [h]
  have hstill : Still m { m with unchecked := m.unchecked || kind = .ref } :=
    ⟨.ofSame rfl rfl rfl rfl, .ofSame (List.suffix_refl _) rfl rfl rfl rfl rfl rfl rfl⟩
  exact .ofStocks (.ofStill hstill (hstocks m).persists rfl rfl rfl rfl rfl) hstocks

@[grind ←]
theorem keeps_noteUnchecked {kind : DirectKind} : Keeps R (noteUnchecked kind) :=
  keeps_minor fun m => minor_noteUnchecked m kind

/-- After a reference was stored without a test nothing can be said of what arrays hold. -/
theorem Machine.not_judged_of_unchecked {m : Machine} (h : m.unchecked = true) : ¬ m.Judged := by
  rintro ⟨f, hf, hc, -⟩
  have hchecked := hf.checked
  rw [hc.unchecked h] at hchecked
  cases hchecked

/-- An array in which a reference is stored directly was noted. -/
theorem minor_storeDirect {m : Machine} {r : Ref} {kind : DirectKind} {i : Nat} {lo hi : Slot}
    (h : kind = .ref → m.unchecked = true) :
    After (storeElement r kind.element i lo hi) m (fun _ => Minor m) (Minor m) := by
  refine minor_storeElement fun hkind _ _ f hf hc hm => ?_
  refine absurd ⟨f, hf, hc, hm⟩ (Machine.not_judged_of_unchecked (h ?_))
  cases kind <;> first | rfl | cases hkind

theorem minor_writeDirect {r : Ref} {kind : DirectKind} {offset : Int64} {lo hi : Slot} :
    Keeps (fun _ => Minor) (writeDirect r kind offset lo hi) := by
  intro m
  have hnote := minor_noteUnchecked m kind
  unfold writeDirect
  rw [after_bind_iff]
  change After _ { m with unchecked := m.unchecked || kind = .ref } _ _
  rw [after_bind_iff, after_objectAt]
  split
  · refine .bind_minor keeps_insideArray (fun i m' h => ?_) fun _ => hnote.trans
    refine (minor_storeDirect fun hkind => h.persists.unchecked ?_).mono (fun _ _ => (hnote.trans h).trans)
      fun _ => (hnote.trans h).trans
    simp [hkind]
  · refine ((?_ : Keeps (fun _ => Minor) _) _).mono (fun _ _ => hnote.trans) fun _ => hnote.trans
    cases kind <;> grind

@[grind ←]
theorem keeps_writeDirect {r : Ref} {kind : DirectKind} {offset : Int64} {lo hi : Slot} :
    Keeps R (writeDirect r kind offset lo hi) := minor_writeDirect.mono Tolerant.minor

@[grind ←]
theorem closes_getDirect (h : Working R S s) {kind : DirectKind} : Closes R S (getDirect kind s) := by
  unfold getDirect; grind

@[grind ←]
theorem keeps_argument {kind : DirectKind} {i : Nat} : Keeps R (argument kind i) := by
  unfold argument; grind

@[grind ←]
theorem closes_putDirect (h : Working R S s) {kind : DirectKind} : Closes R S (putDirect kind s) := by
  unfold putDirect; grind

@[grind ←]
theorem closes_swapDirect (h : Working R S s) {kind : DirectKind} : Closes R S (swapDirect kind s) := by
  unfold swapDirect
  refine closes_bind keeps_localRef fun r => closes_bind keeps_localLong fun offset => ?_
  refine closes_bind keeps_argument fun old => closes_bind keeps_argument fun new => ?_
  grind

@[grind ←]
theorem closes_allocateMemory (h : Working R S s) : Closes R S (allocateMemory s) := by
  unfold allocateMemory
  refine closes_bind keeps_localLong fun n => ?_
  split
  · exact closes_throwNew h
  · split
    · exact keeps_throw.closes
    · refine closes_bind keeps_get fun m => ?_
      exact closes_bind (keeps_minor fun _ => .ofSame rfl rfl) fun _ => keeps_pushLong.closes

@[grind ←]
theorem closes_withMemory (h : Working R S s) {count : Nat} {next : Int64 → Nat → M Unit}
    (hn : ∀ base offset, Closes R S (next base offset)) : Closes R S (withMemory s count next) := by
  unfold withMemory; grind

@[grind ←]
theorem closes_poke (h : Working R S s) {bytes : List UInt8} : Closes R S (poke s bytes) :=
  closes_withMemory h fun _ _ => Keeps.closes (keeps_minor fun _ => .ofSame rfl rfl)

@[grind ←]
theorem closes_peekMemory (h : Working R S s) {count : Nat} {next : List UInt8 → M Unit}
    (hn : ∀ bytes, Closes R S (next bytes)) : Closes R S (peekMemory s count next) := by
  unfold peekMemory; grind

@[grind ←]
theorem keeps_freeMemory : Keeps R (freeMemory s) :=
  keeps_bind keeps_localLong fun _ => keeps_minor fun _ => .ofSame rfl rfl

theorem family_direct (h : Working R S s) : Family R S s direct := by
  unfold direct
  repeat' apply Family.cons
  all_goals grind

/-! ## Files -/

@[grind ←]
theorem closes_throwIO (h : Working R S s) {text : String} : Closes R S (throwIO s text) := closes_throwNew h

@[grind ←]
theorem keeps_descriptorOf : Keeps R descriptorOf := by unfold descriptorOf; grind

@[grind ←]
theorem keeps_fileOf {d : Ref} : Keeps R (fileOf d) := by unfold fileOf; grind

@[grind ←]
theorem keeps_setFile {d : Ref} {file : Option FileHandle} : Keeps R (setFile d file) :=
  keeps_attach fun l => by cases file <;> nofun

@[grind ←]
theorem closes_openStream (h : Working R S s) {mode : OpenMode} : Closes R S (openStream mode s) := by
  unfold openStream
  refine closes_bind keeps_localRef fun r => closes_notNull h fun name => closes_bind keeps_textOf fun path => ?_
  refine closes_bind keeps_get fun m => ?_
  split
  · exact closes_throwNew h
  · refine closes_bind keeps_stored fun _ => ?_
    grind

@[grind ←]
theorem keeps_closeStream : Keeps R (closeStream s) := by unfold closeStream; grind

@[grind ←]
theorem keeps_streamOf : Keeps R streamOf := by unfold streamOf; grind

@[grind ←]
theorem closes_throwClosed (h : Working R S s) : Closes R S (throwClosed s) := closes_throwIO h

@[grind ←]
theorem closes_writeStream (h : Working R S s) {stream : Stream} {bytes : List UInt8} :
    Closes R S (writeStream s stream bytes) := by
  unfold writeStream
  split
  · split
    · exact closes_throwIO h
    · refine closes_bind keeps_get fun m => ?_
      exact closes_bind keeps_stored fun _ => keeps_setFile.closes
  · exact keeps_writeOut.closes
  · exact keeps_writeErr.closes
  · exact closes_throwClosed h

@[grind ←]
theorem closes_writeBytes (h : Working R S s) : Closes R S (writeBytes s) := by
  unfold writeBytes
  refine closes_bind keeps_localInt fun start => closes_bind keeps_localInt fun count => ?_
  grind

/-- Bytes were read, or an exception was thrown. -/
theorem settles_readStream (h : Working R S s) {count : Nat} :
    Settles R S (readStream s count) (·.isSome) := by
  unfold readStream
  refine .bind keeps_streamOf fun stream => ?_
  split
  · refine .bind keeps_get fun m => ?_
    dsimp only
    split
    · exact .ended (closes_throwIO h) nofun
    · split
      · exact .ended (closes_throwIO h) nofun
      · exact .bind keeps_setFile fun _ => .of_keeps keeps_pure
  · refine .bind keeps_get fun m => .bind (keeps_minor fun _ => .ofSame rfl rfl) fun _ => ?_
    exact .of_keeps keeps_pure
  · exact .ended (closes_throwClosed h) nofun

@[grind ←]
theorem closes_readByte (h : Working R S s) : Closes R S (readByte s) := by
  unfold readByte
  refine (settles_readStream h).closes_some (fun bytes => ?_) rfl
  cases bytes with
  | nil => exact keeps_pushInt.closes
  | cons b rest => exact keeps_pushInt.closes

@[grind ←]
theorem closes_readBytes (h : Working R S s) : Closes R S (readBytes s) := by
  unfold readBytes
  refine closes_bind keeps_localInt fun start => closes_bind keeps_localInt fun count => ?_
  refine closes_bind keeps_localRef fun r => closes_notNull h fun buffer => ?_
  refine closes_bind keeps_inRange fun fits => ?_
  split
  · exact closes_throwNew h
  · split
    · exact keeps_pushInt.closes
    · refine (settles_readStream h).closes_some (fun bytes => ?_) rfl
      cases bytes with
      | nil => exact keeps_pushInt.closes
      | cons b rest =>
        refine closes_bind keeps_bytesOf fun old => closes_bind (keeps_setElements nofun) fun _ => ?_
        exact keeps_pushInt.closes

@[grind ←]
theorem keeps_available : Keeps R (available s) := by unfold available; grind

theorem family_fileOutput (h : Working R S s) : Family R S s fileOutput := by
  unfold fileOutput
  repeat' apply Family.cons
  all_goals grind

theorem family_fileInput (h : Working R S s) : Family R S s fileInput := by
  unfold fileInput
  repeat' apply Family.cons
  all_goals grind

@[grind ←]
theorem closes_withPath (h : Working R S s) {file : Option Ref} {next : String → M Unit}
    (hn : ∀ path, Closes R S (next path)) : Closes R S (withPath s file next) := by unfold withPath; grind

theorem family_fileSystem (h : Working R S s) : Family R S s fileSystem := by
  unfold fileSystem
  repeat' apply Family.cons
  all_goals grind

theorem closes_metaMembers (h : Working R S s) (hfilling : Filling R S s) : Closes R S (metaMembers s) := by
  have harray := hfilling.newStringArray
  unfold metaMembers
  refine closes_bind keeps_receiver fun r => closes_bind keeps_hasField fun named => ?_
  split
  · exact keeps_pushRef.closes
  · refine closes_bind keeps_getRefField fun r => closes_bind keeps_textOf fun path => ?_
    refine closes_bind keeps_onStorage fun result => ?_
    grind

theorem family_archiveFile (h : Working R S s) (hfilling : Filling R S s) : Family R S s archiveFile :=
  .cons (closes_metaMembers h hfilling) .nil

end Native

/-! ## The table -/

namespace Natives

open Native

omit [Touching R] in
theorem lawful_register {n : Natives} {owner name desc : String} {act : Native} (hn : Execute.Lawful R S n s)
    (ha : Closes R S (act s)) : Execute.Lawful R S (n.register owner name desc act) s := by
  intro owner' name' desc' act' hact
  rw [find?, register, Std.HashMap.getElem?_insert] at hact
  split at hact
  · cases hact
    exact ha
  · exact hn owner' name' desc' act' hact

omit [Touching R] in
theorem lawful_registerAll {n : Natives} {owner : String} {methods : List (String × String × Native)}
    (hn : Execute.Lawful R S n s) (hm : Family R S s methods) :
    Execute.Lawful R S (n.registerAll owner methods) s := by
  induction methods generalizing n with
  | nil => exact hn
  | cons method rest ih =>
    exact ih (lawful_register hn (hm method List.mem_cons_self)) fun m h => hm m (List.mem_cons_of_mem _ h)

omit [Touching R] in
theorem lawful_foldl {n : Natives} {families : List (String × List (String × String × Native))}
    (hn : Execute.Lawful R S n s) (hf : ∀ family ∈ families, Family R S s family.2) :
    Execute.Lawful R S (families.foldl (fun n (owner, methods) => n.registerAll owner methods) n) s := by
  induction families generalizing n with
  | nil => exact hn
  | cons family rest ih =>
    exact ih (lawful_registerAll hn (hf family List.mem_cons_self)) fun f h => hf f (List.mem_cons_of_mem _ h)

/-- Every native method of the machine keeps a relation that the operations behind it keep, and that is kept where arrays
are filled. -/
theorem lawful_standard (h : Working R S s) (hfilling : Filling R S s) : Execute.Lawful R S standard s := by
  refine lawful_foldl ?_ ?_
  · intro owner name desc act hact
    simp [find?] at hact
  · intro family hf
    simp only [families, List.mem_cons, List.not_mem_nil, or_false] at hf
    rcases hf with rfl | rfl | rfl | rfl | rfl | rfl | rfl | rfl | rfl | rfl | rfl | rfl | rfl | rfl | rfl |
      rfl | rfl | rfl | rfl | rfl | rfl
    · exact family_object h
    · exact family_classMethods h hfilling
    · exact family_system h
    · exact family_single
    · exact family_double
    · exact family_strictMath
    · exact family_string
    · exact family_throwable h
    · exact family_thread h
    · exact family_runtime
    · exact family_shutdown
    · exact family_classLoader h
    · exact family_package h
    · exact family_direct h
    · exact family_virtualMachine
    · exact family_reflection h
    · exact family_accessController h
    · exact family_fileOutput h
    · exact family_fileInput h
    · exact family_fileSystem h
    · exact family_archiveFile h hfilling

end Natives

end JavaMachine

/-! ## What the table holds -/

namespace JavaMachine.Natives

/-- An implementation with the class, the name and the descriptor of its method. -/
abbrev Entry := String × String × String × Native

/-- The key of an entry. -/
def Entry.key (e : Entry) : String := Natives.key e.1 e.2.1 e.2.2.1

/-- The implementations that the machine provides, in the order in which they are registered. -/
def entries : List Entry := families.flatMap fun f => f.2.map fun e => (f.1, e)

theorem find?_register (n : Natives) (e : Entry) (owner name desc : String) :
    (n.register e.1 e.2.1 e.2.2.1 e.2.2.2).find? owner name desc =
      if e.key == key owner name desc then some e.2.2.2 else n.find? owner name desc := by
  rw [find?, register]
  exact Std.HashMap.getElem?_insert

theorem find?_registered (n : Natives) (es : List Entry) (owner name desc : String) :
    (es.foldl (fun n e => n.register e.1 e.2.1 e.2.2.1 e.2.2.2) n).find? owner name desc =
      ((es.reverse.find? (·.key == key owner name desc)).map (·.2.2.2)).or (n.find? owner name desc) := by
  induction es generalizing n with
  | nil => simp
  | cons e rest ih =>
    rw [List.foldl_cons, ih, List.reverse_cons, List.find?_append, find?_register]
    cases rest.reverse.find? (·.key == key owner name desc) with
    | some later => rfl
    | none => by_cases h : e.key == key owner name desc <;> simp [h]

theorem standard_eq : standard = entries.foldl (fun n e => n.register e.1 e.2.1 e.2.2.1 e.2.2.2) {} := by
  rw [entries, List.foldl_flatMap]
  simp only [List.foldl_map]
  rfl

/-- The last implementation that is registered under the key of a method is that of the method. -/
theorem find?_standard {owner name desc : String} {act : Native} (i : Nat)
    (hkey : entries.reverse.findIdx? (·.key == key owner name desc) = some i)
    (hact : entries.reverse[i]?.map (·.2.2.2) = some act) : standard.find? owner name desc = some act := by
  obtain ⟨hlt, hfound, hbefore⟩ := List.findIdx?_eq_some_iff_getElem.1 hkey
  have hfind : entries.reverse.find? (·.key == key owner name desc) = some entries.reverse[i] :=
    List.find?_eq_some_iff_getElem.2 ⟨hfound, i, hlt, rfl, fun j hj => by simpa using hbefore j hj⟩
  rw [List.getElem?_eq_getElem hlt] at hact
  rw [standard_eq, find?_registered, hfind, hact]
  rfl

end JavaMachine.Natives
