import JavaMachine.Machine.Boot
import JavaMachine.Proofs.Initialization.Interpreter

/-!
What the outside asks of a machine: to start, to run a program, and to load, define, initialize and call. A machine `Occurs`
after a request or between two steps.

Main results: every request keeps a relation that the operations behind requests keep, whether it halts or not
(`Request.keeps_perform`), so requests keep the chronicle and the frames (`Hosted.answering`); what everything keeps holds of
every machine that is visited (`Watched.Visited.keeps`).
-/

namespace JavaMachine

open M

variable {s : Services}

/-- The operations that requests are built from keep a relation, in which a halt is an end like any other. -/
structure Answering (R : Ending → Machine → Machine → Prop) (s : Services) : Prop extends Hosted R s where
  bootstrap : Attempt.Keeps R (Boot.bootstrap s)
  newStringArray : ∀ values, Attempt.Keeps R (Linking.newStringArray s values)
  define : ∀ l data, Attempt.Keeps R (Linking.define s l data)
  giveWay : Keeps R (Threads.giveWay s)
  halted : ∀ {a b}, R .halted a b → R .done a b

/-! ## Starting -/

theorem Services.keeps_invokeStatic {R : Ending → Machine → Machine → Prop} [Tolerant R] (h : Hosted R s)
    {c : ClassId} {name desc : String} {args : List Slot} :
    Attempt.Keeps R (s.invokeStatic c name desc args) := by
  unfold invokeStatic invokeVirtual.missing
  grind

namespace Boot

variable {R : Ending → Machine → Machine → Prop} [Tolerant R]

omit [Tolerant R] in
theorem keeps_bootstrap [Careless R] (h : Hosted R s) (hstrings : Attempt.Keeps R (Linking.ensureStringClasses s)) :
    Attempt.Keeps R (bootstrap s) := by
  unfold bootstrap
  refine Attempt.keeps_inContext (Attempt.keeps_bind h.loadBoot fun _ => ?_)
  refine Attempt.keeps_bind h.loadBoot fun c => ?_
  exact Attempt.keeps_bind (Attempt.keeps_modify fun m => Careless.slight (.setClassClass m _)) fun _ => hstrings

theorem keeps_optionalClass (h : Hosted R s) {name : String} : Attempt.Keeps R (optionalClass s name) := by
  unfold optionalClass
  refine Attempt.keeps_tryCatch (Attempt.keeps_map h.loadBoot) fun f => ?_
  split
  · split
    · exact Attempt.keeps_pure
    · exact Attempt.keeps_throw
  · exact Attempt.keeps_throw

theorem keeps_construct (h : Hosted R s) {object : Ref} {desc : String} {args : List Slot} :
    Attempt.Keeps R (construct s object desc args) := by
  unfold construct
  refine Attempt.keeps_bind (Attempt.keeps_lift keeps_classOf) fun k => ?_
  split
  · exact Attempt.keeps_discard (h.invoke _ _)
  · exact Attempt.keeps_pure

theorem keeps_mainGroup (h : Hosted R s) {c : ClassId} : Attempt.Keeps R (mainGroup s c) := by
  have hconstruct := @keeps_construct s R _ h
  unfold mainGroup
  grind

theorem keeps_mainThread (h : Hosted R s) {groupClass threadClass : ClassId} :
    Attempt.Keeps R (mainThread s groupClass threadClass) := by
  have hconstruct := @keeps_construct s R _ h
  unfold mainThread
  refine Attempt.keeps_bind (h.initClass _) fun _ => Attempt.keeps_bind (h.initClass _) fun _ => ?_
  refine Attempt.keeps_bind (keeps_mainGroup h) fun group => ?_
  refine Attempt.keeps_bind (Attempt.keeps_lift keeps_newObject) fun thread => ?_
  refine Attempt.keeps_bind (Attempt.keeps_lift (keeps_attach nofun)) fun _ => ?_
  refine Attempt.keeps_bind (Attempt.keeps_lift keeps_setIntIfPresent) fun _ => ?_
  refine Attempt.keeps_bind (Attempt.keeps_minor fun _ => .ofSame rfl rfl) fun _ => ?_
  grind

theorem keeps_createMainThread (h : Hosted R s) : Attempt.Keeps R (createMainThread s) := by
  unfold createMainThread
  refine Attempt.keeps_bind (keeps_optionalClass h) fun groupClass => ?_
  split
  · exact Attempt.keeps_pure
  · refine Attempt.keeps_bind (keeps_optionalClass h) fun threadClass => ?_
    split
    · exact Attempt.keeps_pure
    · exact keeps_mainThread h

theorem keeps_startSystem (h : Hosted R s) : Attempt.Keeps R (startSystem s) := by
  unfold startSystem
  refine Attempt.keeps_bind (keeps_optionalClass h) fun c => ?_
  split
  · exact Attempt.keeps_pure
  · refine Attempt.keeps_bind (Attempt.keeps_inContext (h.initClass _)) fun _ => ?_
    refine Attempt.keeps_bind (Attempt.keeps_lift keeps_classAt) fun k => ?_
    split
    · split
      · exact Attempt.keeps_inContext (Attempt.keeps_discard (h.invoke _ _))
      · exact Attempt.keeps_pure
    · exact Attempt.keeps_pure

theorem keeps_startLoader (h : Hosted R s) : Attempt.Keeps R (startLoader s) := by
  unfold startLoader
  refine Attempt.keeps_bind (keeps_optionalClass h) fun c => ?_
  split
  · exact Attempt.keeps_pure
  · refine Attempt.keeps_bind (Attempt.keeps_lift keeps_classAt) fun k => ?_
    split
    · refine Attempt.keeps_bind (Attempt.keeps_inContext (Services.keeps_invokeStatic h)) fun result => ?_
      split
      · exact Attempt.keeps_minor fun _ => .ofSame rfl rfl
      · exact Attempt.keeps_attemptLift keeps_outside
    · exact Attempt.keeps_pure

omit [Tolerant R] in
/-- A halt that is made a failure is an end like any other. -/
theorem keeps_guarded (halted : ∀ {a b}, R .halted a b → R .done a b) {α : Type} {act : Attempt α}
    (h : Attempt.Keeps R act) : Keeps R (guarded act) := by
  intro m
  have hact := h m
  unfold After guarded at *
  cases hr : act.run m with
  | ok r m' =>
    rw [hr] at hact
    exact hact
  | error e m' =>
    rw [hr] at hact
    exact halted hact

theorem keeps_start (h : Answering R s) : Keeps R (start s) := by
  unfold start
  refine keeps_bind keeps_get fun m => ?_
  split
  · exact keeps_pure
  · refine keeps_guarded h.halted ?_
    refine Attempt.keeps_bind (Attempt.keeps_inContext (keeps_createMainThread h.toHosted)) fun _ => ?_
    refine Attempt.keeps_bind (keeps_startSystem h.toHosted) fun _ => ?_
    refine Attempt.keeps_bind Attempt.keeps_get fun m => ?_
    have hstarted : Attempt.Keeps R (modify fun m => { m with started := true }) :=
      Attempt.keeps_minor fun _ => .ofSame rfl rfl
    split
    · exact Attempt.keeps_bind (keeps_startLoader h.toHosted) fun _ => hstarted
    · exact hstarted

/-! ## Running -/

theorem keeps_reporting {α : Type} {act : Attempt α} (h : Attempt.Keeps R act) :
    Attempt.Keeps R (reporting act) := by
  unfold reporting Threads.reportUncaught
  grind

theorem keeps_mainMethod {c : ClassId} {className : String} : Attempt.Keeps R (mainMethod c className) := by
  unfold mainMethod
  grind

theorem keeps_awaitThreads (h : Answering R s) : Attempt.Keeps R (awaitThreads s) := by
  unfold awaitThreads
  refine Attempt.keeps_bind (Attempt.keeps_lift h.giveWay) fun _ => ?_
  grind

theorem keeps_runMain (h : Answering R s) (className : String) (args : List String) :
    Keeps R (runMain s className args) := by
  unfold runMain
  refine keeps_guarded h.halted (Attempt.keeps_bind Attempt.keeps_get fun m => ?_)
  refine Attempt.keeps_bind (Attempt.keeps_lift keeps_loaderOf) fun l => ?_
  refine Attempt.keeps_bind (Attempt.keeps_inContext (h.load _ _)) fun c => ?_
  refine Attempt.keeps_bind keeps_mainMethod fun method => ?_
  refine Attempt.keeps_bind (h.newStringArray args) fun array => ?_
  refine Attempt.keeps_bind (keeps_reporting (h.initClass _)) fun _ => ?_
  exact Attempt.keeps_bind (keeps_reporting (h.invoke _ _)) fun _ => keeps_awaitThreads h

end Boot

/-! ## Requests -/

/-- What the outside asks of a machine. -/
inductive Request where
  | bootstrap
  | start
  | runMain (className : String) (args : List String)
  | awaitThreads
  | load (loader : Nat) (name : String)
  | define (loader : Nat) (data : List UInt8)
  | initClass (c : ClassId)
  | invoke (method : Method) (args : List Slot)
  | invokeStatic (c : ClassId) (name desc : String) (args : List Slot)
  | invokeVirtual (receiver : Option Ref) (name desc : String) (args : List Slot)

/-- Does what is asked for; the answer is dropped. -/
def Request.perform (s : Services) : Request → M Unit
  | .bootstrap => discard (Boot.bootstrap s).run
  | .start => discard (Boot.start s)
  | .runMain className args => discard (Boot.runMain s className args)
  | .awaitThreads => discard (Boot.awaitThreads s).run
  | .load loader name => discard (s.load loader name).run
  | .define loader data => discard (Linking.define s loader data).run
  | .initClass c => discard (s.initClass c).run
  | .invoke method args => discard (s.invoke method args).run
  | .invokeStatic c name desc args => discard (s.invokeStatic c name desc args).run
  | .invokeVirtual receiver name desc args => discard (s.invokeVirtual receiver name desc args).run

/-- Every request keeps a relation that the operations behind requests keep. -/
theorem Request.keeps_perform {R : Ending → Machine → Machine → Prop} [Tolerant R] (h : Answering R s)
    (r : Request) : Keeps R (r.perform s) := by
  cases r with
  | bootstrap => exact keeps_map h.bootstrap.run
  | start => exact keeps_map (Boot.keeps_start h)
  | runMain className args => exact keeps_map (Boot.keeps_runMain h className args)
  | awaitThreads => exact keeps_map (Boot.keeps_awaitThreads h).run
  | load loader name => exact keeps_map (h.load loader name).run
  | define loader data => exact keeps_map (h.define loader data).run
  | initClass c => exact keeps_map (h.initClass c).run
  | invoke method args => exact keeps_map (h.invoke method args).run
  | invokeStatic c name desc args => exact keeps_map (Services.keeps_invokeStatic h.toHosted).run
  | invokeVirtual receiver name desc args => exact keeps_map (Services.keeps_invokeVirtual h.toHosted).run

/-- Operations that keep the chronicle and the frames do so behind requests too. -/
theorem Hosted.answering (h : Hosted Served s) : Answering Served s where
  toHosted := h
  bootstrap := Boot.keeps_bootstrap h (Linking.keeps_ensureStringClasses h)
  newStringArray _ := Linking.keeps_newStringArray h
  define := Linking.keeps_define h (Linking.served_publish h)
  giveWay := Threads.keeps_giveWay h
  halted := id

/-! ## Machines that occur -/

/-- What the outside does to a machine beside requests: it makes objects, arrays and strings, puts numbers into arrays, and
asks for mirrors and hash codes. -/
inductive Errand where
  | object (c : ClassId)
  | array (c : ClassId) (n : Int32)
  | numbers (r : Ref) (e : Elements)
  | string (text : String)
  | intern (text : String)
  | strings (texts : List String)
  | mirror (c : ClassId)
  | hash (r : Ref)

/-- Does an errand; what comes of it is dropped. -/
def Errand.perform (s : Services) : Errand → M Unit
  | .object c => discard (newObject c)
  | .array c n => discard (newArray c n)
  | .numbers _ (.refs _) => pure ()
  | .numbers r e => setElements r e
  | .string text => discard (newString text)
  | .intern text => discard (M.intern text)
  | .strings texts => discard (Linking.newStringArray s texts).run
  | .mirror c => discard (M.mirror c)
  | .hash r => discard (identityHash r)

/-- Every errand keeps a relation that new arrays of strings keep. -/
theorem Errand.keeps_perform {R : Ending → Machine → Machine → Prop} [Tolerant R] {s : Services}
    (hstrings : ∀ texts, Attempt.Keeps R (Linking.newStringArray s texts)) (e : Errand) : Keeps R (e.perform s) := by
  cases e with
  | object c => exact keeps_map keeps_newObject
  | array c n => exact keeps_map keeps_newArray
  | numbers r e =>
    cases e with
    | refs => exact keeps_pure
    | _ => exact keeps_setElements nofun
  | string text => exact keeps_map keeps_newString
  | intern text => exact keeps_map keeps_intern
  | strings texts => exact keeps_map (hstrings texts).run
  | mirror c => exact keeps_map keeps_mirror
  | hash r => exact keeps_map keeps_identityHash

theorem left_of_after {α : Type} {act : M α} {m : Machine} {P : Machine → Prop} (h : After act m (fun _ => P) P) :
    P (left (act m)) := by
  unfold After at h
  cases hr : act m with
  | ok v b =>
    rw [hr] at h
    exact h
  | error e b =>
    rw [hr] at h
    exact h

/-- The machine after a request under a watcher, whether it halts or not, with operations at some level. -/
def Machine.performWatched (m : Machine) (look : Machine → Machine) (level : Nat) (r : Request) : Machine :=
  left (r.perform (Watched.services look Natives.standard level) m)

/-- The machines that come about by requests and errands under a watcher. Between them storage and what is read from the
outside may change. -/
inductive Watched.Visited (look : Machine → Machine) (options : Options) : Machine → Prop
  | empty (storage : Storage) (stdin : List UInt8) : Visited look options (Boot.empty options storage stdin)
  | perform {m : Machine} (level : Nat) (r : Request) :
      Visited look options m → Visited look options (m.performWatched look level r)
  | errand {m : Machine} (level : Nat) (e : Errand) :
      Visited look options m → Visited look options (left (e.perform (services look Natives.standard level) m))
  | outside {m : Machine} (storage : Storage) (stdin : List UInt8) :
      Visited look options m → Visited look options { m with storage, stdin }

/-- A machine occurs after a request or an errand, or between two steps, where a watcher that gives a mark to no other
machine is noticed. -/
def Occurs (options : Options) (x : Machine) : Prop :=
  Watched.Visited id options x ∨
    ∃ (mark : Machine → Options) (m : Machine), (∀ y, y ≠ x → mark y = y.options) ∧
      Watched.Visited (fun y => { y with options := mark y }) options m ∧ m.options ≠ options

namespace Watched.Visited

variable {look : Machine → Machine} {options : Options} {m : Machine}

/-- What holds at first and is kept by a relation that everything keeps holds of every machine that is visited. -/
theorem keeps {R : Ending → Machine → Machine → Prop} [Lenient R]
    (h : ∀ level, Answering R (services look Natives.standard level)) {P : Machine → Prop}
    (hempty : ∀ storage stdin, P (Boot.empty options storage stdin)) (hkeep : ∀ a b, R .done a b → P a → P b)
    (hm : Visited look options m) : P m := by
  have hleft {act : M Unit} (hact : Keeps R act) {m : Machine} (ih : P m) : P (left (act m)) :=
    left_of_after ((hact m).mono (fun _ b hb => hkeep m b hb ih) fun b hb => hkeep m b ((h 0).halted hb) ih)
  induction hm with
  | empty storage stdin => exact hempty storage stdin
  | perform level r _ ih => exact hleft (r.keeps_perform (h level)) ih
  | errand level e _ ih => exact hleft (e.keeps_perform (h level).newStringArray) ih
  | @outside m storage stdin _ ih =>
    exact hkeep m _ (Tolerant.trans (Lenient.stored storage) (Tolerant.minor (.ofSame rfl rfl))) ih

end Watched.Visited

/-- What a watcher that interferes with no other machine would be noticed by holds of a machine that occurs. -/
theorem Occurs.induct {options : Options} {x : Machine} {P : Machine → Prop} (h : Occurs options x)
    (hvisited : Watched.Visited id options x → P x)
    (hmarked : ∀ mark : Machine → Options, (∀ y, P y → mark y = y.options) →
      ∀ m, Watched.Visited (fun y => { y with options := mark y }) options m → m.options = options) : P x := by
  rcases h with h | ⟨mark, m, hothers, hm, hnoticed⟩
  · exact hvisited h
  · refine Classical.byContradiction fun hx => hnoticed (hmarked mark (fun y hy => hothers y ?_) m hm)
    rintro rfl
    exact hx hy

end JavaMachine
