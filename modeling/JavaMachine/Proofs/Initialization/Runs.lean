import JavaMachine.Assembler.Source
import JavaMachine.ClassFile.Writer
import JavaMachine.Proofs.Initialization.Requests

/-!
Class initialization over all runs. A machine is `Reachable` if it comes about from an empty one by requests
from outside. Every reachable machine is a chronicle, so its journal tells the state of every class at every
moment of the run; and in every machine that occurs, between two steps too, the frames of initializers are tended
(`Occurs.tended`).

Main results:
* an initializer is pushed at most once (`initializer_pushed_once`);
* an erroneous class stays erroneous, and an initialized class stays initialized until it is given up
  (`settled_until_abandoned`), which can happen (`settled_until_abandoned_reentrant`);
* an initializer runs only after the initialization of the superclass is completed, if that was not in progress
  when the class was claimed, and no frame of that is left then (`superclass_completed_first`); otherwise it may run
  before (`subclass_first_reentrant`).
-/

namespace JavaMachine

open M

/-! ## Reachable machines -/

/-- The machine after a request, whether it halts or not, with operations at some level. -/
def Machine.perform (m : Machine) (level : Nat) (r : Request) : Machine :=
  match r.perform (Interpreter.services Natives.standard level) m with
  | .ok _ m' => m'
  | .error _ m' => m'

/-- The machines that come about by requests. Between them the outside may change what initialization does not
depend on. -/
inductive Reachable : Machine → Prop where
  | empty (options : Options) (storage : Storage) (stdin : List UInt8) :
      Reachable (Boot.empty options storage stdin)
  | perform {m : Machine} (level : Nat) (r : Request) : Reachable m → Reachable (m.perform level r)
  | quiet {m m' : Machine} : Reachable m → Quiet m m' → Reachable m'

theorem chronicle_addPrimitive {m : Machine} (h : Chronicle m) (letter : Char) :
    Chronicle (Boot.addPrimitive m letter) := by
  unfold Boot.addPrimitive
  split
  · exact h
  · exact (h.addClass (.inr rfl)).congr rfl rfl

theorem chronicle_empty (options : Options) (storage : Storage) (stdin : List UInt8) :
    Chronicle (Boot.empty options storage stdin) := by
  unfold Boot.empty
  refine List.foldlRecOn _ _ ?_ fun m hm letter _ => chronicle_addPrimitive hm letter
  exact ⟨fun _ => rfl, nofun, nofun, trivial, trivial⟩

theorem chronicle_perform {m : Machine} (h : Chronicle m) (level : Nat) (r : Request) :
    Chronicle (m.perform level r) := by
  have hserved := r.keeps_perform (Interpreter.sound_services level).toHosted.answering m
  unfold After at hserved
  unfold Machine.perform
  split at hserved
  · next hr =>
    rw [hr]
    exact (hserved h).1.chronicle
  · next hr =>
    rw [hr]
    exact (hserved h).1.chronicle

/-- The journal of a reachable machine tells the states of its classes, by the rules and in order. -/
theorem Reachable.chronicle {m : Machine} (h : Reachable m) : Chronicle m := by
  induction h with
  | empty options storage stdin => exact chronicle_empty options storage stdin
  | perform level r _ ih => exact chronicle_perform ih level r
  | quiet _ hq ih => exact ih.of_quiet hq

/-- The machine after requests. -/
def Machine.performAll (m : Machine) (level : Nat) (requests : List Request) : Machine :=
  requests.foldl (fun m r => m.perform level r) m

theorem Reachable.performAll {m : Machine} (h : Reachable m) (level : Nat) (requests : List Request) :
    Reachable (m.performAll level requests) :=
  List.foldlRecOn _ _ h fun _ hm r _ => hm.perform level r

/-- An empty machine has no frames, and the setup that it was given. -/
theorem setup_empty (options : Options) (storage : Storage) (stdin : List UInt8) :
    (Boot.empty options storage stdin).frames = [] ∧ (Boot.empty options storage stdin).options = options := by
  unfold Boot.empty
  refine List.foldlRecOn (motive := fun m : Machine => m.frames = [] ∧ m.options = options) _ _ ⟨rfl, rfl⟩
    fun m hm letter _ => ?_
  unfold Boot.addPrimitive
  split
  · exact hm
  · exact hm

/-- Under a watcher that keeps initializers lined up, machines have a chronicle and their frames are tended; there are none
after a request. -/
theorem Watched.Visited.tended {look : Machine → Machine} (hlook : ∀ m, Stepped .done m (look m)) {options : Options}
    {m : Machine} (h : Watched.Visited look options m) :
    Chronicle m ∧ m.marks = [] ∧ m.options = options ∧ ∃ away, m.Tended away := by
  refine h.keeps (P := fun m => Chronicle m ∧ m.marks = [] ∧ m.options = options ∧ ∃ away, m.Tended away)
    (fun level => (Watched.sound_services hlook level).toHosted.answering) (fun storage stdin => ?_)
    fun a b hserved ⟨hchronicle, hmarks, hoptions, away, htended⟩ => ?_
  · obtain ⟨hframes, hsetup⟩ := setup_empty options storage stdin
    have hmarks : (Boot.empty options storage stdin).marks = [] := congrArg (List.map Frame.mark) hframes
    refine ⟨chronicle_empty options storage stdin, hmarks, hsetup, fun _ => none, ⟨fun c hc => ?_, nofun⟩⟩
    rw [Machine.starting, hmarks] at hc
    cases hc
  · obtain ⟨hcont, hsame⟩ := hserved hchronicle
    obtain ⟨hafter, hsetup⟩ := hcont.tended away htended
    exact ⟨hcont.chronicle, hsame.trans hmarks, hsetup.trans hoptions, away, hafter⟩

/-- Whatever is said of a setup, the machine is as it was for initialization. -/
theorem Stepped.of_options {m : Machine} {options : Options}
    (h : Chronicle m → m.InLine → ∀ away, m.Tended away → options = m.options) :
    Stepped .done m { m with options } := by
  intro hm hl
  refine ⟨⟨hm.congr rfl rfl, .of_quiet (.ofSame rfl rfl rfl rfl), rfl, fun away ht => ⟨?_, h hm hl away ht⟩⟩, rfl, fun _ => hl⟩
  exact ht.mono rfl (List.suffix_refl _) (fun _ => Nat.le_refl _) fun _ _ => .inl rfl

/-- After any request and between two steps the journal tells the states of the classes, the initializers are lined up, and
their frames are tended. -/
theorem Occurs.tended {options : Options} {x : Machine} (h : Occurs options x) :
    Chronicle x ∧ x.InLine ∧ ∃ away, x.Tended away := by
  refine h.induct (P := fun x => Chronicle x ∧ x.InLine ∧ ∃ away, x.Tended away) (fun hx => ?_) fun mark hmark m hm => ?_
  · obtain ⟨hchronicle, hmarks, -, htended⟩ := hx.tended fun m => Tolerant.minor (.refl m)
    refine ⟨hchronicle, ?_, htended⟩
    rw [Machine.InLine, hmarks]
    trivial
  · refine (hm.tended fun y => ?_).2.2.1
    exact Stepped.of_options fun hy hl away ht => hmark y ⟨hy, hl, away, ht⟩

/-- No frame is left of an initializer whose class has been initialized or has failed, unless it was called like a method. -/
theorem Occurs.initializes_ne_of_completed {options : Options} {x : Machine} (h : Occurs options x) {p : ClassId}
    (hp : x.journal.Completed p) (hcalled : .called p ∉ x.journal) {a : Activation} (ha : .active a ∈ x.frames) :
    a.method.initializes? ≠ some p := by
  obtain ⟨hchronicle, -, away, htended⟩ := h.tended
  have hsettled := hp.settled hchronicle.legal
  have hnone : p ∉ x.starting := htended.not_mem hcalled (by grind)
  intro hinitializes
  have hmark : (Frame.active a).mark.initialized? = some p := (Frame.initialized_mark a).trans hinitializes
  exact hnone (List.mem_filterMap.2 ⟨(Frame.active a).mark, List.mem_map_of_mem ha, hmark⟩)

/-- A request under a watcher that does not interfere is the request. -/
theorem Machine.performWatched_id (m : Machine) (level : Nat) (r : Request) :
    m.performWatched id level r = m.perform level r := by
  rw [performWatched, Watched.services_id, perform]
  cases r.perform (Interpreter.services Natives.standard level) m <;> rfl

theorem Watched.visited_performAll (options : Options) (storage : Storage) (stdin : List UInt8) (level : Nat)
    (requests : List Request) : Watched.Visited id options ((Boot.empty options storage stdin).performAll level requests) := by
  refine List.foldlRecOn _ _ (.empty storage stdin) fun m hm r _ => ?_
  rw [← Machine.performWatched_id]
  exact .perform level r hm

/-! ## Programs that initialize each other -/

namespace Samples

/-- The root of all classes, without any member. -/
def root : ClassSource := { name := Machine.objectName, super := "" }

/-- A class with an initializer. -/
def initializing (name super : String) (body : List Statement) : ClassSource := {
  name, super
  methods := [{ flags := 8, name := Method.clinitName, desc := "()V", maxStack := some 1, body := some body }] }

/-- A class whose initializer does nothing. -/
def idle (name super : String) : ClassSource := initializing name super [.plain .vreturn]

/-- A class whose initializer makes an object of another class. -/
def making (name super other : String) : ClassSource :=
  initializing name super [.type .new other, .plain .vreturn]

/-- A class whose initializer makes an object of another class and throws it. -/
def throwing (name super other : String) : ClassSource :=
  initializing name super [.type .new other, .plain .athrow]

/-- The request to define a class. -/
def define (k : ClassSource) : Request := .define 0 ((k.assemble.map ClassFile.encode).toOption.getD [])

/-- The number of a class by its place among the sample classes: primitive types come first, and the root. -/
def sample (i : Nat) : ClassId := ⟨Boot.primitiveLetters.length + 1 + i⟩

/-- The machine after sample classes were defined and the initialization of some was asked for. -/
def run (maxDepth : Nat) (classes : List ClassSource) (asked : List ClassId) : Machine :=
  (Boot.empty { classPath := .memory 0 "", maxDepth } {} []).performAll 12
    ((root :: classes).map define ++ asked.map .initClass)

theorem reachable_run (maxDepth : Nat) (classes : List ClassSource) (asked : List ClassId) :
    Reachable (run maxDepth classes asked) := (Reachable.empty ..).performAll ..

/-- An error class, which can be thrown. -/
def stackOverflow : ClassSource := {
  name := Throwables.stackOverflow
  methods := [{
    flags := 1, name := Method.initName, desc := "()V", maxLocals := some 1, body := some [.plain .vreturn] }] }

/-- A third class needs the subclass, and so its superclass. -/
def family : List ClassSource :=
  [idle "Parent" Machine.objectName, idle "Child" "Parent", making "Other" Machine.objectName "Child", stackOverflow]

/-- There is room for all initializers. -/
def orderly : Machine := run 8 family [sample 2]

/-- There is no room for the initializer of the superclass when that of the subclass is pushed. -/
def crowded : Machine := run 4 family [sample 2, sample 2, sample 1, sample 0]

/-- The superclass makes an object of its subclass while it is initialized, and fails. -/
def reentrant : Machine :=
  run 8 [throwing "Parent" Machine.objectName "Child", idle "Child" "Parent"] [sample 1]

end Samples

/-! ## Initializers are pushed once -/

/-- No class has its initializer pushed twice. What is noted is what is done: where initializers are put on the frame stack
for an instruction, those are noted that fit, in order, and where one is run at once it is noted, and its frame is put
there if there is room for it. -/
theorem initializer_pushed_once {m : Machine} (h : Reachable m) (c : ClassId) :
    m.journal.count (.pushed c) ≤ 1 ∧
    (∀ (s : Context) (a : Machine) (classes : List ClassId), ∃ pushed rest, classes = pushed ++ rest ∧
      Initialization.pushInitializers s classes a =
        (if rest = [] then pure ()
        else if a.overflowing then fatal "stack overflow while constructing a runtime exception"
        else do
          rest.forM fun k => Throwing.finishInit k .linked
          s.throwStackOverflow : M Unit) { a with
        frames := (pushed.map fun k => Frame.ofMethod (a.initializerOf k)).reverse ++ a.frames
        journal := (pushed.map Event.pushed).reverse ++ a.journal }) ∧
    ∀ (natives : Natives) (level : Nat) (a : Machine) (k : ClassId), (a.initializerOf k).argSlots = 0 →
      (a.initializerOf k).isAbstract = false → a.frames.length + 3 ≤ frameLimit a →
      (Initialization.runClaimed (Interpreter.services natives (level + 1)) k).run a =
        (tryCatch (discard (Interpreter.goOn natives (Interpreter.services natives level) level (a.initializerOf k)
          a.frames.length)) fun f => do
            Initialization.failClaimed k
            throw f : Attempt Unit).run { a with
          frames := Frame.ofMethod (a.initializerOf k) :: Interpreter.shim [] :: .barrier :: a.frames
          journal := .pushed k :: a.journal } := by
  exact ⟨h.chronicle.legal.count_pushed_le_one c, Initialization.pushInitializers_eq, Interpreter.runClaimed_eq⟩

open Samples in
/-- The initializer of the superclass is pushed once although its claim was given back before. -/
theorem initializer_pushed_once_crowded :
    (.state (sample 0) .linked ∈ crowded.journal.take 11 ∧ .pushed (sample 0) ∈ crowded.journal.take 3) ∧
      crowded.journal.count (.pushed (sample 0)) ≤ 1 :=
  ⟨by decide +kernel, (initializer_pushed_once (reachable_run ..) (sample 0)).1⟩

/-! ## What is settled stays settled -/

/-- Between two moments of a run an erroneous class stays erroneous, and an initialized class stays initialized
unless it is given up. -/
theorem settled_until_abandoned {m : Machine} (h : Reachable m) {later earlier : Journal}
    (hj : later ++ earlier <:+ m.journal) (c : ClassId) :
    (earlier.stateOf c = .erroneous → Journal.stateOf (later ++ earlier) c = .erroneous) ∧
      (earlier.stateOf c = .initialized →
        Journal.stateOf (later ++ earlier) c = if .abandoned c ∈ later then .erroneous else .initialized) ∧
      (m.classAt c).state = m.journal.stateOf c := by
  have hlegal := h.chronicle.legal.suffix hj
  refine ⟨?_, ?_, (h.chronicle.states c).symm⟩
  · exact hlegal.stateOf_of_erroneous (List.suffix_append ..)
  · exact hlegal.stateOf_of_initialized

open Samples in
/-- An initialized class becomes erroneous when its superclass, which needed it, fails. -/
theorem settled_until_abandoned_reentrant :
    Journal.stateOf (reentrant.journal.drop 3) (sample 1) = .initialized ∧
      .abandoned (sample 1) ∈ reentrant.journal.take 3 ∧ (reentrant.classAt (sample 1)).state = .erroneous := by
  have hj : reentrant.journal.take 3 ++ reentrant.journal.drop 3 <:+ reentrant.journal :=
    ⟨[], by rw [List.nil_append, List.take_append_drop]⟩
  have hevents : Journal.stateOf (reentrant.journal.drop 3) (sample 1) = .initialized ∧
      .abandoned (sample 1) ∈ reentrant.journal.take 3 := by decide +kernel
  obtain ⟨hearlier, hgiven⟩ := hevents
  obtain ⟨_, hlater, hstate⟩ := settled_until_abandoned (reachable_run ..) hj (sample 1)
  have hlater := hlater hearlier
  rw [if_pos hgiven, List.take_append_drop] at hlater
  exact ⟨hearlier, hgiven, hstate.trans hlater⟩

/-! ## Superclasses come first -/

/-- The initializer of a class runs after the initialization of its superclass is completed, where both were
linked before: unless the initializer was called like a method, or the superclass was in progress when the class
was claimed. From then on there is no frame of the initializer of the superclass, unless that was called like a method. -/
theorem superclass_completed_first {m : Machine} (h : Reachable m) {before older : Journal} {c p : ClassId}
    (hran : .ran c :: before <:+ m.journal) (hsup : m.superOf c = some p) (holder : older <:+ before)
    (hc : older.stateOf c = .linked) (hp : older.stateOf p = .linked) (hcalled : .called c ∉ before)
    (hclaim : ¬ ((before.beforeClaim c).stateOf p).InProgress) :
    before.Completed p ∧
      ∀ options x, Occurs options x → before <:+ x.journal → .called p ∉ x.journal →
        ∀ a, .active a ∈ x.frames → a.method.initializes? ≠ some p := by
  have hlegal : before.Legal := h.chronicle.legal.suffix ((List.suffix_cons ..).trans hran)
  have hcompleted : before.Completed p := by
    obtain ⟨hpushed, hsuper⟩ := (h.chronicle.ordered.ready hran).resolve_left hcalled
    rcases hsuper p hsup with (hunlinked | hprogress) | hcompleted
    · -- The superclass was linked already, and stays so.
      have hsuffix := hlegal.suffix_beforeClaim holder hc hpushed
      have hthen : (before.beforeClaim c).Legal := hlegal.suffix (before.beforeClaim_suffix c)
      refine absurd hunlinked (hthen.stateOf_ne_unlinked hsuffix ?_)
      rw [hp]
      exact ClassState.noConfusion
    · exact absurd hprogress hclaim
    · exact hcompleted
  refine ⟨hcompleted, fun options x hx hbefore hcalledSuper a ha => ?_⟩
  exact hx.initializes_ne_of_completed (hcompleted.mono hx.tended.1.legal hbefore) hcalledSuper ha

open Samples in
/-- The initializers of two classes that are claimed together run in order. -/
theorem superclass_completed_first_orderly :
    .ran (sample 1) :: orderly.journal.drop 4 <:+ orderly.journal ∧
      Journal.Completed (orderly.journal.drop 4) (sample 0) ∧ Occurs { classPath := .memory 0 "", maxDepth := 8 } orderly ∧
      .called (sample 0) ∉ orderly.journal ∧
      ∀ a, .active a ∈ orderly.frames → a.method.initializes? ≠ some (sample 0) := by
  have hevents : .ran (sample 1) :: orderly.journal.drop 4 <:+ orderly.journal ∧
      orderly.superOf (sample 1) = some (sample 0) ∧ orderly.journal.drop 13 <:+ orderly.journal.drop 4 ∧
      Journal.stateOf (orderly.journal.drop 13) (sample 1) = .linked ∧
      Journal.stateOf (orderly.journal.drop 13) (sample 0) = .linked ∧
      .called (sample 1) ∉ orderly.journal.drop 4 ∧ .called (sample 0) ∉ orderly.journal ∧
      ¬ (Journal.stateOf (Journal.beforeClaim (orderly.journal.drop 4) (sample 1)) (sample 0)).InProgress := by
    decide +kernel
  obtain ⟨hran, hsup, holder, hc, hp, hcalled, hcalledSuper, hclaim⟩ := hevents
  obtain ⟨hcompleted, hgone⟩ := superclass_completed_first (reachable_run ..) hran hsup holder hc hp hcalled hclaim
  have hoccurs : Occurs _ orderly := .inl (Watched.visited_performAll ..)
  exact ⟨hran, hcompleted, hoccurs, hcalledSuper, hgone _ _ hoccurs (List.drop_suffix 4 _) hcalledSuper⟩

open Samples in
/-- A class that is needed by the initializer of its superclass is initialized first, although both were linked
when it was asked for. -/
theorem subclass_first_reentrant :
    .ran (sample 1) :: reentrant.journal.drop 5 <:+ reentrant.journal ∧
      reentrant.superOf (sample 1) = some (sample 0) ∧
      reentrant.journal.drop 14 <:+ reentrant.journal.drop 5 ∧
      Journal.stateOf (reentrant.journal.drop 14) (sample 1) = .linked ∧
      Journal.stateOf (reentrant.journal.drop 14) (sample 0) = .linked ∧
      .called (sample 1) ∉ reentrant.journal ∧ ¬ Journal.Completed (reentrant.journal.drop 5) (sample 0) := by
  decide +kernel

end JavaMachine
