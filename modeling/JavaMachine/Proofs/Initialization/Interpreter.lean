import JavaMachine.Proofs.Initialization.Definition
import JavaMachine.Proofs.Initialization.Schedule
import JavaMachine.Proofs.Machine.Natives
import JavaMachine.Proofs.Machine.Watched

/-!
Initialization at once, and the interpreter. A call from outside initializes the superclass before the class is claimed, and
what runs meanwhile may initialize the class itself: this keeps the chronicle and the frames, and the initialization of a
class is undertaken where it does not fail (`after_initializeClass`).

A step may execute an instruction of an initializer because nothing is above it in the line. A run above a barrier leaves
the frames below the barrier alone, so that a call from outside serves. Main result: `sound_services`, that the operations at
every level keep the chronicle and the frames.
-/

namespace JavaMachine

open M Throwing

/-- The operations of the machine keep the chronicle and the frames. Where `initClass` does not fail the
initialization is undertaken, and an initializer may be run if it may be entered. -/
structure Sound (s : Services) : Prop extends Hosted Served s where
  undertaken : ∀ c m, Chronicle m →
    After (s.initClass c).run m (fun r m' => r = .ok () → m'.journal.Undertaken c) fun _ => True
  runInitializer : ∀ method m₀ m, Restored m₀ m →
    (∀ c, method.initializes? = some c → Enterable m₀ m c) →
    After (s.runInitializer method).run m (fun _ m' => Restored m₀ m' ∧ Extends m m')
      (fun m' => Restored m₀ m' ∧ Extends m m')

namespace Initialization

variable {s : Services}

theorem after_initClass (h : Sound s) {m : Machine} (hm : Chronicle m) (c : ClassId) :
    After (s.initClass c).run m
      (fun r m' => Restored m m' ∧ (r = .ok () → m'.journal.Undertaken c))
      (Restored m) := by
  have hserved := h.initClass c m
  have hundertaken := h.undertaken c m hm
  unfold After at *
  cases hr : (s.initClass c).run m with
  | ok r m' =>
    rw [hr] at hserved hundertaken
    exact ⟨hserved hm, hundertaken⟩
  | error e m' =>
    rw [hr] at hserved
    exact hserved hm

/-- Afterwards the initialization of the superclass is undertaken, or an error goes on. -/
theorem after_initializeSuper (h : Sound s) {m : Machine} (hm : Chronicle m) {c : ClassId}
    (hc : m.journal.stateOf c = .linked) :
    After (initializeSuper s c).run m
      (fun r m' => Restored m m' ∧
        (r = .ok () → ∀ p, m.superOf c = some p → m'.journal.Undertaken p))
      (Restored m) := by
  rw [initializeSuper, Attempt.after_bind_iff, Attempt.after_get_iff]
  dsimp only
  split
  · next p hp =>
    rw [Attempt.after_tryCatch_iff]
    refine (after_initClass h hm p).mono ?_ fun _ => id
    rintro (f | _) m' ⟨hrest, hundertaken⟩
    · -- The class is given up whatever became of it meanwhile, but it is linked at least.
      have hchron := hrest.continued.chronicle
      have hlinked : m'.journal.stateOf c ≠ .unlinked :=
        hchron.legal.stateOf_ne_unlinked hrest.continued.extend.journal (by simp [hc])
      exact ⟨hrest.enter (hm.legal.not_pushed_of_linked hc) hlinked hlinked (.inr ⟨rfl, rfl⟩), by simp⟩
    · refine ⟨hrest, fun _ q hq => ?_⟩
      rw [hp] at hq
      cases hq
      exact hundertaken rfl
  · next hp =>
    refine ⟨.refl hm, fun _ q hq => ?_⟩
    rw [hp] at hq
    cases hq

/-- The machine after a class was claimed and its initializer pushed. -/
def started (m : Machine) (c : ClassId) : Machine := (claiming m c).note (.pushed c)

theorem restored_started {m : Machine} (hm : Chronicle m) {c : ClassId}
    (hc : m.journal.stateOf c = .linked) : Restored m (started m c) := by
  have hclaim := restored_claiming hm hc
  have hchron := hclaim.continued.chronicle
  have hloose := loose_claiming hm hc
  refine hclaim.trans ⟨.of_count (hchron.note ?_ (fun _ => rfl) ?_ nofun) (.note _ _) rfl rfl (fun _ => Nat.le_refl _)
    fun _ _ => rfl, rfl⟩
  · exact ⟨hloose.pushed, m.current, by rw [stateOf_claiming, if_pos rfl]⟩
  · intro k hk
    cases hk
    exact hchron.lt hloose.linked

/-- A class that is claimed after its superclass was undertaken is ready to be initialized. -/
theorem ready_started {m : Machine} (hm : Chronicle m) {c : ClassId} (hc : m.journal.stateOf c = .linked)
    (hsup : ∀ p, m.superOf c = some p → m.journal.Undertaken p) :
    (started m c).journal.Ready (started m c).superOf c := by
  have hcont := (restored_started hm hc).continued
  have hsame := hcont.extend.superOf_of_linked hm (c := c) (by simp [hc])
  refine .inr ⟨List.mem_cons_self, fun p hp => ?_⟩
  rcases hsup p (hsame ▸ hp) with hprogress | hcompleted
  · refine .inl (.inr ?_)
    change ((if c = c then m.journal else m.journal.beforeClaim c).stateOf p).InProgress
    rwa [if_pos rfl]
  · exact .inr (hcompleted.mono hcont.chronicle.legal hcont.extend.journal)

/-- An initialization is not in progress after it failed. -/
theorem after_failClaimed {m₀ m : Machine} (h : Restored m₀ m) {c : ClassId} (hfree : .pushed c ∉ m₀.journal)
    {H : Machine → Prop} : After (failClaimed c) m (fun _ m' => Restored m₀ m' ∧ Extends m m') H := by
  simp only [failClaimed, isInitializing, after_bind_iff, after_get, after_pure]
  split
  · next hc =>
    rw [beq_iff_eq] at hc
    have hm := h.continued.chronicle
    have hne : (m.classAt c).state ≠ .unlinked := fun hu => ClassState.noConfusion (hc.symm.trans hu)
    have hlinked : m.journal.stateOf c ≠ .unlinked := fun hu => hne ((hm.states c).symm.trans hu)
    exact ⟨h.enter hfree hlinked (hm.allowed_finish hc (.inr rfl)) (.inl rfl), .enter hne _ _⟩
  · exact ⟨h, .refl m⟩

/-- The initializer of a class that was claimed after its superclass was undertaken may be entered. -/
theorem enterable_started {m : Machine} (hm : Chronicle m) {c : ClassId} (hc : m.journal.stateOf c = .linked)
    (hsup : ∀ p, m.superOf c = some p → m.journal.Undertaken p) : Enterable m (started m c) c :=
  ⟨ready_started hm hc hsup, fun _ => ⟨hm.legal.not_pushed_of_linked hc, if_pos rfl, rfl⟩⟩

/-- The initializer of a claimed class is noted, and then it is run. -/
theorem run_runClaimed (s : Services) (m : Machine) (c : ClassId) :
    (runClaimed s c).run m =
      (tryCatch (s.runInitializer (m.initializerOf c)) fun f => do
        failClaimed c
        throw f : Attempt Unit).run (m.note (.pushed c)) := by
  have hfinds : initializer c (m.note (.pushed c)) = .ok (m.initializerOf c) (m.note (.pushed c)) := run_initializer c
  have hlift : (initializer c >>= fun method => pure (.ok method) : M (Except Failure Method)) (m.note (.pushed c)) =
      .ok (.ok (m.initializerOf c)) (m.note (.pushed c)) := M.run_bind hfinds _
  exact M.run_bind hlift _

/-- The initializer of a class runs that was claimed in time. -/
theorem after_runClaimed (h : Sound s) {m : Machine} (hm : Chronicle m) {c : ClassId}
    (hc : m.journal.stateOf c = .linked)
    (hsup : ∀ p, m.superOf c = some p → m.journal.Undertaken p) :
    After (runClaimed s c).run (claiming m c)
      (fun _ m' => Restored m m' ∧ m'.journal.Undertaken c)
      (Restored m) := by
  have hpush := restored_started hm hc
  have henter := enterable_started hm hc hsup
  have hfree := hm.legal.not_pushed_of_linked hc
  have hundertaken {m' : Machine} (hrun : Restored m m') (hextend : Extends (started m c) m') :
      m'.journal.Undertaken c :=
    hrun.continued.chronicle.legal.undertaken_of_pushed (hextend.journal.subset List.mem_cons_self)
  rw [runClaimed, Attempt.after_bind_iff, Attempt.after_lift_iff, record, after_modify]
  dsimp only
  rw [Attempt.after_bind_iff, Attempt.after_lift_iff]
  refine after_initializer hpush.continued.chronicle fun method hclinit howner => ?_
  dsimp only
  rw [Attempt.after_tryCatch_iff]
  refine (h.runInitializer method m (started m c) hpush fun k hk => ?_).mono ?_ ?_
  · obtain ⟨_, rfl⟩ := Method.initializes_eq_some.1 hk
    exact howner ▸ henter
  · rintro (f | _) m' ⟨hrun, hextend⟩
    · dsimp only
      rw [Attempt.after_bind_iff, Attempt.after_lift_iff]
      refine (after_failClaimed hrun hfree).mono ?_ fun _ => id
      rintro _ m'' ⟨hfail, hfailed⟩
      exact ⟨hfail, hundertaken hfail (hextend.trans hfailed)⟩
    · exact ⟨hrun, hundertaken hrun hextend⟩
  · exact fun m' hrun => hrun.1

/-- Afterwards the initialization of the class is undertaken, or an error goes on. -/
theorem after_initializeClass (h : Sound s) {m : Machine} (hm : Chronicle m) (c : ClassId) :
    After (initializeClass s c).run m
      (fun r m' => Restored m m' ∧ (r = .ok () → m'.journal.Undertaken c))
      (Restored m) := by
  have hsame := Restored.refl hm
  have hstate := hm.states c
  rw [initializeClass, Attempt.after_bind_iff, Attempt.after_lift_iff]
  refine after_awaitState ?_ hsame
  dsimp only
  split
  · next hc => exact ⟨hsame, fun _ => .inr (.inl (Journal.mem_of_stateOf (hstate.trans hc)))⟩
  · next t hc => exact ⟨hsame, fun _ => .inl ⟨t, hstate.trans hc⟩⟩
  · exact ⟨hsame, nofun⟩
  · exact hsame
  · next hc =>
    have hlinked : m.journal.stateOf c = .linked := hstate.trans hc
    rw [Attempt.after_bind_iff]
    refine (after_initializeSuper h hm hlinked).mono ?_ fun _ => id
    rintro (f | _) m' ⟨hfirst, hsup⟩
    · exact ⟨hfirst, nofun⟩
    · dsimp only
      have hchron := hfirst.continued.chronicle
      rw [Attempt.after_bind_iff, Attempt.after_lift_iff]
      refine after_claim hchron (fun hstill => ?_) ?_
      · -- The class is claimed here, and the superclass was undertaken.
        have hsame := hfirst.continued.extend.superOf_of_linked hm (c := c) (by simp [hlinked])
        refine (after_runClaimed h hchron hstill fun p hp => hsup rfl p (hsame ▸ hp)).mono ?_ ?_
        · rintro r m'' ⟨hrest, hundertaken⟩
          exact ⟨hfirst.trans hrest, fun _ => hundertaken⟩
        · exact fun m'' hrest => hfirst.trans hrest
      · -- What ran for the superclass initialized the class.
        refine (after_initClass h hchron c).mono ?_ ?_
        · rintro r m'' ⟨hrest, hundertaken⟩
          exact ⟨hfirst.trans hrest, hundertaken⟩
        · exact fun m'' hrest => hfirst.trans hrest

theorem keeps_initializeClass (h : Sound s) (c : ClassId) : Attempt.Keeps Served (initializeClass s c) :=
  keeps_served fun _ hm => (after_initializeClass h hm c).mono (fun _ _ => And.left) fun _ => id

end Initialization

variable {s : Services}

/-! ## Threads -/

namespace Machine

/-- The thread of a class that has its frame away when the running thread gives way. -/
def givingWay (m : Machine) (away : ClassId → Option Nat) (c : ClassId) : Option Nat :=
  if c ∈ m.starting then some m.current else away c

/-- A thread starts without frames. -/
theorem Tended.start {m : Machine} {away : ClassId → Option Nat} (h : m.Tended away) (id : Nat) :
    { m with current := id, frames := [], pending := none, overflowing := false }.Tended (m.givingWay away) where
  frames c hc := absurd hc List.not_mem_nil
  away c t haway hcalled := by
    rw [givingWay] at haway
    split at haway
    · next hc =>
      cases haway
      exact (h.frames c hc hcalled).2.2
    · exact h.away c t haway hcalled

/-- The frames of the thread that gave way are on the frame stack again when another has ended. -/
theorem Tended.resume {m after : Machine} {away : ClassId → Option Nat} (h : m.Tended away)
    (hafter : after.Tended (m.givingWay away)) (hj : m.journal <:+ after.journal) (id : Nat) (threadHalt : Option Halt) :
    { Threads.resume m after id with threadHalt }.Tended away where
  frames c hc hcalled := by
    have hold : .called c ∉ m.journal := fun hold => hcalled (hj.subset hold)
    obtain ⟨hone, haway, -⟩ := h.frames c hc hold
    exact ⟨hone, haway, hafter.away c m.current (if_pos hc) hcalled⟩
  away c t haway hcalled := by
    have hold : .called c ∉ m.journal := fun hold => hcalled (hj.subset hold)
    refine hafter.away c t ((if_neg fun hc => ?_).trans haway) hcalled
    rw [(h.frames c hc hold).2.1] at haway
    cases haway

end Machine

namespace Threads

theorem keeps_body (h : Hosted Served s) (t : Thread) : Keeps Served (body s t) := by
  unfold body reportUncaught
  refine keeps_bind (Services.keeps_invokeVirtual h).run fun r => ?_
  grind

/-- What a thread does to the frames is undone when it has ended. -/
theorem keeps_runThread (h : Hosted Served s) (id : Nat) : Keeps Served (runThread s id) := by
  refine keeps_served fun m hm => ?_
  let start : Machine := { m with current := id, frames := [], pending := none, overflowing := false }
  have hstart : Chronicle start := hm.congr rfl rfl
  have resumed {after : Machine} {e : Ending} (threadHalt : Option Halt) (hserved : Served e start after) :
      Continued m { resume m after id with threadHalt } := by
    obtain ⟨hchron, hextend, -, htended⟩ := (hserved hstart).1
    refine ⟨hchron.congr rfl rfl, ?_, rfl, fun away ht => ?_⟩
    · exact ⟨hextend.journal, hextend.size, hextend.descent, hextend.unlinked⟩
    · obtain ⟨hafter, hoptions⟩ := htended _ (ht.start id)
      exact ⟨ht.resume hafter hextend.journal id threadHalt, hoptions⟩
  have hbody := keeps_body h (m.threads.getD id default) start
  unfold After at hbody
  unfold After runThread
  dsimp only
  split at hbody
  · next r after hact =>
    rw [hact]
    exact ⟨resumed after.threadHalt hbody, rfl⟩
  · next e after hact =>
    rw [hact]
    exact ⟨resumed _ hbody, rfl⟩

theorem keeps_runWaiting (h : Hosted Served s) (n : Nat) : Keeps Served (runWaiting s n) := by
  induction n with
  | zero => exact keeps_throw
  | succ n ih =>
    unfold runWaiting
    refine keeps_bind keeps_get fun m => ?_
    split
    · exact keeps_pure
    · refine keeps_bind (keeps_minor fun _ => .ofSame rfl rfl) fun _ => ?_
      exact keeps_bind (keeps_runThread h _) fun _ => ih

theorem keeps_giveWay (h : Hosted Served s) : Keeps Served (giveWay s) := keeps_runWaiting h _

end Threads

/-- What instructions and native methods are built from, and end with, keeps initializers lined up. -/
theorem Hosted.working (h : Hosted Served s) : Working Stepped Stepped s where
  toHosted := h.stepped
  newThrowable _ _ _ := Throwing.keeps_newThrowable h.stepped
  defineClass l expected data source :=
    Keeps.mono Served.stepped (Linking.keeps_defineClass h (Linking.served_publish h) l expected data source)
  giveWay := Keeps.mono Served.stepped (Threads.keeps_giveWay h)
  throwObject := keeps_throwObject h
  ensure c := .of_keeps (Initialization.keeps_ensure h c)
  enterCalled := keeps_enterCalled h

/-! ## Steps -/

/-- A line is one whatever its first initializer does, and whether it has started. -/
theorem Lined.replace {sup : ClassId → Option ClassId} {j : Journal} {t : Nat} {above : List ClassId}
    {mark mark' : Mark} {rest : List Mark} (h : Lined sup j t above (mark :: rest))
    (hactive : mark'.isActive = mark.isActive) (hclass : mark'.initialized? = mark.initialized?) :
    Lined sup j t above (mark' :: rest) := by
  intro hm
  rw [hclass]
  exact h (hactive ▸ hm)

namespace Interpreter

/-- The innermost frame goes on: if it runs an initializer, that is ready. -/
theorem keeps_advance : Keeps Stepped advance := by
  refine keeps_stepped fun m hm hl => ?_
  have hsame : Landed .halted m m.marks m := .of_served hm rfl .nil (Tolerant.minor (.refl m)) nofun
  rw [advance, after_bind_iff]
  refine after_activation (fun a frames hf => ?_) hsame
  have htop : m.marks = (Frame.active a).mark :: frames.map Frame.mark := congrArg (List.map Frame.mark) hf
  have hactive := Frame.isActive_mark a
  -- nothing is above the frame that goes on, so it does not wait
  have hready (c : ClassId) (hc : a.method.initializes? = some c) : m.journal.Ready m.superOf c := by
    rw [Machine.InLine, htop] at hl
    exact hl.ready ((Frame.initialized_mark a).trans hc)
  have hrecord : After (recordRun a.method) m
      (fun _ m' => Continued m m' ∧ m'.frames = m.frames) (Landed .halted m m.marks) := by
    rw [recordRun, after_modify]
    split
    · next hrun =>
      simp only [Bool.and_eq_true] at hrun
      refine ⟨.of_count (hm.note trivial (fun _ => rfl) (by simp) ?_) (.note _ _) rfl rfl (fun _ => Nat.le_refl _)
        fun _ _ => rfl, rfl⟩
      intro c hc
      cases hc
      exact hready _ (if_pos hrun.1)
    · exact ⟨.refl hm, rfl⟩
  rw [after_bind_iff]
  refine hrecord.mono ?_ fun _ => id
  rintro _ m' ⟨hcont, hframes⟩
  simp only [updateActivation, after_bind_iff, after_modify, after_pure, hframes, hf]
  have hmarks : m'.marks = m.marks := congrArg (List.map Frame.mark) hframes
  let moved := Frame.active { a with pc := a.nextPc } :: frames
  have hmoved : (moved.map Frame.mark).filterMap Mark.initialized? = m'.starting := by
    rw [Machine.starting, hmarks, htop]
    simp only [moved, List.map_cons, List.filterMap_cons, Frame.initialized_mark]
  refine ⟨hcont.trans (.of_frames hcont.chronicle (hmoved ▸ .refl _)), ?_, fun _ => ?_⟩
  · change (moved.map Frame.mark).dropWhile _ = _
    rw [htop, List.dropWhile_cons_of_pos hactive]
    exact List.dropWhile_cons_of_pos (Frame.isActive_mark _)
  · have hline := hcont.inLine hm hl hmarks
    rw [Machine.InLine, hmarks, htop] at hline
    refine hline.replace ?_ ?_
    · rw [Frame.isActive_mark, hactive]
    · rw [Frame.initialized_mark, Frame.initialized_mark]

theorem keeps_step (h : Hosted Served s) : Keeps Stepped (step Natives.standard s) := by
  have hexecute (i : Instruction) : Keeps Stepped (execute Natives.standard s i) :=
    keeps_execute h.working (Natives.lawful_standard h.working (.of_careless h.working)) keeps_finish
  unfold step
  refine keeps_bind keeps_advance fun a => ?_
  split
  · exact keeps_outside
  · exact keeps_throw
  · grind
  · exact keeps_fatal
  · exact keeps_bind (keeps_goOn) fun _ => hexecute _

end Interpreter

/-- A run keeps initializers lined up under a watcher that does. -/
theorem Watched.stepped_run {look : Machine → Machine} (hlook : ∀ m, Stepped .done m (look m)) (h : Hosted Served s)
    (n : Nat) : Keeps Stepped (run look Natives.standard s n) := by
  induction n with
  | zero => exact keeps_throw
  | succ n ih =>
    unfold run Interpreter.isRunning
    refine keeps_bind (keeps_modify hlook) fun _ => ?_
    refine keeps_bind (keeps_bind keeps_topFrame fun _ => keeps_pure) fun b => ?_
    split
    · exact keeps_bind (Interpreter.keeps_step h) fun _ => ih
    · exact keeps_pure

namespace Interpreter

/-! ## Calls from outside -/

/-- What is left of a call from outside when the frame of its method is on the frame stack. -/
def goOn (natives : Natives) (s : Services) (fuel : Nat) (method : Method) (depth : Nat) : Attempt (List Slot) :=
  ExceptT.mk (ensuring (do
    run natives s fuel
    callResult method depth) (popTo depth))

/-- An initializer is run above a barrier, if there is room for it. -/
theorem run_runInitializer (natives : Natives) (n : Nat) {m : Machine} {method : Method} (hargs : method.argSlots = 0)
    (hconcrete : method.isAbstract = false) (hroom : m.frames.length + 3 ≤ frameLimit m) :
    ((services natives (n + 1)).runInitializer method).run m =
      (discard (goOn natives (services natives n) n method m.frames.length)).run
        { m with frames := Frame.ofMethod method :: shim [] :: .barrier :: m.frames } := by
  let called : Machine := { m with frames := shim [] :: .barrier :: m.frames }
  let start : Machine := { m with frames := Frame.ofMethod method :: called.frames }
  have hpush : pushCall [] m = .ok true called := by
    have hbarrier : pushFrame .barrier m = .ok true { m with frames := .barrier :: m.frames } :=
      run_pushFrame (by omega) .barrier
    rw [pushCall, run_bind hbarrier, if_pos rfl]
    refine run_pushFrame ?_ (shim [])
    change m.frames.length + 1 < frameLimit m
    omega
  have henter : Execute.enter (services natives n) method called = .ok () start := by
    have hframe : pushFrame (Frame.ofMethod method) called = .ok true start :=
      run_pushFrame (by change m.frames.length + 1 + 1 < frameLimit m; omega) _
    rw [Execute.enter, hconcrete, if_neg Bool.false_ne_true, run_bind hframe, if_pos rfl, hargs]
    rfl
  have hbody : embedded.body natives (services natives n) n method [] m.frames.length m = (do
      run natives (services natives n) n
      callResult method m.frames.length) start := by
    rw [embedded.body, run_bind hpush, if_pos rfl, run_bind henter]
  have hcall : (embedded natives (services natives n) n method []).run m =
      (goOn natives (services natives n) n method m.frames.length).run start := by
    have hlength : ([] : List Slot).length = method.argSlots := hargs.symm
    rw [embedded, if_pos hlength]
    change ensuring (embedded.body natives (services natives n) n method [] m.frames.length) _ m = ensuring _ _ start
    rw [ensuring, ensuring, hbody]
  have hmap {act : Attempt (List Slot)} {x : Machine} :
      (discard act).run x = (act.run >>= fun r => pure (r.map fun _ => ())) x := by
    refine congrFun (congrArg (act.run >>= ·) (funext fun r => ?_)) x
    cases r <;> rfl
  change (discard (embedded natives (services natives n) n method [])).run m = _
  rw [hmap, hmap, bind_apply, bind_apply, hcall]

/-- The initializer of a claimed class that is run at once is noted, and its frame is put on the frame stack if there is room
for it. -/
theorem runClaimed_eq (natives : Natives) (level : Nat) (m : Machine) (c : ClassId)
    (hargs : (m.initializerOf c).argSlots = 0) (hconcrete : (m.initializerOf c).isAbstract = false)
    (hroom : m.frames.length + 3 ≤ frameLimit m) :
    (Initialization.runClaimed (services natives (level + 1)) c).run m =
      (tryCatch (discard (goOn natives (services natives level) level (m.initializerOf c) m.frames.length)) fun f => do
        Initialization.failClaimed c
        throw f : Attempt Unit).run { m with
          frames := Frame.ofMethod (m.initializerOf c) :: shim [] :: .barrier :: m.frames
          journal := .pushed c :: m.journal } := by
  have hrun := run_runInitializer natives level (m := m.note (.pushed c)) hargs hconcrete hroom
  have hcatch {act : Attempt Unit} {f : Failure → Attempt Unit} {x : Machine} :
      (tryCatch act f).run x = (act.run >>= fun r => match r with
        | .ok a => pure (.ok a)
        | .error e => (f e).run) x := by
    refine congrFun (congrArg (act.run >>= ·) (funext fun r => ?_)) x
    cases r <;> rfl
  rw [Initialization.run_runClaimed, hcatch, hcatch, bind_apply, bind_apply, hrun]
  rfl

/-- The chronicle goes on above the frames that were there. -/
structure Above (m₀ m m' : Machine) : Prop where
  continued : Continued m₀ m'
  extend : Extends m m'
  below : m.marks <:+ m'.marks

/-- Above a barrier an action may land where it wants. -/
theorem Above.of_landed {e : Ending} {m₀ m m' : Machine} (h : Landed e m₀ (.shim :: .barrier :: m.marks) m')
    (hextend : Extends m m') : Above m₀ m m' where
  continued := h.continued
  extend := hextend
  below := by
    have houter : m'.outer = .shim :: .barrier :: m.marks := h.outer
    have hsuffix : m'.outer <:+ m'.marks := List.dropWhile_suffix _
    rw [houter] at hsuffix
    have hbelow : m.marks <:+ .shim :: .barrier :: m.marks := List.suffix_append [Mark.shim, Mark.barrier] m.marks
    exact hbelow.trans hsuffix

/-- The frame stack is as before when the frames above are gone. -/
theorem Above.popTo {m₀ m m' : Machine} (h : Above m₀ m m') (hmarks : m.marks = m₀.marks) :
    Restored m₀ (M.popTo m.frames.length m') ∧ Extends m (M.popTo m.frames.length m') := by
  have hdrop := List.suffix_iff_eq_drop.1 h.below
  have hpopped : (M.popTo m.frames.length m').marks = m.marks := by
    rw [hdrop]
    simp [M.popTo, Machine.marks]
  have hbelow := h.below
  rw [← hpopped] at hbelow
  exact ⟨⟨h.continued.trans (.of_below h.continued.chronicle hbelow), hpopped.trans hmarks⟩, h.extend.trans (.of_frames m' _)⟩

theorem exists_shim (args : List Slot) : ∃ stack, shim args = .shim stack := by
  unfold shim
  dsimp only
  split
  · exact ⟨_, rfl⟩
  · exact ⟨_, rfl⟩

theorem after_pushCall {m₀ m : Machine} (hm : Continued m₀ m) {args : List Slot} {Q : Bool → Machine → Prop}
    (hpushed : ∀ stack, Q true { m with frames := .shim stack :: .barrier :: m.frames })
    (hfull : ∀ m', Above m₀ m m' → Q false m') : After (pushCall args) m Q (Above m₀ m) := by
  have hnone : Above m₀ m m := ⟨hm, .refl m, List.suffix_refl _⟩
  have hbarrier : Above m₀ m { m with frames := .barrier :: m.frames } :=
    ⟨hm.trans (.of_frames hm.chronicle (.refl _)), .of_frames m _, List.suffix_cons Mark.barrier m.marks⟩
  obtain ⟨stack, hstack⟩ := exists_shim args
  rw [pushCall, after_bind_iff]
  refine after_pushFrame (fun _ => ?_) (hfull m hnone) hnone
  rw [hstack]
  exact after_pushFrame (fun _ => hpushed stack) (hfull _ hbarrier) hbarrier

theorem keeps_callResult {R : Ending → Machine → Machine → Prop} [Marking R] {method : Method} {depth : Nat} :
    Keeps R (callResult method depth) := by
  unfold callResult callResult.lost
  refine keeps_bind keeps_get fun m => ?_
  split
  · exact keeps_bind (keeps_exceptions _ Machine.overflowing) fun _ => keeps_pure
  · grind

end Interpreter

namespace Watched

open Interpreter

variable {look : Machine → Machine} (hlook : ∀ m, Stepped .done m (look m))
include hlook

/-- A method that is no initializer or may be entered can be called from outside. -/
theorem after_embedded (h : Hosted Served s) {m₀ m : Machine} (hm : Restored m₀ m) {method : Method}
    (henter : ∀ c, method.initializes? = some c → Enterable m₀ m c) (fuel : Nat)
    (args : List Slot) :
    After (embedded look Natives.standard s fuel method args).run m
      (fun _ m' => Restored m₀ m' ∧ Extends m m') (fun m' => Restored m₀ m' ∧ Extends m m') := by
  have hbody : After (embedded.body look Natives.standard s fuel method args m.frames.length) m
      (fun _ => Above m₀ m) (Above m₀ m) := by
    rw [embedded.body, after_bind_iff]
    refine after_pushCall hm.continued (fun stack => ?_) fun m' habove => habove
    -- above the shim the line is empty, whatever the line of the caller is
    let start : Machine := { m with frames := .shim stack :: .barrier :: m.frames }
    have hstart : Continued m₀ start := hm.continued.trans (.of_frames hm.continued.chronicle (.refl _))
    have htop : start.marks = .shim :: .barrier :: m.marks := rfl
    have hline : start.InLine := Machine.inLine_of_top htop rfl
    have hextend : Extends m start := .of_frames m _
    have hrest : Keeps Stepped (do
        run look Natives.standard s fuel
        callResult method m.frames.length) := keeps_bind (stepped_run hlook h fuel) fun _ => keeps_callResult
    rw [if_pos rfl, after_bind_iff]
    refine (after_enter h hstart hline fun c hc => ⟨(henter c hc).ready, (henter c hc).fresh⟩).mono ?_ ?_
    · rintro _ entered ⟨hlanded, hentered⟩
      refine (hrest entered).mono ?_ ?_
      · intro _ m' hstep
        have hran := hstep hlanded.continued.chronicle (hlanded.inLine rfl)
        exact .of_landed (hlanded.trans hran) ((hextend.trans hentered).trans hran.continued.extend)
      · intro m' hstep
        have hran := hstep hlanded.continued.chronicle (hlanded.inLine rfl)
        exact .of_landed (hlanded.trans hran) ((hextend.trans hentered).trans hran.continued.extend)
    · exact fun m' ⟨hlanded, hentered⟩ => .of_landed hlanded (hextend.trans hentered)
  have hcall : After (ensuring (embedded.body look Natives.standard s fuel method args m.frames.length)
      (popTo m.frames.length)) m (fun _ m' => Restored m₀ m' ∧ Extends m m') (fun m' => Restored m₀ m' ∧ Extends m m') :=
    after_ensuring_iff.2 (hbody.mono (fun _ _ habove => habove.popTo hm.marks) fun _ habove => habove.popTo hm.marks)
  unfold embedded
  split
  · rw [Attempt.after_bind_iff, Attempt.after_lift_iff]
    exact hcall
  · rw [Attempt.after_bind_iff, Attempt.after_lift_iff]
    exact ⟨hm, .refl m⟩

theorem served_invoke (h : Hosted Served s) (fuel : Nat) (method : Method) (args : List Slot) :
    Attempt.Keeps Served (invoke look Natives.standard s fuel method args) := by
  refine keeps_served fun m hm => ?_
  rw [invoke, Attempt.after_bind_iff, Attempt.after_lift_iff]
  refine after_recordCall hm fun called hcont hmarks henter => ?_
  exact (after_embedded hlook h ⟨hcont, hmarks⟩ (henter m) fuel args).mono (fun _ _ => And.left) fun _ => And.left

omit hlook in
theorem sound_silent : Sound .silent where
  toResolving := .of_load fun _ _ => keeps_throw
  load _ _ := keeps_throw
  initClass _ := keeps_throw
  invoke _ _ := keeps_throw
  undertaken _ _ _ := trivial
  runInitializer _ _ m hm _ := ⟨hm, .refl m⟩

/-- The operations at every level keep the chronicle and the frames under a watcher that keeps initializers lined up. -/
theorem sound_services (n : Nat) : Sound (services look Natives.standard n) := by
  -- each operation at level `n + 1` is built over those at level `n`
  induction n with
  | zero => exact sound_silent
  | succ n ih =>
    have hload := Linking.keeps_loadClass ih.toHosted (Linking.served_publish ih.toHosted)
    refine { toResolving := .of_load hload, load := hload, initClass := ?_, invoke := ?_, undertaken := ?_,
             runInitializer := ?_ }
    · exact Initialization.keeps_initializeClass ih
    · exact served_invoke hlook ih.toHosted n
    · intro c m hm
      exact (Initialization.after_initializeClass ih hm c).mono (fun _ _ => And.right) fun _ _ => trivial
    · intro method m₀ m hm henter
      change After (embedded look Natives.standard _ n method [] >>= fun _ => pure ()).run m _ _
      rw [Attempt.after_bind_iff]
      refine (after_embedded hlook ih.toHosted hm henter n []).mono ?_ fun _ => id
      rintro (f | slots) m' hcall
      · exact hcall
      · exact hcall

end Watched

/-- The operations at every level keep the chronicle and the frames. -/
theorem Interpreter.sound_services (n : Nat) : Sound (services Natives.standard n) := by
  rw [← Watched.services_id]
  exact Watched.sound_services (fun m => Tolerant.minor (.refl m)) n

end JavaMachine
