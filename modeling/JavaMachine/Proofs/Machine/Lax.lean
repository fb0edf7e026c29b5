import JavaMachine.Proofs.Initialization.Requests
import JavaMachine.Proofs.Machine.Claims
import JavaMachine.Proofs.Machine.Watched

/-!
Relations between machines that do not look at frames, at the journal or at the states of classes. Everything
the machine does keeps such a `Frameless` relation, if loading and defining classes do. A `Lax` relation does not look
at what pools were resolved to either. Main results: `Watched.serving_succ`, one level of operations after the other under a
watcher that keeps the relation, and `Hosted.answeringFrameless`, for what the outside asks.
-/

namespace JavaMachine

open M Throwing

/-- A change of frames, of exceptions on their way, and of the thread that runs. -/
structure Reframed (a b : Machine) : Prop where
  same : b = { a with
    current := b.current, frames := b.frames, pending := b.pending, overflowing := b.overflowing, threads := b.threads
    threadHalt := b.threadHalt }

/-- A relation that allows all changes of frames and of class states, and takes a halt for an end like any other. -/
class Frameless (R : Ending → Machine → Machine → Prop) : Prop extends Noting R where
  reframe : ∀ {e a b}, Reframed a b → R e a b
  reframed : ∀ {e a b c}, R e a b → Reframed b c → R e a c
  halted : ∀ {a b}, R .halted a b → R .done a b

/-- A relation that allows every steady change, of frames and of class states too, and takes a halt for an
end like any other. -/
class Lax (R : Ending → Machine → Machine → Prop) : Prop extends Heedless R where
  steady : ∀ {e a b}, Steady a b → R e a b
  steadied : ∀ {e a b c}, R e a b → Steady b c → R e a c
  halted : ∀ {a b}, R .halted a b → R .done a b

theorem Reframed.steady {a b : Machine} (h : Reframed a b) : Steady a b := by
  rw [h.same]
  exact .ofSame (List.suffix_refl _) rfl rfl rfl rfl rfl rfl rfl

namespace M

theorem steady_note (m : Machine) (e : Event) : Steady m (m.note e) :=
  .ofSame (List.suffix_cons ..) rfl rfl rfl rfl rfl rfl rfl

theorem steady_enter (m : Machine) (c : ClassId) (state : ClassState) (e : Event) : Steady m (m.enter c state e) :=
  (Steady.updateClass (f := fun k => { k with state }) rfl fun _ _ _ => .inl).trans
    (steady_note _ e)

end M

instance {R : Ending → Machine → Machine → Prop} [Lax R] : Frameless R where
  enter _ _ _ := Lax.steady (M.steady_enter ..)
  note _ := Lax.steady (M.steady_note ..)
  reframe h := Lax.steady h.steady
  reframed h hr := Lax.steadied h hr.steady
  halted := Lax.halted

instance {R : Ending → Machine → Machine → Prop} [Frameless R] : Marking R where
  mark _ _ _ := Frameless.reframe ⟨rfl⟩
  marked _ _ hr _ := Frameless.reframed hr ⟨rfl⟩

variable {R : Ending → Machine → Machine → Prop} [Frameless R] {s : Services}

/-! ## Frames and states -/

namespace M

theorem keeps_reframe {f : Machine → Machine} (h : ∀ m, Reframed m (f m)) : Keeps R (modify f : M Unit) :=
  keeps_modify fun m => Frameless.reframe (h m)

@[grind ←]
theorem keeps_pushFrame {f : Frame} : Keeps R (pushFrame f) := by
  unfold pushFrame
  refine keeps_bind keeps_get fun m => ?_
  split
  · split
    · exact keeps_fatal
    · exact keeps_pure
  · exact keeps_bind (keeps_reframe fun _ => ⟨rfl⟩) fun _ => keeps_pure

@[grind ←]
theorem keeps_popFrame : Keeps R popFrame := by
  unfold popFrame
  refine keeps_bind keeps_get fun m => ?_
  split
  · exact keeps_fatal
  · exact keeps_bind (keeps_reframe fun _ => ⟨rfl⟩) fun _ => keeps_pure

@[grind ←]
theorem keeps_anyActivation {f : Activation → Activation} : Keeps R (updateActivation f) := by
  refine keeps_reframe fun m => ?_
  split
  · exact ⟨rfl⟩
  · exact ⟨rfl⟩

end M

/-! ## Exceptions -/

namespace Throwing

@[grind ←]
theorem keeps_leave (h : Hosted R s) {method : Method} {exception : Ref} : Keeps R (leave s method exception) := by
  have hescape (r : Ref) : Keeps R (escaping s r) := keeps_escaping h
  unfold leave failInitialization
  grind

theorem keeps_unwind (h : Hosted R s) {n : Nat} {exception : Ref} : Keeps R (unwind s n exception) := by
  induction n generalizing exception with
  | zero => exact keeps_throw
  | succ n ih =>
    unfold unwind
    refine keeps_bind keeps_topFrame fun f => ?_
    split
    · next a =>
      have hleave : Keeps R (do
          let exception ← leave s a.method exception
          unwind s n exception) := keeps_bind (keeps_leave h) fun _ => ih
      split
      · refine keeps_bind (keeps_findHandler h) fun handler => ?_
        cases handler with
        | some entry => exact keeps_deliver
        | none => exact hleave
      · refine keeps_bind keeps_pure fun handler => ?_
        cases handler with
        | some entry => exact keeps_deliver
        | none => exact hleave
    · exact keeps_reframe fun _ => ⟨rfl⟩


theorem keeps_throwObject (h : Hosted R s) (exception : Option Ref) : Keeps R (throwObject s exception) := by
  have hunwind (n : Nat) (r : Ref) : Keeps R (unwind s n r) := keeps_unwind h
  unfold throwObject
  cases exception with
  | some r => exact keeps_bind keeps_pure fun _ => keeps_bind keeps_depth fun _ => hunwind _ _
  | none => exact keeps_bind (keeps_newThrowable h) fun _ => keeps_bind keeps_depth fun _ => hunwind _ _

/-- A new exception is thrown as any other, before instructions are looked at. -/
@[grind ←]
theorem keeps_raise (h : Hosted R s) {name message : String} : Keeps R ((context s).throwNew name message) := by
  have hthrow := keeps_throwObject (R := R) h
  change Keeps R (throwNew s name message)
  unfold throwNew
  exact keeps_bind (keeps_newThrowable h) fun _ => hthrow _

end Throwing

/-! ## Initialization -/

namespace Initialization

theorem keeps_pushInitializers (h : Hosted R s) {classes : List ClassId} :
    Keeps R (pushInitializers s classes) := by
  induction classes with
  | nil => exact keeps_pure
  | cons c rest ih =>
    unfold pushInitializers Context.throwStackOverflow
    refine keeps_bind keeps_initializer fun method => keeps_bind keeps_pushFrame fun pushed => ?_
    split
    · exact keeps_bind keeps_record fun _ => ih
    · exact keeps_bind keeps_giveBack fun _ => keeps_raise h

theorem keeps_anySchedule (h : Hosted R s) (c : ClassId) : Keeps R (schedule s c) := by
  unfold schedule
  refine keeps_bind keeps_get fun m => keeps_bind keeps_chain fun (classes, last) => ?_
  dsimp only
  split
  · exact keeps_bind keeps_failedBefore fun _ => keeps_raise h
  · refine keeps_bind keeps_claimAll fun b => ?_
    split
    · exact keeps_pushInitializers h
    · exact keeps_pure

theorem keeps_anyEnsure (h : Hosted R s) (c : ClassId) : Keeps R (ensure s c) := by
  have hschedule := keeps_anySchedule (R := R) h
  unfold ensure
  refine keeps_bind keeps_awaitState fun state => ?_
  grind

end Initialization

/-! ## Calls and threads -/

namespace Execute

theorem keeps_enter (h : Hosted R s) {method : Method} : Keeps R (enter s method) := by
  have hmove (n : Nat) : Keeps R (moveArguments n) := keeps_moveArguments
  unfold enter Context.throwStackOverflow
  grind

theorem keeps_anyEnterCalled (h : Hosted R s) (method : Method) : Keeps R (enterCalled s method) := by
  unfold enterCalled
  exact keeps_bind keeps_recordCall fun _ => keeps_enter h

@[grind ←]
theorem keeps_conclude {method : Method} : Keeps R (conclude method) := by
  unfold conclude
  grind

theorem keeps_anyFinish (width : Nat) : Keeps R (finish width) := by
  unfold finish
  grind

end Execute

namespace Threads

theorem keeps_anyThread (h : Hosted R s) (id : Nat) : Keeps R (runThread s id) := by
  intro m
  let start : Machine := { m with current := id, frames := [], pending := none, overflowing := false }
  have hbody : Keeps R (body s (m.threads.getD id default)) := by
    unfold body reportUncaught
    refine keeps_bind (Services.keeps_invokeVirtual h).run fun r => ?_
    grind
  have hresume {after : Machine} (threadHalt : Option Halt) (hafter : R .done start after) :
      R .done m { resume m after id with threadHalt } := by
    have hstart : R .done m start := Frameless.reframe ⟨rfl⟩
    exact Frameless.reframed (Tolerant.trans hstart hafter) ⟨rfl⟩
  have hrun := hbody start
  unfold After at hrun
  unfold After runThread
  dsimp only
  split at hrun
  · next r after hact =>
    rw [hact]
    exact hresume after.threadHalt hrun
  · next e after hact =>
    rw [hact]
    exact hresume _ (Frameless.halted hrun)

theorem keeps_anyWaiting (h : Hosted R s) (n : Nat) : Keeps R (runWaiting s n) := by
  induction n with
  | zero => exact keeps_throw
  | succ n ih =>
    unfold runWaiting
    refine keeps_bind keeps_get fun m => ?_
    split
    · exact keeps_pure
    · refine keeps_bind (keeps_minor fun _ => .ofSame rfl rfl) fun _ => ?_
      exact keeps_bind (keeps_anyThread h _) fun _ => ih

end Threads

/-- What instructions and native methods are built from keeps a relation that defining classes keeps. -/
theorem Hosted.workingFrameless (h : Hosted R s)
    (hdefine : ∀ l expected data source, Attempt.Keeps R (Linking.defineClass s l expected data source)) :
    Working R R s where
  toHosted := h
  newThrowable _ _ _ := Throwing.keeps_newThrowable h
  defineClass := hdefine
  giveWay := Threads.keeps_anyWaiting h _
  throwObject := Throwing.keeps_throwObject h
  ensure c := .of_keeps (Initialization.keeps_anyEnsure h c)
  enterCalled := Execute.keeps_anyEnterCalled h

/-! ## Runs -/

theorem Interpreter.keeps_anyStep (h : Working R R s) (hfilling : Native.Filling R R s) :
    Keeps R (step Natives.standard s) := by
  have hexecute (i : Instruction) : Keeps R (execute Natives.standard s i) :=
    keeps_execute h (Natives.lawful_standard h hfilling) Execute.keeps_anyFinish
  unfold step advance
  grind

namespace Watched

open Interpreter

variable {look : Machine → Machine} (hlook : ∀ m, R .done m (look m))
include hlook

theorem keeps_anyRun (h : Working R R s) (hfilling : Native.Filling R R s) (n : Nat) :
    Keeps R (run look Natives.standard s n) := by
  have hstep := keeps_anyStep h hfilling
  induction n with
  | zero => exact keeps_throw
  | succ n ih =>
    unfold run isRunning
    refine keeps_bind (keeps_modify hlook) fun _ => ?_
    grind

theorem keeps_anyEmbedded (h : Working R R s) (hfilling : Native.Filling R R s) (fuel : Nat) (method : Method)
    (args : List Slot) : Attempt.Keeps R (embedded look Natives.standard s fuel method args) := by
  have hrun := keeps_anyRun hlook h hfilling fuel
  have hresult (depth : Nat) : Keeps R (callResult method depth) := keeps_callResult
  have henter : Keeps R (Execute.enter s method) := Execute.keeps_enter h.toHosted
  have hbody (depth : Nat) : Keeps R (embedded.body look Natives.standard s fuel method args depth) := by
    unfold embedded.body pushCall
    grind
  unfold embedded
  split
  · refine Attempt.keeps_bind (Attempt.keeps_lift keeps_depth) fun depth => Attempt.keeps_mk ?_
    exact keeps_ensuring_of (hbody depth) fun hact => Frameless.reframed hact ⟨rfl⟩
  · grind

/-- The operations at a level keep a relation if those one level below do, with loading and defining, and the watcher
does. -/
theorem serving_succ {n : Nat} (h : Serving R (services look Natives.standard n))
    (hload : ∀ l name, Attempt.Keeps R (Linking.loadClass (services look Natives.standard n) l name))
    (hdefine : ∀ l expected data source,
      Attempt.Keeps R (Linking.defineClass (services look Natives.standard n) l expected data source))
    (hfilling : Native.Filling R R (services look Natives.standard n))
    (hresolving : Resolving R (services look Natives.standard (n + 1))) :
    Serving R (services look Natives.standard (n + 1)) where
  toResolving := hresolving
  load := hload
  initClass := Initialization.keeps_initializeAtOnce h
  invoke method args := by
    have hwork := h.toHosted.workingFrameless hdefine
    exact Attempt.keeps_bind (Attempt.keeps_lift keeps_recordCall) fun _ =>
      keeps_anyEmbedded hlook hwork hfilling n method args
  runInitializer method := by
    exact Attempt.keeps_discard (keeps_anyEmbedded hlook (h.toHosted.workingFrameless hdefine) hfilling n method [])

end Watched

theorem Interpreter.serving_silent (hresolving : Resolving R .silent) : Serving R .silent where
  toResolving := hresolving
  load _ _ := keeps_throw
  initClass _ := keeps_throw
  invoke _ _ := keeps_throw
  runInitializer _ := keeps_throw

/-- A watcher that does not interfere keeps every relation. -/
theorem Interpreter.serving_succ {n : Nat} (h : Serving R (services Natives.standard n))
    (hload : ∀ l name, Attempt.Keeps R (Linking.loadClass (services Natives.standard n) l name))
    (hdefine : ∀ l expected data source,
      Attempt.Keeps R (Linking.defineClass (services Natives.standard n) l expected data source))
    (hfilling : Native.Filling R R (services Natives.standard n))
    (hresolving : Resolving R (services Natives.standard (n + 1))) :
    Serving R (services Natives.standard (n + 1)) := by
  rw [← Watched.services_id] at *
  exact Watched.serving_succ (fun m => Tolerant.minor (.refl m)) h hload hdefine hfilling hresolving

/-- What the outside asks for keeps a relation that loading and defining keep. -/
theorem Hosted.answeringFrameless (h : Hosted R s) (hbootstrap : Attempt.Keeps R (Boot.bootstrap s))
    (harray : ∀ values, Attempt.Keeps R (Linking.newStringArray s values))
    (hdefine : ∀ l data, Attempt.Keeps R (Linking.define s l data)) : Answering R s where
  toHosted := h
  bootstrap := hbootstrap
  newStringArray := harray
  define := hdefine
  giveWay := Threads.keeps_anyWaiting h _
  halted := Frameless.halted

end JavaMachine
