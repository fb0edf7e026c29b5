import JavaMachine.Proofs.Fields.Operands
import JavaMachine.Proofs.Frames.Runs
import JavaMachine.Proofs.Initialization.Runs

/-!
Frames between two steps. A machine is `Met` between two steps if a watcher that knows it is noticed.

Main results: the operations at every level are kept under a watcher that keeps the frames
(`Watched.serving_services`), so every machine that is met is framed (`framed_of_met`).
-/

namespace JavaMachine

open M Throwing

/-! ## Calls from outside -/

theorem outerFrames_suffix (frames : List Frame) : outerFrames frames <:+ frames := by
  induction frames with
  | nil => exact List.suffix_refl _
  | cons f rest ih =>
    cases f with
    | barrier => exact List.suffix_refl _
    | shim => exact List.suffix_refl _
    | active => exact ih.trans (List.suffix_cons ..)

theorem Frame.fits_barrier : Frame.Fits .barrier := fun _ h => nomatch h

theorem Frame.fits_shim (stack : OperandStack) : Frame.Fits (.shim stack) := fun _ h => nomatch h

/-- A frame is added where there is room. -/
theorem Machine.Framed.push {m : Machine} (h : m.Framed) {f : Frame} (hf : f.Fits) (hroom : m.frames.length < frameLimit m) :
    { m with frames := f :: m.frames }.Framed where
  fits g hg := by
    rcases List.mem_cons.1 hg with rfl | hg
    · exact hf
    · exact h.fits g hg
  depth := hroom

/-- What happens above the frames that were there. -/
structure Atop (e : Ending) (a b : Machine) : Prop where
  below : a.frames <:+ b.frames
  overflowing : b.overflowing = a.overflowing
  pending : e = .done → a.pending = none → b.pending = none
  options : a.Framed → b.options = a.options

namespace Atop

variable {e : Ending} {a b : Machine}

theorem of_suffix {frames : List Frame} (h : a.frames <:+ frames) : Atop e a { a with frames } :=
  ⟨h, rfl, fun _ => id, fun _ => rfl⟩

/-- Above a barrier and a shim anything may happen to the frames. -/
theorem of_shifted {stack : OperandStack}
    (hstart : a.Framed → { a with frames := .shim stack :: .barrier :: a.frames }.Framed)
    (h : Shifted { a with frames := .shim stack :: .barrier :: a.frames } b) (hpending : e = .done → b.pending = none) :
    Atop e a b where
  below := by
    have houter : Retouched (.shim stack :: .barrier :: a.frames) (outerFrames b.frames) := h.outer
    have hbelow : .barrier :: a.frames <:+ outerFrames b.frames := by
      generalize outerFrames b.frames = frames at houter
      cases houter with
      | same => exact List.suffix_cons ..
      | top => exact List.suffix_cons ..
    exact (List.suffix_cons ..).trans (hbelow.trans (outerFrames_suffix _))
  overflowing := h.overflowing
  pending hd _ := hpending hd
  options ha := h.options (hstart ha)

/-- Taking away what is above leaves the frames as they were. -/
theorem popTo (h : Atop e a b) : Kept e a (M.popTo a.frames.length b) where
  frames := (List.suffix_iff_eq_drop.1 h.below).symm
  overflowing := h.overflowing
  pending := h.pending
  options := h.options

end Atop

instance : Tolerant fun _ => Shifted where
  minor h := .of_kept (e := .done) (.of_aside h.aside)
  trans := Shifted.trans
  calm h h' := h.trans (.of_kept (e := .done) (.of_aside h'.aside))

namespace Interpreter

theorem after_pushCall_frames {args : List Slot} {m : Machine} {Q : Bool → Machine → Prop}
    (hpushed : ∀ stack, shim args = .shim stack →
      (m.Framed → { m with frames := .shim stack :: .barrier :: m.frames }.Framed) →
      Q true { m with frames := .shim stack :: .barrier :: m.frames })
    (hfull : ∀ b, Atop .done m b → Q false b) : After (pushCall args) m Q (Atop .halted m) := by
  have hbarrier {e : Ending} : Atop e m { m with frames := .barrier :: m.frames } := .of_suffix (List.suffix_cons ..)
  obtain ⟨stack, hstack⟩ := exists_shim args
  rw [pushCall, after_bind_iff]
  refine after_pushFrame (fun hroom => ?_) (hfull m (.of_suffix (List.suffix_refl _))) (.of_suffix (List.suffix_refl _))
  rw [hstack]
  refine after_pushFrame (fun hroom' => ?_) (hfull _ hbarrier) hbarrier
  exact hpushed stack hstack fun hm => (hm.push Frame.fits_barrier hroom).push (Frame.fits_shim stack) hroom'

theorem after_lost {method : Method} {m : Machine} {Q : Except Failure (List Slot) → Machine → Prop}
    {H : Machine → Prop} (h : H m) : After (callResult.lost method) m Q H := by
  rw [callResult.lost, methodText, after_bind_iff, after_bind_iff, after_classAt, after_pure]
  exact h

/-- The result of a call is taken, and no exception is pending then. -/
theorem after_callResult {method : Method} {depth : Nat} (m : Machine) :
    After (callResult method depth) m (fun _ b => Shifted m b ∧ b.pending = none) (Shifted m) := by
  rw [callResult, after_bind_iff, after_get]
  cases hpending : m.pending with
  | some exception => exact ⟨⟨rfl, fun _ => rfl, fun h => ⟨h.fits, h.depth⟩, .same _⟩, rfl⟩
  | none =>
    rw [after_bind_iff, after_get]
    split
    · split
      · exact ⟨.refl m, hpending⟩
      · exact after_lost (.refl m)
    · exact after_lost (.refl m)

end Interpreter

namespace Watched

open Interpreter

variable {s : Services} {look : Machine → Machine}

theorem keeps_run (hlook : ∀ m, Kept .done m (look m)) (h : Hosted Kept s) (n : Nat) :
    Keeps (fun _ => Shifted) (run look Natives.standard s n) := by
  induction n with
  | zero => exact keeps_throw
  | succ n ih =>
    unfold run isRunning
    refine keeps_bind (keeps_modify fun m => .of_kept (hlook m)) fun _ => ?_
    refine keeps_bind (keeps_bind keeps_topFrame fun _ => keeps_pure) fun running => ?_
    split
    · exact keeps_bind ((after_step_frames h).mono Advances.toShifted) fun _ => ih
    · exact keeps_pure

/-- A call from outside leaves the frames as they were. -/
theorem kept_embedded (hlook : ∀ m, Kept .done m (look m)) (h : Hosted Kept s) (fuel : Nat) (method : Method)
    (args : List Slot) : Attempt.Keeps Kept (embedded look Natives.standard s fuel method args) := by
  intro m
  have hbody : After (embedded.body look Natives.standard s fuel method args m.frames.length) m
      (fun _ => Atop .done m) (Atop .halted m) := by
    rw [embedded.body, after_bind_iff]
    refine after_pushCall_frames (fun stack _ hframed => ?_) fun b hb => hb
    rw [if_pos rfl, after_bind_iff]
    have hhalted {b : Machine} (hb : Shifted { m with frames := .shim stack :: .barrier :: m.frames } b) :
        Atop .halted m b := .of_shifted hframed hb (by rintro ⟨⟩)
    refine (after_enter_frames h method _).mono (fun _ entered hentered => ?_) fun b hb => hhalted hb
    have hshifted : Shifted { m with frames := .shim stack :: .barrier :: m.frames } entered := by
      rcases hentered with ⟨⟨hentered⟩⟩ | hthrown
      · exact hentered.shifted
      · exact hthrown.toShifted
    rw [after_bind_iff]
    refine (keeps_run hlook h fuel entered).mono (fun _ ended hrun => ?_) fun b hrun => hhalted (hshifted.trans hrun)
    refine (after_callResult ended).mono (fun _ b hb => ?_) fun b hresult =>
      hhalted ((hshifted.trans hrun).trans hresult)
    exact .of_shifted hframed ((hshifted.trans hrun).trans hb.1) fun _ => hb.2
  have hcall : After (ensuring (embedded.body look Natives.standard s fuel method args m.frames.length)
      (popTo m.frames.length)) m (fun _ => Kept .done m) (Kept .halted m) :=
    after_ensuring_iff.2 (hbody.mono (fun _ _ => Atop.popTo) fun _ => Atop.popTo)
  unfold embedded
  split
  · rw [Attempt.after_bind_iff, Attempt.after_lift_iff]
    exact hcall
  · rw [Attempt.after_bind_iff, Attempt.after_lift_iff]
    exact .of_aside ⟨rfl, rfl, rfl, rfl⟩

/-- The operations at every level leave the frames as they were. -/
theorem serving_services (hlook : ∀ m, Kept .done m (look m)) (n : Nat) :
    Serving Kept (services look Natives.standard n) := by
  -- each operation at level `n + 1` is built over those at level `n`
  induction n with
  | zero => exact ⟨⟨.of_load fun _ _ => keeps_throw, fun _ _ => keeps_throw, fun _ => keeps_throw, fun _ _ => keeps_throw⟩,
      fun _ => keeps_throw⟩
  | succ n ih =>
    have hload := Linking.keeps_loadClass ih.toHosted (Linking.kept_publish ih.toHosted)
    have hcall := kept_embedded hlook ih.toHosted n
    refine ⟨⟨.of_load hload, hload, fun c => ?_, fun method args => ?_⟩, fun method => ?_⟩
    · exact Initialization.keeps_initializeAtOnce ih c
    · exact Attempt.keeps_bind (Attempt.keeps_lift keeps_recordCall) fun _ => hcall method args
    · exact Attempt.keeps_discard (hcall method [])

end Watched

/-! ## Machines between steps -/

/-- The machines that come about by requests under a watcher. Between them the outside may change what has nothing to do
with the frame stack. -/
inductive Watched.Reachable (look : Machine → Machine) (options : Options) : Machine → Prop
  | empty (storage : Storage) (stdin : List UInt8) : Reachable look options (Boot.empty options storage stdin)
  | perform {m : Machine} (level : Nat) (r : Request) :
      Reachable look options m → Reachable look options (m.performWatched look level r)
  | aside {m m' : Machine} : Reachable look options m → Aside m m' → Reachable look options m'

/-- A machine is met between two steps if a watcher that gives a mark to no other machine is noticed: the setup, which
carries the mark and which nothing else changes, is not what it was. -/
def Met (options : Options) (x : Machine) : Prop :=
  ∃ (mark : Machine → Options) (m : Machine), (∀ y, y ≠ x → mark y = y.options) ∧
    Watched.Reachable (fun y => { y with options := mark y }) options m ∧ m.options ≠ options

theorem Kept.halted {e : Ending} {a b : Machine} (h : Kept e a b) : Kept .halted a b :=
  ⟨h.frames, h.overflowing, nofun, h.options⟩

instance : Tolerant fun _ => Kept .halted where
  minor h := .of_aside h.aside
  trans h h' := ⟨h'.frames.trans h.frames, h'.overflowing.trans h.overflowing, nofun,
    fun ha => (h'.options (h.framed ha)).trans (h.options ha)⟩
  calm h h' := h.aside h'.aside

/-- Behind requests a halt is an end like any other. -/
theorem Hosted.answeringKept {s : Services} (h : Hosted Kept s) : Answering (fun _ => Kept .halted) s where
  toHosted := h.mono Kept.halted
  bootstrap := Keeps.mono Kept.halted (Boot.keeps_bootstrap h (Linking.keeps_ensureStringClasses h))
  newStringArray _ := Keeps.mono Kept.halted (Linking.keeps_newStringArray h)
  define l data := Keeps.mono Kept.halted (Linking.keeps_define h (Linking.kept_publish h) l data)
  giveWay := (Threads.kept_giveWay h).mono Kept.halted
  halted := id

theorem kept_performWatched {look : Machine → Machine} (hlook : ∀ m, Kept .done m (look m)) (m : Machine) (level : Nat)
    (r : Request) : Kept .halted m (m.performWatched look level r) :=
  left_of_after (r.keeps_perform (Watched.serving_services hlook level).toHosted.answeringKept m)

/-- A watcher that keeps the frames is not noticed. -/
theorem Watched.Reachable.framed {look : Machine → Machine} (hlook : ∀ m, Kept .done m (look m)) {options : Options}
    {m : Machine} (h : Watched.Reachable look options m) : m.Framed ∧ m.options = options := by
  have hkept {a b : Machine} (ha : a.Framed ∧ a.options = options) (hb : Kept .halted a b) :
      b.Framed ∧ b.options = options := ⟨hb.framed ha.1, (hb.options ha.1).trans ha.2⟩
  induction h with
  | empty storage stdin =>
    obtain ⟨hframes, hoptions⟩ := setup_empty options storage stdin
    exact ⟨⟨by rw [hframes]; nofun, by rw [hframes]; exact Nat.zero_le _⟩, hoptions⟩
  | perform level r _ ih => exact hkept ih (kept_performWatched hlook _ level r)
  | aside _ ha ih => exact hkept ih (.of_aside ha)

/-! ## A machine that is met -/

namespace Samples

open Interpreter

/-- The setup of an empty machine. -/
def small : Options := { classPath := .memory 0 "", maxDepth := 8 }

/-- A method that pushes a number and returns. -/
def pushing : Method := {
  owner := sample 0, flags := ⟨8⟩, name := "push", desc := "()V", maxStack := 2, maxLocals := 3
  code := #[0x04, 0xB1] }

/-- The empty machine with the frames of a call from outside, and others above. -/
def called (above : List Frame) : Machine :=
  { Boot.empty small {} [] with frames := above ++ [shim [], .barrier] }

/-- The method before its first instruction. -/
def entered : Activation := { method := pushing, locals := Slots.ofSize 3, stack := OperandStack.ofCapacity 2 }

/-- The method after its first instruction. -/
def pushed : Activation := { entered with stack := ⟨#[.num 1, .null], 1⟩, pc := 0, nextPc := 1 }

/-- The setup that a watcher gives. -/
def mark : Options := { small with maxDepth := 9 }

variable (s : Services)

theorem pushCall_called : pushCall [] (Boot.empty small {} []) = .ok true (called []) := rfl

theorem enter_called : Execute.enter s pushing (called []) = .ok () (called [.active entered]) := rfl

set_option maxRecDepth 20000 in
theorem step_entered : step Natives.standard s (called [.active entered]) = .ok () (called [.active pushed]) := rfl

set_option maxRecDepth 20000 in
theorem step_pushed : step Natives.standard s { called [.active pushed] with options := mark } =
    .ok () { called [] with options := mark } := rfl

variable {look : Machine → Machine} (hentered : look (called [.active entered]) = called [.active entered])
  (hpushed : look (called [.active pushed]) = { called [.active pushed] with options := mark })

include hentered hpushed

set_option maxRecDepth 20000 in
/-- A watcher that gives the mark after the first instruction leaves it; the run is cut off after the second. -/
theorem marked_run : After (Watched.run look Natives.standard s 2) (called [.active entered])
    (fun _ _ => False) (fun b => b.options = mark) := by
  rw [Watched.run, after_bind_iff, after_modify, hentered]
  refine after_bind_of_eq (b := true) rfl (after_bind_of_eq (step_entered s) ?_)
  rw [Watched.run, after_bind_iff, after_modify, hpushed]
  exact after_bind_of_eq (b := true) rfl (after_bind_of_eq (step_pushed s) rfl)

theorem marked_called : ((Boot.empty small {} []).performWatched look 3 (.invoke pushing [])).options = mark := by
  let s := Watched.services look Natives.standard 2
  have hbody : After (Watched.embedded.body look Natives.standard s 2 pushing [] 0) (Boot.empty small {} [])
      (fun _ b => b.options = mark) (fun b => b.options = mark) := by
    rw [Watched.embedded.body]
    refine after_bind_of_eq pushCall_called (after_bind_of_eq (enter_called s) ?_)
    rw [after_bind_iff]
    exact (marked_run s hentered hpushed).mono (fun _ _ => False.elim) fun _ => id
  refine left_of_after (P := fun b => b.options = mark) ?_
  change After ((Watched.invoke look Natives.standard s 2 pushing []).run >>= fun _ => pure ()) _ _ _
  rw [after_bind_iff, Watched.invoke, Attempt.after_bind_iff, Attempt.after_lift_iff]
  have hcall : After (Watched.embedded look Natives.standard s 2 pushing []).run (Boot.empty small {} [])
      (fun _ b => b.options = mark) (fun b => b.options = mark) := by
    rw [Watched.embedded, if_pos (show [].length = pushing.argSlots from rfl), Attempt.after_bind_iff,
      Attempt.after_lift_iff]
    exact after_ensuring_iff.2 (hbody.mono (fun _ _ => id) fun _ => id)
  exact hcall

omit hentered hpushed

set_option maxRecDepth 20000 in
theorem met_pushed : Met small (called [.active pushed]) := by
  classical
  refine ⟨fun y => if y = called [.active pushed] then mark else y.options, _, fun y hy => if_neg hy,
    .perform 3 (.invoke pushing []) (.empty {} []), fun hsame => ?_⟩
  have hother : called [.active entered] ≠ called [.active pushed] := fun h =>
    absurd (congrArg (fun m : Machine => m.frames.map fun f => f.stack.size) h) (by decide)
  have hmarked := (marked_called ?_ ?_).symm.trans hsame
  · exact absurd (congrArg Options.maxDepth hmarked) (by decide)
  · dsimp only
    rw [if_neg hother]
  · dsimp only
    rw [if_pos rfl]

end Samples

/-- Between two steps every frame that runs code has the stack and the local variables that its method asks for, with the
cells above the stack cleared, and there are no more frames than the limit and its reserve allow. -/
theorem framed_of_met {options : Options} {x : Machine} (h : Met options x) :
    (∀ a, .active a ∈ x.frames →
      a.stack.slots.size = a.method.maxStack ∧ a.stack.size ≤ a.stack.slots.size ∧
      (∀ i, a.stack.size ≤ i → i < a.stack.slots.size → a.stack.slots[i]? = some .null) ∧
      a.locals.size = a.method.maxLocals) ∧
    (x.overflowing = false → x.frames.length ≤ x.options.maxDepth) ∧ x.frames.length ≤ x.options.maxDepth + 64 := by
  obtain ⟨mark, m, hothers, hreachable, hnoticed⟩ := h
  have hx : x.Framed := by
    refine Classical.byContradiction fun hx => hnoticed ?_
    -- the watcher gives a mark to no machine that is framed
    have hkept (y : Machine) : Kept .done y { y with options := mark y } :=
      ⟨rfl, rfl, fun _ => id, fun hy => hothers y fun hyx => hx (hyx ▸ hy)⟩
    exact (hreachable.framed hkept).2
  refine ⟨fun a ha => ?_, fun hoverflowing => ?_, ?_⟩
  · have hfits := hx.fits (.active a) ha a rfl
    exact ⟨hfits.capacity, hfits.tidy.fits, hfits.tidy.cleared, hfits.locals⟩
  · have hdepth := hx.depth
    rw [frameLimit, hoverflowing] at hdepth
    exact hdepth
  · have hdepth := hx.depth
    rw [frameLimit] at hdepth
    refine Nat.le_trans hdepth (Nat.add_le_add_left ?_ _)
    split
    · exact Nat.le_refl 64
    · exact Nat.zero_le 64

open Samples in
/-- After the first instruction of a method with a stack of two slots and three local variables. -/
theorem framed_of_met_pushed :
    Met small (called [.active pushed]) ∧
      (called [.active pushed]).overflowing = false ∧ (called [.active pushed]).frames.length ≤ 8 ∧
      pushed.stack.slots.size = 2 ∧ pushed.stack.size ≤ 2 ∧
      (∀ i, pushed.stack.size ≤ i → i < pushed.stack.slots.size → pushed.stack.slots[i]? = some .null) ∧
      pushed.locals.size = 3 := by
  obtain ⟨hfits, hdepth, -⟩ := framed_of_met met_pushed
  obtain ⟨hcapacity, hsize, hcleared, hlocals⟩ := hfits pushed List.mem_cons_self
  exact ⟨met_pushed, rfl, hdepth rfl, hcapacity, hsize, hcleared, hlocals⟩

end JavaMachine
