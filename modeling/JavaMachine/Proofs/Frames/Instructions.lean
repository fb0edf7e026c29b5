import JavaMachine.Proofs.Frames.Kept

/-!
What instructions do to the frame stack. A call from outside stands on the frames from the innermost one on that runs no
code, which are its outer frames. What is `Shifted` keeps frames fitting, and touches the outer frames at most at their
top. While a call goes on its outer frames are not touched at all; it is `Broken` when an exception has left all its
frames. Main results: every instruction but a return goes on with a call or breaks it (`Hosted.workingKept`), and a
return may end it and hands its slots to the frame below (`after_finish`).
-/

namespace JavaMachine

open M Throwing

/-! ## The frames of a call -/

/-- The frames from the innermost one on that runs no code. -/
def outerFrames : List Frame → List Frame
  | .active _ :: rest => outerFrames rest
  | frames => frames

/-- The method of the outermost frame above those. -/
def calledMethod? : List Frame → Option Method
  | .active a :: rest => some ((calledMethod? rest).getD a.method)
  | _ => none

namespace Retouched

variable {a b : List Frame}

theorem outerFrames (h : Retouched a b) : Retouched (outerFrames a) (outerFrames b) := by
  cases h with
  | same => exact .same _
  | top rest hf =>
    cases hf with
    | barrier => exact .top rest .barrier
    | shim hs => exact .top rest (.shim hs)
    | active => exact .same _

theorem calledMethod (h : Retouched a b) : calledMethod? b = calledMethod? a := by
  cases h with
  | same => rfl
  | top rest hf =>
    cases hf with
    | barrier => rfl
    | shim => rfl
    | active hmethod => rw [calledMethod?, calledMethod?, hmethod]

/-- A frame that is touched runs code itself if a call goes on. -/
theorem outerFrames_eq (h : Retouched a b) (hcalled : calledMethod? a ≠ none) :
    JavaMachine.outerFrames b = JavaMachine.outerFrames a := by
  cases h with
  | same => rfl
  | top rest hf =>
    cases hf with
    | barrier => exact absurd rfl hcalled
    | shim => exact absurd rfl hcalled
    | active => rfl

theorem fits (h : Retouched a b) (ha : ∀ f ∈ a, f.Fits) : ∀ f ∈ b, f.Fits := by
  cases h with
  | same => exact ha
  | top rest hf =>
    intro f hmem
    rcases List.mem_cons.1 hmem with rfl | hmem
    · exact (ha _ List.mem_cons_self).becomes hf
    · exact ha f (List.mem_cons_of_mem _ hmem)

theorem length_eq (h : Retouched a b) : b.length = a.length := by
  cases h with
  | same => rfl
  | top => rfl

end Retouched

/-! ## Relations -/

/-- Frames keep fitting, and the outer ones are touched at most at their top. -/
structure Shifted (a b : Machine) : Prop where
  overflowing : b.overflowing = a.overflowing
  options : a.Framed → b.options = a.options
  framed : a.Framed → b.Framed
  outer : Retouched (outerFrames a.frames) (outerFrames b.frames)

/-- A machine in the middle of a call of a method, with no exception pending. -/
def Machine.Calls (m : Machine) (method : Method) : Prop :=
  m.pending = none ∧ calledMethod? m.frames = some method

/-- The call that a machine is in the middle of goes on, and its outer frames are not touched. -/
def Machine.GoesOn (a b : Machine) : Prop :=
  ∀ method, a.Calls method → b.Calls method ∧ outerFrames b.frames = outerFrames a.frames

/-- An exception has left all frames of a call. -/
structure Machine.Broken (m : Machine) : Prop where
  pending : m.pending ≠ none
  ended : calledMethod? m.frames = none

/-- What the parts of an instruction do. -/
structure Works (e : Ending) (a b : Machine) : Prop extends Shifted a b where
  goesOn : e = .done → a.GoesOn b

/-- What an instruction may end with. -/
structure Concludes (e : Ending) (a b : Machine) : Prop extends Shifted a b where
  concludes : e = .done → a.GoesOn b ∨ b.Broken

/-- What throwing an exception does: it breaks the call, if there is no frame left that would go on with it. -/
structure Unwinds (e : Ending) (a b : Machine) : Prop extends Shifted a b where
  unwinds : e = .done → (calledMethod? a.frames ≠ none ∧ a.GoesOn b) ∨ b.Broken

namespace Shifted

variable {a b c : Machine}

theorem refl (m : Machine) : Shifted m m := ⟨rfl, fun _ => rfl, id, .same _⟩

theorem trans (h : Shifted a b) (h' : Shifted b c) : Shifted a c where
  overflowing := h'.overflowing.trans h.overflowing
  options ha := (h'.options (h.framed ha)).trans (h.options ha)
  framed ha := h'.framed (h.framed ha)
  outer := h.outer.trans h'.outer

theorem of_kept {e : Ending} (h : Kept e a b) : Shifted a b :=
  ⟨h.overflowing, h.options, h.framed, by rw [h.frames]; exact .same _⟩

theorem of_touched {m : Machine} {frames : List Frame} (h : Retouched m.frames frames) : Shifted m { m with frames } where
  overflowing := rfl
  options _ := rfl
  framed hm := by
    refine ⟨h.fits hm.fits, ?_⟩
    change frames.length ≤ frameLimit m
    rw [h.length_eq]
    exact hm.depth
  outer := h.outerFrames

/-- A frame that runs code is added where there is room. -/
theorem of_pushed {m : Machine} {a : Activation} (hroom : m.frames.length < frameLimit m) (ha : a.Fits) :
    Shifted m { m with frames := .active a :: m.frames } where
  overflowing := rfl
  options _ := rfl
  framed hm := by
    refine ⟨fun f hf => ?_, hroom⟩
    rcases List.mem_cons.1 hf with rfl | hf
    · rintro _ ⟨⟩
      exact ha
    · exact hm.fits f hf
  outer := .same _

/-- A frame that runs code is taken away. -/
theorem of_popped {m : Machine} {a : Activation} {rest : List Frame} (hm : m.frames = .active a :: rest) :
    Shifted m { m with frames := rest } where
  overflowing := rfl
  options _ := rfl
  framed h := by
    have hdepth := h.depth
    rw [hm, List.length_cons] at hdepth
    refine ⟨fun f hf => h.fits f ?_, Nat.le_of_succ_le hdepth⟩
    rw [hm]
    exact List.mem_cons_of_mem _ hf
  outer := by
    rw [hm]
    exact .same _

end Shifted

namespace Machine.GoesOn

variable {a b c : Machine}

theorem trans (h : a.GoesOn b) (h' : b.GoesOn c) : a.GoesOn c := by
  intro method ha
  obtain ⟨hb, houter⟩ := h method ha
  obtain ⟨hc, houter'⟩ := h' method hb
  exact ⟨hc, houter'.trans houter⟩

theorem of_kept (h : Kept .done a b) : a.GoesOn b := by
  rintro method ⟨hpending, hcalled⟩
  refine ⟨⟨h.pending rfl hpending, ?_⟩, ?_⟩
  · rw [h.frames, hcalled]
  · rw [h.frames]

theorem of_touched {m : Machine} {frames : List Frame} (h : Retouched m.frames frames) : m.GoesOn { m with frames } := by
  rintro method ⟨hpending, hcalled⟩
  refine ⟨⟨hpending, h.calledMethod.trans hcalled⟩, h.outerFrames_eq ?_⟩
  rw [hcalled]
  nofun

/-- A frame on top of the others is not the outermost of a call that goes on. -/
theorem of_pushed {m : Machine} (a : Activation) : m.GoesOn { m with frames := .active a :: m.frames } := by
  rintro method ⟨hpending, hcalled⟩
  refine ⟨⟨hpending, ?_⟩, rfl⟩
  rw [calledMethod?, hcalled]
  rfl

end Machine.GoesOn

namespace Works

variable {e : Ending} {a b c : Machine}

theorem of_kept (h : Kept e a b) : Works e a b :=
  ⟨.of_kept h, by rintro rfl; exact .of_kept h⟩

theorem trans (h : Works .done a b) (h' : Works e b c) : Works e a c :=
  ⟨h.toShifted.trans h'.toShifted, fun hd => (h.goesOn rfl).trans (h'.goesOn hd)⟩

theorem calm (h : Works e a b) (h' : Minor b c) : Works e a c :=
  ⟨h.toShifted.trans (.of_kept (e := e) (.of_aside h'.aside)), fun hd => (h.goesOn hd).trans (.of_kept (.of_aside h'.aside))⟩

end Works

instance : Touching Works where
  minor h := .of_kept (.of_aside h.aside)
  trans := Works.trans
  calm := Works.calm
  stored _ := .of_kept (.of_aside ⟨rfl, rfl, rfl, rfl⟩)
  touch h := ⟨.of_touched h, fun _ => .of_touched h⟩

instance : Careless Works where
  slight h := .of_kept (.of_aside h.aside)

instance : Noting Works where
  enter _ _ _ := .of_kept (.of_aside ⟨rfl, rfl, rfl, rfl⟩)
  note _ := .of_kept (.of_aside ⟨rfl, rfl, rfl, rfl⟩)

/-- What an instruction does at its end tells what the instruction does. -/
theorem Closing.concludes {e : Ending} {a b : Machine} (h : Closing Works Concludes e a b) : Concludes e a b := by
  rcases h with hw | ⟨x, hw, he⟩
  · exact ⟨hw.toShifted, fun hd => .inl (hw.goesOn hd)⟩
  · exact ⟨hw.toShifted.trans he.toShifted, fun hd => (he.concludes hd).imp_left (hw.goesOn rfl).trans⟩

namespace Unwinds

variable {e : Ending} {a b c : Machine}

theorem concludes (h : Unwinds e a b) : Concludes e a b := ⟨h.toShifted, fun hd => (h.unwinds hd).imp_left And.right⟩

/-- Nothing is unwound where the action halts. -/
theorem of_halted (h : Shifted a b) : Unwinds .halted a b := ⟨h, nofun⟩

theorem of_kept (h : Kept .done a b) (h' : Unwinds e b c) : Unwinds e a c := by
  refine ⟨Shifted.trans (.of_kept h) h'.toShifted, fun hd => (h'.unwinds hd).imp_left fun ⟨hcalled, hgoes⟩ => ?_⟩
  rw [h.frames] at hcalled
  exact ⟨hcalled, Machine.GoesOn.trans (.of_kept h) hgoes⟩

/-- Unwinding goes on below a frame that is taken away. -/
theorem of_popped {act : Activation} {rest : List Frame} (ha : a.frames = .active act :: rest)
    (hb : Kept .done { a with frames := rest } b) (h : Unwinds e b c) : Unwinds e a c := by
  refine ⟨((Shifted.of_popped ha).trans (.of_kept hb)).trans h.toShifted, fun hd => ?_⟩
  refine (h.unwinds hd).imp_left fun ⟨hcalled, hgoes⟩ => ⟨by rw [ha]; nofun, ?_⟩
  rintro method ⟨hpending, hmethod⟩
  have hframes : b.frames = rest := hb.frames
  rw [hframes] at hcalled
  obtain ⟨below, hbelow⟩ := Option.ne_none_iff_exists'.1 hcalled
  -- the outermost frame of the call is not the one that was taken away
  rw [ha, calledMethod?, hbelow, Option.getD_some, Option.some_inj] at hmethod
  subst hmethod
  obtain ⟨hcalls, houter⟩ := hgoes below ⟨hb.pending rfl hpending, by rw [hframes, hbelow]⟩
  refine ⟨hcalls, houter.trans ?_⟩
  rw [hframes, ha, outerFrames]

end Unwinds

variable {s : Services}

/-! ## Throwing -/

theorem Hosted.works (h : Hosted Kept s) : Hosted Works s := h.mono .of_kept

theorem kept_escaping (h : Hosted Kept s) (exception : Ref) : Keeps Kept (escaping s exception) := keeps_escaping h

theorem after_popFrame_of {m : Machine} {f : Frame} {rest : List Frame} (hm : m.frames = f :: rest)
    {Q : Frame → Machine → Prop} {H : Machine → Prop} (h : Q f { m with frames := rest }) : After popFrame m Q H := by
  simp only [popFrame, after_bind_iff, after_get, hm, after_modify, after_pure]
  exact h

/-- The frame that is left is taken away, and an initialization that fails with it does not touch the frames below. -/
theorem after_leave_popped (h : Hosted Kept s) {m : Machine} {f : Frame} {rest : List Frame} (hm : m.frames = f :: rest)
    (method : Method) (exception : Ref) :
    After (leave s method exception) m (fun _ => Kept .done { m with frames := rest })
      (Kept .halted { m with frames := rest }) := by
  have hfail : Keeps Kept (failInitialization s method.owner exception) :=
    keeps_bind keeps_finishInit fun _ => kept_escaping h exception
  rw [leave, after_bind_iff]
  refine after_popFrame_of hm ?_
  have hrest : Keeps Kept (do
      if method.isClinit && (← isInitializing method.owner) then failInitialization s method.owner exception
      else return exception) := by
    refine keeps_bind keeps_isInitializing fun b => ?_
    split
    · exact hfail
    · exact keeps_pure
  exact hrest _

theorem unwinds_pending {m : Machine} (hm : calledMethod? m.frames = none) (exception : Ref) :
    Unwinds .done m { m with pending := some exception } :=
  ⟨⟨rfl, fun _ => rfl, fun h => ⟨h.fits, h.depth⟩, .same _⟩, fun _ => .inr ⟨nofun, hm⟩⟩

theorem unwinds_unwind (h : Hosted Kept s) (n : Nat) (exception : Ref) : Keeps Unwinds (unwind s n exception) := by
  induction n generalizing exception with
  | zero => exact fun m => .of_halted (.refl m)
  | succ n ih =>
    intro m
    rw [unwind, after_bind_iff, after_topFrame]
    cases hm : m.frames with
    | nil => exact unwinds_pending (by rw [hm]; rfl) exception
    | cons f rest =>
      cases f with
      | barrier => exact unwinds_pending (by rw [hm]; rfl) exception
      | shim stack => exact unwinds_pending (by rw [hm]; rfl) exception
      | active a =>
        have hcalled (x : Machine) (hx : Kept .done m x) : calledMethod? x.frames ≠ none := by
          rw [hx.frames, hm]
          exact Option.some_ne_none _
        have hleave (x : Machine) (hx : Kept .done m x) :
            After (do
              let exception ← leave s a.method exception
              unwind s n exception) x (fun _ => Unwinds .done m) (Unwinds .halted m) := by
          have hframes := hx.frames.trans hm
          refine After.bind ((after_leave_popped h hframes a.method exception).mono (fun _ _ => id) fun b hb => ?_) ?_
          · exact .of_kept hx (.of_halted ((Shifted.of_popped hframes).trans (.of_kept hb)))
          · intro exception b hb
            refine (ih exception b).mono (fun _ c hc => ?_) fun c hc => ?_
            · exact .of_kept hx (.of_popped hframes hb hc)
            · exact .of_kept hx (.of_popped hframes hb hc)
        dsimp only [List.head?_cons]
        split
        · refine After.bind ((keeps_findHandler h m).mono (fun _ _ => id) fun b hb => .of_halted (.of_kept hb)) ?_
          intro handler x hx
          cases handler with
          | some entry =>
            refine (keeps_deliver (R := Works) x).mono (fun _ b hw => ?_) fun b hw => ?_
            · exact .of_kept hx ⟨hw.toShifted, fun hd => .inl ⟨hcalled x hx, hw.goesOn hd⟩⟩
            · exact .of_kept hx (.of_halted hw.toShifted)
          | none => exact hleave x hx
        · exact hleave m (.of_aside ⟨rfl, rfl, rfl, rfl⟩)

theorem unwinds_throwObject (h : Hosted Kept s) (exception : Option Ref) :
    Keeps Unwinds (throwObject s exception) := by
  intro m
  have hthrow (r : Ref) (x : Machine) (hx : Kept .done m x) :
      After (depth >>= fun n => unwind s (n + 1) r) x (fun _ => Unwinds .done m) (Unwinds .halted m) :=
    (unwinds_unwind h _ r x).mono (fun _ _ => .of_kept hx) fun _ => .of_kept hx
  unfold throwObject
  cases exception with
  | some r => exact hthrow r m (.of_aside ⟨rfl, rfl, rfl, rfl⟩)
  | none =>
    refine After.bind ((kept_newThrowable h _ _ _ m).mono (fun _ _ => id) fun b hb => .of_halted (.of_kept hb)) ?_
    exact fun r x hx => hthrow r x hx

theorem unwinds_throwNew (h : Hosted Kept s) (name message : String) : Keeps Unwinds (throwNew s name message) := by
  intro m
  unfold throwNew
  refine After.bind ((kept_newThrowable h _ _ _ m).mono (fun _ _ => id) fun b hb => .of_halted (.of_kept hb)) ?_
  intro r x hx
  exact (unwinds_throwObject h (some r) x).mono (fun _ _ => .of_kept hx) fun _ => .of_kept hx

/-! ## Entering methods -/

namespace Frame

theorem becomes_popMany {f : Frame} {n : Nat} {args : List Slot} {stack : OperandStack}
    (h : OperandStack.popMany n f.stack = .ok args stack) : f.Becomes (f.withStack stack) := by
  have hpop := OperandStack.orderly_popMany (n := n) f.stack
  rw [h] at hpop
  exact becomes_withStack hpop

end Frame

theorem Slots.size_fill (slots : Slots) (start : Nat) (args : List Slot) : (slots.fill start args).size = slots.size := by
  induction args generalizing slots start with
  | nil => rfl
  | cons v rest ih => rw [Slots.fill, ih, Array.size_setIfInBounds]

/-- A method is entered: its frame is on top of the frame that was, which gave the arguments. -/
structure Entered (method : Method) (a b : Machine) where
  caller : Frame
  below : List Frame
  args : List Slot
  stack : OperandStack
  callee : Activation
  room : a.frames.length < frameLimit a
  frames : a.frames = caller :: below
  given : OperandStack.popMany method.argSlots caller.stack = .ok args stack
  method_eq : callee.method = method
  fits : callee.Fits
  filled : callee.locals = (Slots.ofSize method.maxLocals).fill 0 args
  result : b = { a with frames := .active callee :: caller.withStack stack :: below }

namespace Entered

variable {method : Method} {a b : Machine}

theorem retouched (h : Entered method a b) : Retouched a.frames (h.caller.withStack h.stack :: h.below) := by
  rw [h.frames]
  exact .top _ (Frame.becomes_popMany h.given)

theorem shifted (h : Entered method a b) : Shifted a b := by
  rw [h.result]
  refine (Shifted.of_touched h.retouched).trans (.of_pushed ?_ h.fits)
  change (h.caller.withStack h.stack :: h.below).length < frameLimit a
  rw [h.retouched.length_eq]
  exact h.room

theorem goesOn (h : Entered method a b) : a.GoesOn b := by
  rw [h.result]
  exact (Machine.GoesOn.of_touched h.retouched).trans (.of_pushed _)

end Entered

theorem after_moveArguments {n : Nat} {m : Machine} {callee : Activation} {rest : List Frame}
    (hm : m.frames = .active callee :: rest) {Q : Unit → Machine → Prop} {H : Machine → Prop}
    (hok : ∀ caller below args stack, rest = caller :: below → OperandStack.popMany n caller.stack = .ok args stack →
      Q () { m with
        frames := .active { callee with locals := callee.locals.fill 0 args } :: caller.withStack stack :: below })
    (herror : H m) : After (Execute.moveArguments n) m Q H := by
  unfold After Execute.moveArguments
  rw [hm]
  cases rest with
  | nil => exact herror
  | cons caller below =>
    dsimp only
    cases hgiven : OperandStack.popMany n caller.stack with
    | ok args stack => exact hok caller below args stack rfl hgiven
    | error e stack => exact herror

/-- A method is entered, or an exception is thrown instead. -/
theorem after_enter_frames (h : Hosted Kept s) (method : Method) (m : Machine) :
    After (Execute.enter s method) m (fun _ b => Nonempty (Entered method m b) ∨ Unwinds .done m b) (Shifted m) := by
  have hthrow (name message : String) : After (throwNew s name message) m
      (fun _ b => Nonempty (Entered method m b) ∨ Unwinds .done m b) (Shifted m) :=
    (unwinds_throwNew h name message m).mono (fun _ _ => .inr) fun _ => Unwinds.toShifted
  unfold Execute.enter
  split
  · rw [after_bind_iff, after_classAt]
    exact hthrow _ _
  · rw [after_bind_iff]
    refine after_pushFrame (fun hroom => ?_) (hthrow _ _) (.refl m)
    rw [if_pos rfl]
    have hfits := Frame.fits_ofMethod method _ rfl
    refine after_moveArguments rfl (fun caller below args stack hm hgiven => ?_) (.of_pushed hroom hfits)
    refine .inl ⟨⟨caller, below, args, stack, _, hroom, hm, hgiven, rfl, ?_, rfl, rfl⟩⟩
    exact ⟨hfits.capacity, hfits.tidy, (Slots.size_fill ..).trans hfits.locals⟩

theorem concludes_enterCalled (h : Hosted Kept s) (method : Method) : Keeps Concludes (Execute.enterCalled s method) := by
  have henter : Closes Works Concludes (Execute.enterCalled s method) := by
    refine closes_bind keeps_recordCall fun _ => closes_at_once fun m => ?_
    refine (after_enter_frames h method m).mono (fun _ b hb => ?_) fun b hb => ⟨hb, nofun⟩
    rcases hb with hentered | hthrown
    · obtain ⟨hentered⟩ := hentered
      exact ⟨hentered.shifted, fun _ => .inl hentered.goesOn⟩
    · exact hthrown.concludes
  exact henter.mono Closing.concludes

theorem keeps_pushMethod (method : Method) : Keeps Works (pushFrame (Frame.ofMethod method)) := by
  intro m
  refine after_pushFrame (fun hroom => ?_) (Tolerant.minor (.refl m)) (Tolerant.minor (.refl m))
  exact ⟨.of_pushed hroom (Frame.fits_ofMethod method _ rfl), fun _ => .of_pushed _⟩

/-! ## Initializers -/

namespace Initialization

section closing

variable {R S : Ending → Machine → Machine → Prop} [Noting R]
  (hpush : ∀ method, Keeps R (pushFrame (Frame.ofMethod method)))
  (hraise : ∀ name message, Closes R S (throwNew s name message))
include hpush hraise

theorem closes_pushInitializers (classes : List ClassId) : Closes R S (pushInitializers s classes) := by
  induction classes with
  | nil => exact keeps_pure.closes
  | cons c rest ih =>
    unfold pushInitializers
    refine closes_bind keeps_initializer fun method => closes_bind (hpush method) fun pushed => ?_
    split
    · exact closes_bind keeps_record fun _ => ih
    · exact closes_bind keeps_giveBack fun _ => hraise _ _

theorem closes_schedule (c : ClassId) : Closes R S (schedule s c) := by
  unfold schedule
  refine closes_bind keeps_get fun m => closes_bind keeps_chain fun (classes, last) => ?_
  dsimp only
  split
  · exact closes_bind keeps_failedBefore fun _ => hraise _ _
  · refine closes_bind keeps_claimAll fun claimed => ?_
    split
    · exact closes_pushInitializers hpush hraise classes
    · exact keeps_pure.closes

/-- The instruction that needs a class goes on only if nothing was put on the frame stack and nothing was thrown. -/
theorem settles_ensure [Touching R] (c : ClassId) : Settles R S (ensure s c) (· = true) := by
  unfold ensure
  refine .bind keeps_awaitState fun state => ?_
  split
  · exact .of_keeps keeps_pure
  · exact .of_keeps keeps_pure
  · exact .bind keeps_failedBefore fun _ => .ended (hraise _ _) nofun
  · exact .bind keeps_goOn fun _ => .ended (closes_schedule hpush hraise c) nofun

end closing

end Initialization

theorem closes_raise (h : Hosted Kept s) (name message : String) : Closes Works Concludes (throwNew s name message) :=
  closes_at_once ((unwinds_throwNew h name message).mono Unwinds.concludes)

/-- Every instruction but a return goes on with the call or breaks it. -/
theorem Hosted.workingKept (h : Hosted Kept s) : Working Works Concludes s where
  toHosted := h.works
  newThrowable name message cause := (kept_newThrowable h name message cause).mono .of_kept
  defineClass l expected data source :=
    Keeps.mono .of_kept (Linking.keeps_defineClass h (Linking.kept_publish h) l expected data source)
  giveWay := (Threads.kept_giveWay h).mono .of_kept
  throwObject r := (unwinds_throwObject h r).mono Unwinds.concludes
  ensure := Initialization.settles_ensure keeps_pushMethod (closes_raise h)
  enterCalled := concludes_enterCalled h

/-! ## Returns -/

/-- A return pops the slots of its result, takes the innermost frame away and pushes the slots on the one below. -/
structure Finished (width : Nat) (a b : Machine) where
  callee : Activation
  rest : List Frame
  slots : List Slot
  frames : a.frames = .active callee :: rest
  popped : ∃ stack, Execute.popResult width callee.stack = .ok slots stack
  pending : b.pending = a.pending
  pushed : match rest with
    | [] => b.frames = []
    | f :: below => ∃ stack, OperandStack.pushAll slots f.stack = .ok () stack ∧ b.frames = f.withStack stack :: below

theorem after_conclude_popped {m : Machine} {f : Frame} {rest : List Frame} (hm : m.frames = f :: rest) (method : Method)
    {H : Machine → Prop} :
    After (Execute.conclude method) m (fun _ b => Kept .done { m with frames := rest } b ∧ b.pending = m.pending) H := by
  rw [Execute.conclude, after_bind_iff]
  refine after_popFrame_of hm ?_
  simp only [isInitializing, after_bind_iff, after_get, after_pure]
  split
  · exact ⟨.of_aside ⟨rfl, rfl, rfl, rfl⟩, rfl⟩
  · exact ⟨.of_aside ⟨rfl, rfl, rfl, rfl⟩, rfl⟩

theorem after_onStack {α : Type} {act : OperandStack.Action α} (hact : OperandStack.Orderly act) {m : Machine}
    {Q : α → Machine → Prop} {H : Machine → Prop}
    (hok : ∀ f rest v stack, m.frames = f :: rest → act f.stack = .ok v stack →
      Retouched m.frames (f.withStack stack :: rest) → Q v { m with frames := f.withStack stack :: rest })
    (herror : ∀ b, Shifted m b → H b) : After (onStack act) m Q H := by
  unfold After onStack
  cases hm : m.frames with
  | nil => exact herror m (.refl m)
  | cons f rest =>
    have hstack := hact f.stack
    dsimp only
    cases hr : act f.stack with
    | ok v stack =>
      rw [hr] at hstack
      exact hok f rest v stack hm hr (hm ▸ .top rest (Frame.becomes_withStack hstack))
    | error e stack =>
      rw [hr] at hstack
      exact herror _ (.of_touched (hm ▸ .top rest (Frame.becomes_withStack hstack)))

/-- The slots of a result are pushed on the frame that is innermost now, if there is one. -/
theorem after_pushSlots {slots : List Slot} {m : Machine} {Q : Unit → Machine → Prop} {H : Machine → Prop}
    (hnone : m.frames = [] → Q () m)
    (hok : ∀ f below stack, m.frames = f :: below → OperandStack.pushAll slots f.stack = .ok () stack →
      Retouched m.frames (f.withStack stack :: below) → Q () { m with frames := f.withStack stack :: below })
    (herror : ∀ b, Shifted m b → H b) :
    After (do if (← topFrame).isSome then onStack (OperandStack.pushAll slots)) m Q H := by
  rw [after_bind_iff, after_topFrame]
  cases hm : m.frames with
  | nil => exact hnone hm
  | cons f below =>
    refine after_onStack OperandStack.orderly_pushAll (fun g rest v stack hg hpush htouched => ?_) herror
    rw [hm] at hg
    cases hg
    exact hok f below stack hm hpush htouched

/-- A return hands its slots to the frame below. -/
theorem after_finish (width : Nat) (m : Machine) :
    After (Execute.finish width) m (fun _ b => Shifted m b ∧ Nonempty (Finished width m b)) (Shifted m) := by
  rw [Execute.finish, after_bind_iff]
  refine after_onStack Execute.orderly_popResult (fun f rest slots stack hm hpop htouched => ?_) fun b => id
  have hpopped := Shifted.of_touched htouched
  cases f with
  | barrier => exact hpopped
  | shim s => exact hpopped
  | active a =>
    rw [after_bind_iff]
    change After (Execute.conclude a.method >>= _) { m with frames := .active { a with stack } :: rest } _ _
    rw [after_bind_iff]
    refine (after_conclude_popped rfl a.method (H := Shifted m)).mono (fun _ b hb => ?_) fun _ => id
    obtain ⟨hkept, hpending⟩ := hb
    have hframes : b.frames = rest := hkept.frames
    have hshifted : Shifted m b := (hpopped.trans (.of_popped rfl)).trans (.of_kept hkept)
    refine after_pushSlots (fun hnil => ?_) (fun g below stack hg hpush hbelow => ?_) fun _ => hshifted.trans
    · rw [hframes] at hnil
      subst hnil
      exact ⟨hshifted, ⟨⟨a, [], slots, hm, ⟨_, hpop⟩, hpending, hframes⟩⟩⟩
    · rw [hframes] at hg
      subst hg
      refine ⟨hshifted.trans (.of_touched hbelow), ⟨⟨a, g :: below, slots, hm, ⟨_, hpop⟩, hpending, ?_⟩⟩⟩
      exact ⟨stack, hpush, rfl⟩

end JavaMachine
