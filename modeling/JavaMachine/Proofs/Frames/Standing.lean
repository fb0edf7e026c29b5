import JavaMachine.Proofs.Code.Fetch
import JavaMachine.Proofs.Frames.Runs

/-!
Frames that stay while steps go on above them. A frame stands on others as long as nothing takes it away, and those below
it are not touched meanwhile: what the parts of an instruction do is `Staying`, and an instruction may end by `Leaving`.
Main result: `ReturnedAbove.exists_return`, that steps which never leave a frame, up to the return that takes it away,
end with a return of its own method to the frames that were below it.
-/

namespace JavaMachine

open M Throwing Interpreter

variable {s : Services} {method : Method} {base : List Frame}

/-- A frame of a method stands on others. -/
def Standing (method : Method) (base frames : List Frame) : Prop :=
  ∃ above a, frames = above ++ .active a :: base ∧ a.method = method

namespace Standing

variable {frames rest : List Frame} {f g : Frame}

theorem cons (h : Standing method base frames) (f : Frame) : Standing method base (f :: frames) := by
  obtain ⟨above, a, rfl, hmethod⟩ := h
  exact ⟨f :: above, a, rfl, hmethod⟩

/-- Below the innermost frame the frame stands too, or the others are all that is left. -/
theorem tail (h : Standing method base (f :: rest)) : Standing method base rest ∨ rest = base := by
  obtain ⟨above, a, hframes, hmethod⟩ := h
  cases above with
  | nil => exact .inr (List.cons.inj hframes).2
  | cons _ above => exact .inl ⟨above, a, (List.cons.inj hframes).2, hmethod⟩

/-- The innermost frame may become another of its method. -/
theorem top (h : Standing method base (f :: rest))
    (hg : ∀ a, f = .active a → ∃ b, g = .active b ∧ b.method = a.method) : Standing method base (g :: rest) := by
  obtain ⟨above, a, hframes, rfl⟩ := h
  cases above with
  | nil =>
    obtain ⟨rfl, rfl⟩ := List.cons.inj hframes
    obtain ⟨b, rfl, hb⟩ := hg a rfl
    exact ⟨[], b, rfl, hb⟩
  | cons _ above => exact ⟨g :: above, a, congrArg (g :: ·) (List.cons.inj hframes).2, rfl⟩

theorem becomes (h : Standing method base (f :: rest)) (hf : f.Becomes g) : Standing method base (g :: rest) := by
  refine h.top ?_
  rintro a rfl
  cases hf with
  | active hmethod => exact ⟨_, rfl, hmethod⟩

theorem retouched (h : Standing method base frames) {frames' : List Frame} (ht : Retouched frames frames') :
    Standing method base frames' := by
  cases ht with
  | same => exact h
  | top rest hf => exact h.becomes hf

end Standing

/-! ## Relations -/

/-- A frame goes on standing on others. -/
def Staying (method : Method) (base : List Frame) (e : Ending) (a b : Machine) : Prop :=
  e = .done → Standing method base a.frames → Standing method base b.frames

/-- A frame stands on others, or nothing does. -/
def Sunk (method : Method) (base frames : List Frame) : Prop :=
  Standing method base frames ∨ frames.length ≤ base.length

/-- A frame goes on standing on others, or nothing does afterwards. -/
def Leaving (method : Method) (base : List Frame) (e : Ending) (a b : Machine) : Prop :=
  e = .done → Standing method base a.frames → Sunk method base b.frames

/-- Nothing stands on the frames if nothing did, and if a frame did it is the same or it is gone. -/
def Sinking (method : Method) (base : List Frame) (e : Ending) (a b : Machine) : Prop :=
  e = .done → Sunk method base a.frames → Sunk method base b.frames

theorem Staying.of_frames {e : Ending} {a b : Machine} (h : b.frames = a.frames) : Staying method base e a b :=
  fun _ ha => h ▸ ha

theorem Sinking.of_frames {e : Ending} {a b : Machine} (h : b.frames = a.frames) : Sinking method base e a b :=
  fun _ ha => h ▸ ha

instance : Touching (Staying method base) where
  minor h := .of_frames h.frames
  trans h h' hd ha := h' hd (h rfl ha)
  calm h hm hd ha := Staying.of_frames hm.frames hd (h hd ha)
  stored _ := .of_frames rfl
  touch h _ ha := ha.retouched h

instance : Careless (Staying method base) where
  slight h := .of_frames h.frames

instance : Noting (Staying method base) where
  enter _ _ _ := .of_frames rfl
  note _ := .of_frames rfl

instance : Touching (Sinking method base) where
  minor h := .of_frames h.frames
  trans h h' hd ha := h' hd (h rfl ha)
  calm h hm hd ha := Sinking.of_frames hm.frames hd (h hd ha)
  stored _ := .of_frames rfl
  touch h _ ha := ha.imp (fun ha => ha.retouched h) fun ha => h.length_eq ▸ ha

instance : Noting (Sinking method base) where
  enter _ _ _ := .of_frames rfl
  note _ := .of_frames rfl

theorem Sinking.leaving {e : Ending} {a b : Machine} (h : Sinking method base e a b) : Leaving method base e a b :=
  fun hd ha => h hd (.inl ha)

theorem Closing.leaving {e : Ending} {a b : Machine} (h : Closing (Staying method base) (Leaving method base) e a b) :
    Leaving method base e a b := by
  rcases h with hstays | ⟨c, hstays, hleaves⟩
  · exact fun hd ha => .inl (hstays hd ha)
  · exact fun hd ha => hleaves hd (hstays rfl ha)

/-! ## Throwing -/

theorem Hosted.staying (h : Hosted Kept s) : Hosted (Staying method base) s := h.mono fun hk => .of_frames hk.frames

theorem Hosted.sinking (h : Hosted Kept s) : Hosted (Sinking method base) s := h.mono fun hk => .of_frames hk.frames

theorem sinks_popFrame : Keeps (Sinking method base) popFrame := by
  intro m
  unfold popFrame
  rw [after_bind_iff, after_get]
  cases hm : m.frames with
  | nil => exact (Sinking.of_frames rfl : Sinking method base .halted m m)
  | cons f rest =>
    intro _ hsunk
    rw [hm] at hsunk
    rcases hsunk with hstands | hlow
    · rcases hstands.tail with hstands | rfl
      · exact .inl hstands
      · exact .inr (Nat.le_refl _)
    · exact .inr (Nat.le_of_succ_le hlow)

theorem sinks_leave (h : Hosted Kept s) (method' : Method) (exception : Ref) :
    Keeps (Sinking method base) (leave s method' exception) := by
  have hescape : Keeps (Sinking method base) (escaping s exception) := keeps_escaping h.sinking
  unfold leave failInitialization
  refine keeps_bind sinks_popFrame fun _ => keeps_bind keeps_isInitializing fun b => ?_
  split
  · exact keeps_bind keeps_finishInit fun _ => hescape
  · exact keeps_pure

theorem sinks_unwind (h : Hosted Kept s) (n : Nat) (exception : Ref) :
    Keeps (Sinking method base) (unwind s n exception) := by
  induction n generalizing exception with
  | zero => exact keeps_throw
  | succ n ih =>
    have hleave (a : Activation) : Keeps (Sinking method base) (do
        let exception ← leave s a.method exception
        unwind s n exception) := keeps_bind (sinks_leave h _ _) fun _ => ih _
    unfold unwind
    refine keeps_bind keeps_topFrame fun f => ?_
    split
    · next a =>
      -- a handler is looked for where there is code, and takes the exception if there is one
      split
      · refine keeps_bind (keeps_findHandler h.sinking) fun handler => ?_
        cases handler with
        | some entry => exact keeps_deliver
        | none => exact hleave a
      · refine keeps_bind keeps_pure fun handler => ?_
        cases handler with
        | some entry => exact keeps_deliver
        | none => exact hleave a
    · exact keeps_modify fun _ => .of_frames rfl

theorem leaves_throwObject (h : Hosted Kept s) (exception : Option Ref) :
    Keeps (Leaving method base) (throwObject s exception) := by
  have hsinks : Keeps (Sinking method base) (throwObject s exception) := by
    have hunwind (n : Nat) (r : Ref) : Keeps (Sinking method base) (unwind s n r) := sinks_unwind h n r
    unfold throwObject
    cases exception with
    | some r => exact keeps_bind keeps_pure fun _ => keeps_bind keeps_depth fun _ => hunwind _ _
    | none =>
      have hmade : Keeps (Sinking method base) (newThrowable s Throwables.nullPointer "" none) :=
        (kept_newThrowable h _ _ _).mono fun hk => .of_frames hk.frames
      exact keeps_bind hmade fun _ => keeps_bind keeps_depth fun _ => hunwind _ _
  exact hsinks.mono Sinking.leaving

theorem leaves_throwNew (h : Hosted Kept s) (name message : String) :
    Closes (Staying method base) (Leaving method base) (throwNew s name message) := by
  have hmade : Keeps (Staying method base) (newThrowable s name message none) :=
    (kept_newThrowable h _ _ _).mono fun hk => .of_frames hk.frames
  unfold throwNew
  exact closes_bind hmade fun _ => closes_at_once (leaves_throwObject h _)

/-! ## Instructions -/

theorem stays_pushFrame (f : Frame) : Keeps (Staying method base) (pushFrame f) :=
  fun _ => after_pushFrame (fun _ _ hm => hm.cons f) (.of_frames rfl) (.of_frames rfl)

/-- The arguments of a method are taken from the frame that was innermost, which stays where it is. -/
theorem leaves_enter (h : Hosted Kept s) (called : Method) :
    Keeps (Leaving method base) (Execute.enter s called) := by
  intro m
  have hthrow (name message : String) : After (throwNew s name message) m (fun _ => Leaving method base .done m)
      (Leaving method base .halted m) :=
    (leaves_throwNew h name message m).mono (fun _ _ => Closing.leaving) fun _ => Closing.leaving
  unfold Execute.enter
  split
  · rw [after_bind_iff, after_classAt]
    exact hthrow _ _
  · rw [after_bind_iff]
    refine after_pushFrame (fun _ => ?_) (hthrow _ _) nofun
    rw [if_pos rfl]
    refine after_moveArguments rfl (fun caller below args stack hm hgiven _ hstands => .inl ?_) nofun
    rw [hm] at hstands
    exact (hstands.becomes (Frame.becomes_popMany hgiven)).cons _

theorem leaves_enterCalled (h : Hosted Kept s) (called : Method) :
    Keeps (Leaving method base) (Execute.enterCalled s called) := by
  have henter : Closes (Staying method base) (Leaving method base) (Execute.enterCalled s called) :=
    closes_bind keeps_recordCall fun _ => closes_at_once (leaves_enter h called)
  exact henter.mono Closing.leaving

/-- A frame that stands on others goes on doing so while an instruction is executed that is no return, or is gone then. -/
theorem Hosted.workingStaying (h : Hosted Kept s) : Working (Staying method base) (Leaving method base) s where
  toHosted := h.staying
  newThrowable name message cause := (kept_newThrowable h name message cause).mono fun hk => .of_frames hk.frames
  defineClass l expected data source :=
    Keeps.mono (fun hk => .of_frames hk.frames)
      (Linking.keeps_defineClass h (Linking.kept_publish h) l expected data source)
  giveWay := (Threads.kept_giveWay h).mono fun hk => .of_frames hk.frames
  throwObject := leaves_throwObject h
  ensure := Initialization.settles_ensure (fun _ => stays_pushFrame _) (leaves_throwNew h)
  enterCalled := leaves_enterCalled h

/-- A return takes the innermost frame away, and touches the one below it. -/
theorem Finished.leaving {width : Nat} {a b : Machine} (h : Finished width a b) : Leaving method base .done a b := by
  intro _ ha
  obtain ⟨callee, rest, slots, hframes, -, -, hpushed⟩ := h
  rw [hframes] at ha
  cases rest with
  | nil =>
    have hb : b.frames = [] := hpushed
    exact .inr (hb ▸ Nat.zero_le _)
  | cons f below =>
    obtain ⟨stack, hpush, hb⟩ := hpushed
    have hstack : f.stack.Becomes (left (OperandStack.pushAll slots f.stack)) := OperandStack.orderly_pushAll f.stack
    rw [hpush] at hstack
    rw [hb]
    rcases ha.tail with hstands | rfl
    · exact .inl (hstands.becomes (Frame.becomes_withStack hstack))
    · exact .inr (Nat.le_refl _)

theorem leaves_step (h : Hosted Kept s) : Keeps (Leaving method base) (step Natives.standard s) := by
  intro m
  unfold step
  refine After.bind ((after_advance m).mono (fun _ _ => id) fun _ _ => nofun) ?_
  rintro a x ⟨-, rest, hm, hx, -⟩
  have hadvanced (hstands : Standing method base m.frames) (b : Activation) (hb : b.method = a.method) :
      Standing method base (.active b :: rest) := by
    rw [hm] at hstands
    refine hstands.top ?_
    rintro _ ⟨⟩
    exact ⟨b, rfl, hb⟩
  have hworking {act : M Unit} (hact : Keeps (Staying method base) act) :
      After act x (fun _ => Leaving method base .done m) (Leaving method base .halted m) := by
    refine (hact x).mono (fun _ b hstays _ hstands => .inl (hstays rfl ?_)) fun _ _ => nofun
    rw [hx]
    exact hadvanced hstands _ rfl
  split
  · exact hworking keeps_outside
  · exact hworking keeps_throw
  · exact hworking (by grind)
  · exact hworking keeps_fatal
  · next i c hread =>
    simp only [updateActivation, after_bind_iff, after_modify, hx]
    have hmoved (hstands : Standing method base m.frames) := hadvanced hstands { a with pc := a.nextPc, nextPc := c.pos } rfl
    by_cases hfinish : ∃ width, i = .finish width
    · obtain ⟨width, rfl⟩ := hfinish
      refine (after_finish width _).mono (fun _ b hb hd hstands => ?_) fun _ _ => nofun
      obtain ⟨-, ⟨hfinished⟩⟩ := hb
      exact hfinished.leaving hd (hmoved hstands)
    · have hexecute : Closes (Staying method base) (Leaving method base) (execute Natives.standard s i) :=
        closes_execute h.workingStaying (Natives.lawful_standard h.workingStaying (.of_careless h.workingStaying))
          fun width hi => absurd ⟨width, hi⟩ hfinish
      exact (hexecute _).mono (fun _ _ hc hd hstands => Closing.leaving hc hd (hmoved hstands)) fun _ _ => nofun

/-! ## Runs -/

/-- Steps after each of which there are more frames than some. -/
inductive StepsAbove (s : Services) (depth : Nat) : Machine → Machine → Prop
  | refl (m : Machine) : StepsAbove s depth m m
  | step {a b c : Machine} : step Natives.standard s a = .ok () b → depth < b.frames.length → StepsAbove s depth b c →
      StepsAbove s depth a c

/-- What each step keeps, steps above some frames keep. -/
theorem StepsAbove.holds {R : Ending → Machine → Machine → Prop} [Tolerant R]
    (hstep : Keeps R (Interpreter.step Natives.standard s)) {depth : Nat} {a b : Machine} (h : StepsAbove s depth a b) :
    R .done a b := by
  induction h with
  | refl m => exact Tolerant.minor (.refl m)
  | step hab _ _ ih => exact Tolerant.trans ((hstep _).of_ok hab) ih

/-- A frame goes on standing on others while there are more frames than these. -/
theorem StepsAbove.standing (h : Hosted Kept s) {a b : Machine} (hsteps : StepsAbove s base.length a b)
    (ha : Standing method base a.frames) : Standing method base b.frames := by
  induction hsteps with
  | refl => exact ha
  | step hstep hdepth _ ih =>
    rcases (leaves_step h _).of_ok hstep rfl ha with hb | hlow
    · exact ih hb
    · exact absurd hdepth (Nat.not_lt.2 hlow)

/-- Steps above some frames lead to a return that takes the last frame above them away. -/
inductive ReturnedAbove (s : Services) (depth width : Nat) (a b : Machine) : Prop
  | intro (last : Machine) (callee : Activation) (below : List Frame) (cursor : CodeCursor)
      (steps : StepsAbove s depth a last)
      (frames : last.frames = .active callee :: below)
      (above : below.length = depth)
      (reads : Instruction.read callee.cursor = .ok (.instruction (.finish width)) cursor)
      (returns : step Natives.standard s last = .ok () b)

theorem ReturnedAbove.holds {R : Ending → Machine → Machine → Prop} [Tolerant R]
    (hstep : Keeps R (step Natives.standard s)) {depth width : Nat} {a b : Machine} (h : ReturnedAbove s depth width a b) :
    R .done a b := by
  obtain ⟨last, _, _, _, hsteps, _, _, _, hreturns⟩ := h
  exact Tolerant.trans (hsteps.holds hstep) ((hstep _).of_ok hreturns)

/-- A frame that stood on the others all the time returns. -/
theorem ReturnedAbove.exists_return (h : Hosted Kept s) {width : Nat} {a b : Machine}
    (hreturned : ReturnedAbove s base.length width a b) (ha : Standing method base a.frames) :
    ∃ last callee cursor, StepsAbove s base.length a last ∧ last.frames = .active callee :: base ∧
      callee.method = method ∧ Instruction.read callee.cursor = .ok (.instruction (.finish width)) cursor ∧
      step Natives.standard s last = .ok () b := by
  obtain ⟨last, callee, below, cursor, hsteps, hframes, hdepth, hread, hstep⟩ := hreturned
  obtain ⟨above, d, hlast, hmethod⟩ := hsteps.standing h ha
  rw [hframes] at hlast
  have hlength := congrArg List.length hlast
  rw [List.length_cons, hdepth, List.length_append, List.length_cons] at hlength
  obtain rfl := List.eq_nil_of_length_eq_zero (l := above) (by omega)
  obtain ⟨hcallee, rfl⟩ := List.cons.inj hlast
  obtain rfl := Frame.active.inj hcallee
  exact ⟨last, callee, cursor, hsteps, hframes, hmethod, hread, hstep⟩

end JavaMachine
