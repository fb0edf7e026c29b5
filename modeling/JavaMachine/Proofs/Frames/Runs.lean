import JavaMachine.Proofs.Frames.Instructions

/-!
What steps and runs do to the frame stack. Main results: a step goes on with a call, breaks it or returns from it
(`after_step_frames`), so a run from the middle of a call breaks it or returns from it (`returned_of_run`).
-/

namespace JavaMachine

open M Throwing

variable {s : Services}

/-! ## Steps -/

/-- The innermost activation moves on in its code. -/
theorem works_relocated {e : Ending} {m : Machine} {a b : Activation} {rest : List Frame}
    (hm : m.frames = .active a :: rest) (method : b.method = a.method) (stack : b.stack = a.stack)
    (locals : b.locals = a.locals) : Works e m { m with frames := .active b :: rest } := by
  have hfits (ha : a.Fits) : b.Fits :=
    ⟨by rw [stack, method]; exact ha.capacity, by rw [stack]; exact ha.tidy, by rw [locals, method]; exact ha.locals⟩
  refine ⟨⟨rfl, fun _ => rfl, fun h => ⟨fun f hf => ?_, ?_⟩, ?_⟩, fun _ called ⟨hpending, hcalled⟩ => ⟨⟨hpending, ?_⟩, ?_⟩⟩
  · rcases List.mem_cons.1 hf with rfl | hf
    · rintro _ ⟨⟩
      exact hfits (h.fits (.active a) (hm ▸ List.mem_cons_self) a rfl)
    · exact h.fits f (hm ▸ List.mem_cons_of_mem _ hf)
  · have hdepth := h.depth
    rw [hm] at hdepth
    exact hdepth
  · rw [hm]
    exact .same _
  · rw [hm, calledMethod?] at hcalled
    rw [calledMethod?, method]
    exact hcalled
  · rw [hm]
    rfl

namespace Interpreter

theorem after_advance (m : Machine) :
    After advance m
      (fun a b => Works .done m b ∧ ∃ rest, m.frames = .active a :: rest ∧
        b.frames = .active { a with pc := a.nextPc } :: rest ∧ b.pending = m.pending)
      (Works .halted m) := by
  have hsame : Works .halted m m := Tolerant.minor (.refl m)
  rw [advance, after_bind_iff]
  refine after_activation (fun a rest hm => ?_) hsame
  rw [after_bind_iff]
  have hrecorded : After (recordRun a.method) m
      (fun _ b => Works .done m b ∧ b.frames = m.frames ∧ b.pending = m.pending) (Works .halted m) := by
    rw [recordRun, after_modify]
    split
    · exact ⟨Noting.note _, rfl, rfl⟩
    · exact ⟨Tolerant.minor (.refl m), rfl, rfl⟩
  refine hrecorded.mono ?_ fun _ => id
  rintro _ b ⟨hworks, hframes, hpending⟩
  have hb := hframes.trans hm
  simp only [updateActivation, after_bind_iff, after_modify, after_pure, hb]
  exact ⟨hworks.trans (works_relocated hb rfl rfl rfl), rest, hm, rfl, hpending⟩

/-- The last step of a call: a return in the frame of its method hands its slots to the frame below, which runs no
code. -/
inductive Returns (method : Method) (slots : List Slot) (a b : Machine) : Prop
  | intro (callee : Activation) (caller : Frame) (below : List Frame) (width : Nat) (c : CodeCursor)
      (popped pushed : OperandStack)
      (frames : a.frames = .active callee :: caller :: below)
      (idle : caller.activation? = none)
      (runs : callee.method = method)
      (reads : Instruction.read { code := method.code, pos := callee.nextPc } = .ok (.instruction (.finish width)) c)
      (pops : Execute.popResult width callee.stack = .ok slots popped)
      (pushes : OperandStack.pushAll slots caller.stack = .ok () pushed)
      (result : b.frames = caller.withStack pushed :: below)
      (pending : b.pending = none)

/-- What a step does in the middle of a call. -/
structure Advances (e : Ending) (a b : Machine) : Prop extends Shifted a b where
  advances : e = .done → outerFrames a.frames ≠ [] → ∀ method, a.Calls method →
    (b.Calls method ∧ outerFrames b.frames = outerFrames a.frames) ∨ b.Broken ∨ ∃ slots, Returns method slots a b

theorem Advances.of_halted {a b : Machine} (h : Shifted a b) : Advances .halted a b := ⟨h, nofun⟩

theorem Advances.of_concludes {e : Ending} {a b c : Machine} (hw : Works .done a b) (h : Concludes e b c) : Advances e a c := by
  refine ⟨hw.toShifted.trans h.toShifted, fun hd _ method hcalls => ?_⟩
  obtain ⟨hb, houter⟩ := hw.goesOn rfl method hcalls
  rcases h.concludes hd with hgoes | hbroken
  · obtain ⟨hc, houter'⟩ := hgoes method hb
    exact .inl ⟨hc, houter'.trans houter⟩
  · exact .inr (.inl hbroken)

/-- A return from the method of the call ends it; a return from another goes on with it. -/
theorem Advances.of_finished {m b : Machine} {a : Activation} {rest : List Frame} {width : Nat} {c : CodeCursor}
    (hm : m.frames = .active a :: rest)
    (hread : Instruction.read { code := a.method.code, pos := a.nextPc } = .ok (.instruction (.finish width)) c)
    {x : Machine} (hx : x.frames = .active { a with pc := a.nextPc, nextPc := c.pos } :: rest)
    (hpending : x.pending = m.pending) (hshifted : Shifted m b) (hfinished : Finished width x b) :
    Advances .done m b := by
  refine ⟨hshifted, fun _ hnonempty method hcalls => ?_⟩
  obtain ⟨hnone, hcalled⟩ := hcalls
  obtain ⟨callee, below, slots, hcallee, ⟨popped, hpop⟩, hkept, hpushed⟩ := hfinished
  rw [hx] at hcallee
  obtain ⟨hact, rfl⟩ := List.cons.inj hcallee
  obtain rfl := Frame.active.inj hact
  have hb : b.pending = none := hkept.trans (hpending.trans hnone)
  rw [hm, outerFrames] at hnonempty
  rw [hm, calledMethod?, Option.some_inj] at hcalled
  -- the method of the call is that of the innermost frame, unless another frame that runs code is below
  cases rest with
  | nil => exact absurd rfl hnonempty
  | cons f below =>
    obtain ⟨stack, hpush, hframes⟩ := hpushed
    have hidle (hf : f.activation? = none) (hnext : calledMethod? (f :: below) = none) :
        Returns method slots m b := by
      rw [hnext, Option.getD_none] at hcalled
      subst hcalled
      exact ⟨a, f, below, width, c, popped, stack, hm, hf, rfl, hread, hpop, hpush, hframes, hb⟩
    cases f with
    | barrier => exact .inr (.inr ⟨slots, hidle rfl rfl⟩)
    | shim s => exact .inr (.inr ⟨slots, hidle rfl rfl⟩)
    | active caller =>
      refine .inl ⟨⟨hb, ?_⟩, ?_⟩
      · rw [hframes, Frame.withStack, calledMethod?]
        rw [calledMethod?, Option.getD_some] at hcalled
        rw [hcalled]
      · rw [hframes, hm]
        rfl

/-- A step goes on with a call, breaks it or returns from it. -/
theorem after_step_frames (h : Hosted Kept s) : Keeps Advances (step Natives.standard s) := by
  intro m
  unfold step
  refine After.bind ((after_advance m).mono (fun _ _ => id) fun b hb => .of_halted hb.toShifted) ?_
  rintro a x ⟨hworks, rest, hm, hx, hpending⟩
  have hworking {act : M Unit} (hact : Keeps Works act) :
      After act x (fun _ => Advances .done m) (Advances .halted m) :=
    (hact x).mono (fun _ _ hw => .of_concludes hworks (Closing.concludes (.inl hw)))
      fun _ hw => .of_concludes hworks (Closing.concludes (.inl hw))
  split
  · exact hworking keeps_outside
  · exact hworking keeps_throw
  · exact hworking (by grind)
  · exact hworking keeps_fatal
  · next i c hread =>
    simp only [updateActivation, after_bind_iff, after_modify, hx]
    have hmoved : Works .done m { x with frames := .active { a with pc := a.nextPc, nextPc := c.pos } :: rest } :=
      hworks.trans (works_relocated hx rfl rfl rfl)
    by_cases hfinish : ∃ width, i = .finish width
    · obtain ⟨width, rfl⟩ := hfinish
      refine (after_finish width _).mono (fun _ b hb => ?_) fun b hb => .of_halted (hmoved.toShifted.trans hb)
      obtain ⟨hshifted, ⟨hfinished⟩⟩ := hb
      refine .of_finished hm hread ?_ ?_ (hmoved.toShifted.trans hshifted) hfinished
      · rfl
      · exact hpending
    · have hexecute : Closes Works Concludes (execute Natives.standard s i) :=
        closes_execute h.workingKept (Natives.lawful_standard h.workingKept (.of_careless h.workingKept))
          fun width hi => absurd ⟨width, hi⟩ hfinish
      exact (hexecute _).mono (fun _ _ hc => .of_concludes hmoved (Closing.concludes hc))
        fun _ hc => .of_concludes hmoved (Closing.concludes hc)

/-! ## Runs -/

/-- A machine leads to another by steps. -/
inductive Steps (s : Services) : Machine → Machine → Prop
  | refl (m : Machine) : Steps s m m
  | step {a b c : Machine} : step Natives.standard s a = .ok () b → Steps s b c → Steps s a c

/-- A call was returned from: steps lead to the last one of the call, which leaves its outer frames with the result. -/
def Returned (s : Services) (method : Method) (slots : List Slot) (a b : Machine) : Prop :=
  ∃ last, Steps s a last ∧ step Natives.standard s last = .ok () b ∧ Returns method slots last b ∧
    outerFrames last.frames = outerFrames a.frames

theorem Returned.after {method : Method} {slots : List Slot} {a b c : Machine} (hstep : step Natives.standard s a = .ok () b)
    (houter : outerFrames b.frames = outerFrames a.frames) (h : Returned s method slots b c) :
    Returned s method slots a c := by
  obtain ⟨last, hsteps, hlast, hreturns, hbelow⟩ := h
  exact ⟨last, .step hstep hsteps, hlast, hreturns, hbelow.trans houter⟩

/-- The innermost frame runs code if and only if there is a call that goes on. -/
theorem after_isRunning {m : Machine} {Q : Bool → Machine → Prop} {H : Machine → Prop}
    (h : Q (calledMethod? m.frames).isSome m) : After isRunning m Q H := by
  simp only [isRunning, after_bind_iff, after_topFrame, after_pure]
  cases hm : m.frames with
  | nil =>
    rw [hm] at h
    exact h
  | cons f rest =>
    rw [hm] at h
    cases f <;> exact h

/-- A run makes no steps where there is none. -/
theorem after_run_over {m : Machine} (hover : calledMethod? m.frames = none) (n : Nat) :
    After (run Natives.standard s n) m (fun _ b => b = m) fun _ => True := by
  cases n with
  | zero => trivial
  | succ n =>
    rw [run, after_bind_iff]
    refine after_isRunning ?_
    rw [hover]
    rfl

theorem Returns.ended {method : Method} {slots : List Slot} {a b : Machine} (h : Returns method slots a b) :
    calledMethod? b.frames = none := by
  obtain ⟨callee, caller, below, width, c, popped, pushed, -, hidle, -, -, -, -, hframes, -⟩ := h
  rw [hframes]
  cases caller with
  | barrier => rfl
  | shim => rfl
  | active a => nomatch hidle

/-- A run from the middle of a call breaks it or returns from it, if it does not halt. -/
theorem returned_of_run (h : Hosted Kept s) {method : Method} {n : Nat} {a : Machine} (hcalls : a.Calls method)
    (houter : outerFrames a.frames ≠ []) :
    After (run Natives.standard s n) a (fun _ b => b.Broken ∨ ∃ slots, Returned s method slots a b) fun _ => True := by
  induction n generalizing a with
  | zero => trivial
  | succ n ih =>
    rw [run, after_bind_iff]
    refine after_isRunning ?_
    rw [hcalls.2, Option.isSome_some, if_pos rfl, after_bind_iff]
    have hadvances := after_step_frames h a
    unfold After at hadvances ⊢
    split
    · next u b hstep =>
      rw [hstep] at hadvances
      rcases hadvances.advances rfl houter method hcalls with ⟨hb, hsame⟩ | hbroken | ⟨slots, hreturns⟩
      · refine (ih hb (hsame ▸ houter)).mono (fun _ c hc => hc.imp_right fun hreturned => ?_) fun _ => id
        obtain ⟨slots, hreturned⟩ := hreturned
        exact ⟨slots, hreturned.after hstep hsame⟩
      · exact (after_run_over hbroken.ended n).mono (fun _ c hc => .inl (hc ▸ hbroken)) fun _ => id
      · refine (after_run_over hreturns.ended n).mono (fun _ c hc => .inr ⟨slots, ?_⟩) fun _ => id
        subst hc
        exact ⟨a, .refl a, hstep, hreturns, rfl⟩
    · trivial

end Interpreter

end JavaMachine
