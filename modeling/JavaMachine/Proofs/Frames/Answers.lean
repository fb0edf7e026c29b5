import JavaMachine.Proofs.Frames.Watched

/-!
What a call from outside leaves. The operand stack of its shim is empty while the call goes on, so the result that is
taken from it is what the last return of the call has put there. Main result: a call that returns leaves the frames as
they were, with no exception pending, and its slots are those that the return popped (`frames_after_call`).
-/

namespace JavaMachine

open M Throwing

variable {s : Services}

/-! ## The shim -/

namespace OperandStack

theorem carries_ofCapacity (n : Nat) : (ofCapacity n).Carries [] where
  fits := Nat.zero_le _
  list := by simp [toList, ofCapacity]

theorem pushAll_cons (v : Slot) (rest : List Slot) (s : OperandStack) :
    pushAll (v :: rest) s = EStateM.bind (push v) (fun _ => pushAll rest) s := rfl

theorem Carries.pushAll {s : OperandStack} {below : List Slot} (h : s.Carries below) (slots : List Slot)
    (hroom : below.length + slots.length ≤ s.slots.size) :
    ∃ s', OperandStack.pushAll slots s = .ok () s' ∧ s'.Carries (below ++ slots) := by
  induction slots generalizing s below with
  | nil => exact ⟨s, rfl, (List.append_nil below).symm ▸ h⟩
  | cons v rest ih =>
    rw [List.length_cons] at hroom
    obtain ⟨t, hpush, hcarries, hsize⟩ := h.push (by omega) v
    obtain ⟨u, hrest, hall⟩ := ih hcarries (by rw [List.length_append, List.length_singleton]; omega)
    refine ⟨u, ?_, List.append_assoc below [v] rest ▸ hall⟩
    rw [pushAll_cons, EStateM.bind, hpush]
    exact hrest

/-- Slots are only pushed where there is room for them. -/
theorem Carries.of_pushAll {s s' : OperandStack} {below slots : List Slot} (h : s.Carries below)
    (hpush : OperandStack.pushAll slots s = .ok () s') : s'.Carries (below ++ slots) := by
  induction slots generalizing s below with
  | nil =>
    cases hpush
    exact (List.append_nil below).symm ▸ h
  | cons v rest ih =>
    rw [pushAll_cons, EStateM.bind] at hpush
    by_cases hroom : s.slots.size ≤ s.size
    · rw [OperandStack.push, if_pos hroom] at hpush
      cases hpush
    · obtain ⟨t, hv, hcarries, -⟩ := h.push (by rw [← h.size]; omega) v
      rw [hv] at hpush
      exact List.append_assoc below [v] rest ▸ ih hcarries hpush

/-- The slots that are popped are those on top, and the others stay. -/
theorem Carries.of_popMany {s s' : OperandStack} {operands args : List Slot} {n : Nat} (h : s.Carries operands)
    (hpop : OperandStack.popMany n s = .ok args s') :
    args.length = n ∧ ∃ below, operands = below ++ args ∧ s'.Carries below := by
  have hsize := h.size
  have hfits := h.fits
  rw [popMany] at hpop
  split at hpop
  · nomatch hpop
  · next hroom =>
    cases hpop
    have hargs : (s.slots.extract (s.size - n) s.size).toList = operands.drop (s.size - n) := by
      rw [← h.list, toList, Array.toList_extract, Array.toList_extract, List.extract_eq_take_drop,
        List.extract_eq_take_drop, List.drop_zero, Nat.sub_zero, List.drop_take]
    have hbelow : (operands.take (s.size - n)).length = s.size - n := by
      rw [List.length_take, ← hsize]
      omega
    refine ⟨?_, operands.take (s.size - n), ?_, ?_⟩
    · rw [hargs, List.length_drop, ← hsize]
      omega
    · rw [hargs, List.take_append_drop]
    · generalize hlower : operands.take (s.size - n) = lower at hbelow
      rw [← hbelow]
      refine .of_getElem? ?_ fun i hi => ?_
      · rw [size_clearFrom]
        omega
      · rw [getElem?_clearFrom _ _ _ _ (by omega), if_neg (by omega), h.getElem? (by omega), ← hlower,
          List.getElem?_take, if_pos (by omega)]

end OperandStack

namespace Interpreter

theorem shim_carries (args : List Slot) : ∃ stack, shim args = .shim stack ∧ stack.Carries args := by
  obtain ⟨stack, hpush, hcarries⟩ := (OperandStack.carries_ofCapacity (max args.length 2)).pushAll args (by
    rw [OperandStack.ofCapacity, Slots.ofSize, Array.size_replicate, List.length_nil]
    omega)
  refine ⟨stack, ?_, hcarries⟩
  rw [shim]
  simp only [hpush]

/-! ## Answers -/

/-- A call of a method from outside is answered: its frame is entered above a shim and a barrier, steps lead to its last
return, which pops the slots of the answer, and then the frames above those that were there are taken away. -/
def Answered (s : Services) (method : Method) (slots : List Slot) (a b : Machine) : Prop :=
  ∃ start ended callee stack, callee.method = method ∧
    start.frames = .active callee :: .shim stack :: .barrier :: a.frames ∧
    Returned s method slots start ended ∧ b = popTo a.frames.length ended

/-- The slots of a result are what the return has put on the empty stack of the shim. -/
theorem after_callResult_returned {method : Method} {slots : List Slot} {start ended : Machine} {callee : Activation}
    {stack : OperandStack} {below : List Frame} (hstart : start.frames = .active callee :: .shim stack :: below)
    (hempty : stack.Carries []) (h : Returned s method slots start ended) (depth : Nat) :
    After (callResult method depth) ended (fun r b => ∀ v, r = .ok v → v = slots ∧ b = ended) fun _ => True := by
  obtain ⟨last, -, -, hreturns, houter⟩ := h
  obtain ⟨inner, caller, rest, width, c, popped, pushed, hlast, hidle, -, -, -, hpush, hframes, hpending⟩ := hreturns
  have hcaller : caller = .shim stack ∧ rest = below := by
    rw [hlast, hstart] at houter
    cases caller with
    | active a => nomatch hidle
    | barrier => nomatch houter
    | shim =>
      cases houter
      exact ⟨rfl, rfl⟩
  obtain ⟨rfl, rfl⟩ := hcaller
  have hcarries := hempty.of_pushAll hpush
  rw [List.nil_append] at hcarries
  rw [callResult, after_bind_iff, after_get, hpending, after_bind_iff, after_get, hframes]
  change After (if rest.length = depth + 1 then return .ok pushed.toList else callResult.lost method) ended _ _
  split
  · rintro v ⟨⟩
    exact ⟨hcarries.list, rfl⟩
  · exact after_lost trivial

/-- An exception that is left pending is the answer. -/
theorem after_callResult_pending {method : Method} {ended : Machine} (h : ended.pending ≠ none) (depth : Nat) :
    After (callResult method depth) ended (fun r _ => ∀ v, r ≠ .ok v) fun _ => True := by
  obtain ⟨exception, hpending⟩ := Option.ne_none_iff_exists'.1 h
  rw [callResult, after_bind_iff, after_get, hpending]
  intro v hanswer
  cases hanswer

/-- Above the shim of a call an exception is left pending, or the call is answered. -/
theorem after_called (h : Hosted Kept s) {method : Method} {args : List Slot} (hargs : args.length = method.argSlots)
    {m : Machine} (hpending : m.pending = none) {stack : OperandStack} (hstack : stack.Carries args) (fuel : Nat) :
    After (do
        Execute.enter s method
        run Natives.standard s fuel
        callResult method m.frames.length) { m with frames := .shim stack :: .barrier :: m.frames }
      (fun r b => ∀ slots, r = .ok slots → Answered s method slots m (popTo m.frames.length b)) fun _ => True := by
  have hbroken {ended : Machine} (hover : ended.Broken) : After (do
      run Natives.standard s fuel
      callResult method m.frames.length) ended
      (fun r b => ∀ slots, r = .ok slots → Answered s method slots m (popTo m.frames.length b)) fun _ => True := by
    rw [after_bind_iff]
    refine (after_run_over hover.ended fuel).mono (fun _ b hb => ?_) fun _ => id
    subst hb
    refine (after_callResult_pending hover.pending _).mono (fun r _ hr slots hslots => ?_) fun _ => id
    exact absurd hslots (hr slots)
  rw [after_bind_iff]
  refine (after_enter_frames h method _).mono (fun _ start hstart => ?_) fun _ _ => trivial
  rcases hstart with hentered | hthrown
  · obtain ⟨⟨caller, below, given, left, callee, -, hframes, hgiven, hmethod, -, -, hstart⟩⟩ := hentered
    cases hframes
    subst hstart
    have hempty : left.Carries [] := by
      obtain ⟨hgiven, below, hsplit, hleft⟩ := hstack.of_popMany hgiven
      have hlength := congrArg List.length hsplit
      rw [List.length_append] at hlength
      rwa [List.eq_nil_of_length_eq_zero (l := below) (by omega)] at hleft
    have hcalls : Machine.Calls { m with frames := .active callee :: .shim left :: .barrier :: m.frames } method :=
      ⟨hpending, congrArg some hmethod⟩
    have houter : outerFrames (.active callee :: .shim left :: .barrier :: m.frames) ≠ [] := List.cons_ne_nil _ _
    rw [after_bind_iff]
    refine (returned_of_run h hcalls houter).mono (fun _ ended hover => ?_) fun _ => id
    rcases hover with hover | ⟨slots, hreturned⟩
    · refine (after_callResult_pending hover.pending _).mono (fun r _ hr slots hslots => ?_) fun _ => id
      exact absurd hslots (hr slots)
    · refine (after_callResult_returned rfl hempty hreturned _).mono (fun r b hr v hv => ?_) fun _ => id
      obtain ⟨rfl, rfl⟩ := hr v hv
      exact ⟨_, b, callee, left, hmethod, rfl, hreturned, rfl⟩
  · rcases hthrown.unwinds rfl with ⟨hcalled, -⟩ | hover
    · exact absurd rfl hcalled
    · exact hbroken hover

/-- A call that gives slots is answered by them. -/
theorem after_embedded_answered (h : Hosted Kept s) (fuel : Nat) (method : Method) (args : List Slot) {m : Machine}
    (hpending : m.pending = none) :
    After (embedded Natives.standard s fuel method args).run m
      (fun r b => ∀ slots, r = .ok slots → Answered s method slots m b) fun _ => True := by
  unfold embedded
  split
  · next hargs =>
    rw [Attempt.after_bind_iff, Attempt.after_lift_iff]
    refine after_ensuring_iff.2 ?_
    rw [embedded.body, after_bind_iff]
    refine (after_pushCall_frames (fun stack hstack _ => ?_) fun b _ => ?_).mono (fun _ _ => id) fun _ _ => trivial
    · rw [if_pos rfl]
      obtain ⟨carrying, hshim, hcarries⟩ := shim_carries args
      obtain rfl := Frame.shim.inj (hshim.symm.trans hstack)
      exact (after_called h hargs hpending hcarries fuel).mono (fun _ _ hr => hr) fun _ _ => trivial
    · intro slots hanswer
      cases hanswer
  · rw [Attempt.after_bind_iff, Attempt.after_lift_iff]
    intro slots hanswer
    cases hanswer

/-- The operations of the machine leave the frames as they were. -/
theorem serving_standard (n : Nat) : Serving Kept (services Natives.standard n) := by
  rw [← Watched.services_id]
  exact Watched.serving_services (fun _ => .of_aside ⟨rfl, rfl, rfl, rfl⟩) n

theorem after_invoke_answered (h : Hosted Kept s) (fuel : Nat) (method : Method) (args : List Slot) {m : Machine}
    (hpending : m.pending = none) :
    After (invoke Natives.standard s fuel method args).run m
      (fun r b => ∀ slots, r = .ok slots → Answered s method slots m b) fun _ => True := by
  rw [invoke, Attempt.after_bind_iff, Attempt.after_lift_iff]
  refine (keeps_recordCall (R := Kept) m).mono (fun _ called hkept => ?_) fun _ _ => trivial
  refine (after_embedded_answered h fuel method args (hkept.pending rfl hpending)).mono (fun r b hr slots hslots => ?_)
    fun _ => id
  have hanswered := hr slots hslots
  rw [Answered, hkept.frames] at hanswered
  exact hanswered

end Interpreter

open Interpreter

/-- A call from outside that returns, with slots or with a failure, leaves the frames as they were, with no exception
pending and the reserve as open as before. The slots are those that the return of the method has popped. -/
theorem frames_after_call {n : Nat} {method : Method} {args : List Slot} {m b : Machine}
    {r : Except Failure (List Slot)} (hpending : m.pending = none)
    (hcall : ((services Natives.standard (n + 1)).invoke method args).run m = .ok r b) :
    b.frames = m.frames ∧ b.pending = none ∧ b.overflowing = m.overflowing ∧
      ∀ slots, r = .ok slots → Answered (services Natives.standard n) method slots m b := by
  have hkept := After.of_ok ((serving_standard (n + 1)).invoke method args m) hcall
  have hanswered := After.of_ok (after_invoke_answered (serving_standard n).toHosted n method args hpending) hcall
  exact ⟨hkept.frames, hkept.pending rfl hpending, hkept.overflowing, hanswered⟩

/-- A method that subtracts its second argument from the first. -/
def Samples.subtracting : Method := {
  owner := sample 0, flags := ⟨8⟩, name := "sub", desc := "(II)I", maxStack := 2, maxLocals := 2, argSlots := 2
  code := #[0x1A, 0x1B, 0x64, 0xAC] }

/-- The slots that an attempt gives, if it does. -/
def slots? (act : Attempt (List Slot)) (m : Machine) : Option (List Slot) :=
  match act.run m with
  | .ok (.ok slots) _ => some slots
  | _ => none

theorem exists_of_slots? {act : Attempt (List Slot)} {m : Machine} {slots : List Slot} (h : slots? act m = some slots) :
    ∃ b, act.run m = .ok (.ok slots) b := by
  unfold slots? at h
  split at h
  · next b hr =>
    cases h
    exact ⟨b, hr⟩
  · nomatch h

open Samples in
/-- A call in the middle of another. -/
theorem frames_after_call_subtracting :
    let m := called [.active pushed]
    ∃ b, m.pending = none ∧
      ((services Natives.standard 6).invoke subtracting [.num 7, .num 3]).run m = .ok (.ok [.num 4]) b ∧
      b.frames = m.frames ∧ b.pending = none ∧ b.overflowing = m.overflowing ∧
      Answered (services Natives.standard 5) subtracting [.num 4] m b := by
  intro m
  have hslots : slots? ((services Natives.standard 6).invoke subtracting [.num 7, .num 3]) m = some [.num 4] := by
    decide +kernel
  obtain ⟨b, hcall⟩ := exists_of_slots? hslots
  obtain ⟨hframes, hpending, hoverflowing, hanswered⟩ := frames_after_call rfl hcall
  exact ⟨b, rfl, hcall, hframes, hpending, hoverflowing, hanswered [.num 4] rfl⟩

end JavaMachine
