import JavaMachine.Proofs.Fields.Values
import JavaMachine.Proofs.Frames.Answers

/-!
Arguments of calls. What a call takes is on top of the stack of its caller, in order; it gets to the first local
variables of the method that is entered, and the others of it are zero (`Execute.Passes`). Main result: a method whose
local variables have room for its arguments is entered with them, or something is raised (`Execute.after_enterCalled`).
-/

namespace JavaMachine

open M

theorem Slot.eq_ref_of_ref? {v : Slot} {r : Ref} (h : v.ref? = some r) : v = .ref r := by
  cases v with
  | ref r' =>
    cases h
    rfl
  | _ => cases h

/-! ## Stacks -/

namespace OperandStack

variable {s s' : OperandStack} {operands : List Slot} {v : Slot}

/-- A slot that is seen at a depth has that many above it. -/
theorem Carries.of_peek {n : Nat} (h : s.Carries operands) (hpeek : OperandStack.peek n s = .ok v s') :
    s' = s ∧ ∃ below above, operands = below ++ v :: above ∧ above.length = n := by
  have hsize := h.size
  rw [peek] at hpeek
  split at hpeek
  · nomatch hpeek
  · next hdepth =>
    cases hpeek
    have hlt : s.size - 1 - n < operands.length := by omega
    have hv : operands[s.size - 1 - n] = s.slots.getD (s.size - 1 - (n : Int).toNat) .null := by
      rw [Int.toNat_natCast, Array.getD_eq_getD_getElem?, h.getElem? (by omega), List.getElem?_eq_getElem hlt,
        Option.getD_some]
    refine ⟨rfl, operands.take (s.size - 1 - n), operands.drop (s.size - 1 - n + 1), ?_, ?_⟩
    · rw [← hv, List.getElem_cons_drop, List.take_append_drop]
    · rw [List.length_drop]
      omega

end OperandStack

theorem M.after_peek {m : Machine} {caller : Activation} {rest : List Frame} {operands : List Slot}
    (hframes : m.frames = .active caller :: rest) (hstack : caller.stack.Carries operands) (n : Nat) :
    After (onStack (OperandStack.peek n)) m
      (fun v m' => m' = m ∧ ∃ below above, operands = below ++ v :: above ∧ above.length = n) fun _ => True := by
  unfold After onStack
  rw [hframes]
  dsimp only
  cases hpeek : OperandStack.peek n (Frame.active caller).stack with
  | error e stack => trivial
  | ok v stack =>
    obtain ⟨rfl, hsplit⟩ := hstack.of_peek hpeek
    refine ⟨?_, hsplit⟩
    change m.withFrames (.active caller :: rest) = m
    rw [← hframes]
    rfl

/-! ## Local variables -/

namespace Slots

/-- Slots are filled as static variables are put. -/
theorem fill_eq_putStatics (slots : Slots) (start : Nat) (args : List Slot) :
    slots.fill start args = Linking.putStatics slots start args := by
  induction args generalizing slots start with
  | nil => rfl
  | cons v rest ih => rw [fill, ih, Linking.putStatics]

/-- Slots that are zero hold what they are filled with from the start on, and stay zero otherwise. -/
theorem toList_fill {n : Nat} {args : List Slot} (h : args.length ≤ n) :
    ((Slots.ofSize n).fill 0 args).toList = args ++ List.replicate (n - args.length) .null := by
  refine List.ext_getElem? fun i => ?_
  have hsize : (Slots.ofSize n).size = n := Array.size_replicate
  rw [Array.getElem?_toList, fill_eq_putStatics, getElem?_putStatics _ _ _ (by omega)]
  split
  · rw [List.getElem?_append_left (by omega), Nat.sub_zero]
  · rw [List.getElem?_append_right (by omega), List.getElem?_replicate, ofSize, Array.getElem?_replicate]
    split
    · rw [if_pos (by omega)]
    · rw [if_neg (by omega)]

end Slots

/-! ## Entering methods -/

namespace Execute

/-- A method is entered: its frame is on that of its caller, which has given the arguments off its stack, and they are
the first local variables of the method. -/
def Passes (frames frames' : List Frame) (method : Method) (below args : List Slot) : Prop :=
  ∃ caller callee stack rest, frames = .active caller :: rest ∧ caller.stack.Carries (below ++ args) ∧
    stack.Carries below ∧ callee.method = method ∧
    callee.locals.toList = args ++ List.replicate (method.maxLocals - args.length) .null ∧
    frames' = .active callee :: .active { caller with stack } :: rest

/-- What was raised has been dealt with. -/
def Raised (raise : Throwing.Raise → M Unit) (m' : Machine) : Prop := ∃ r m, raise r m = .ok () m'

variable {s : Context} {m : Machine} {method : Method} {operands : List Slot} {caller : Activation} {rest : List Frame}

/-- An action that raises does nothing else. -/
theorem after_raise (r : Throwing.Raise) {P : Machine → Prop} :
    After (s.raise r) m (fun _ m' => Raised s.raise m' ∨ P m') fun _ => True := by
  unfold After
  split
  · next hr => exact .inl ⟨r, m, hr⟩
  · trivial

/-- A method whose local variables have room for its arguments is entered with the slots on top of the stack, or
something is raised. -/
theorem after_enterCalled (hframes : m.frames = .active caller :: rest) (hstack : caller.stack.Carries operands)
    (hlocals : method.isAbstract = false → method.argSlots ≤ method.maxLocals) :
    After (enterCalled s method) m
      (fun _ m' => Raised s.raise m' ∨ (method.isAbstract = false ∧ ∃ below args, operands = below ++ args ∧
        args.length = method.argSlots ∧ Passes m.frames m'.frames method below args)) fun _ => True := by
  unfold enterCalled
  rw [after_bind_iff]
  refine (keeps_recordCall (R := Kept) m).mono (fun _ m₁ hkept => ?_) fun _ _ => trivial
  rw [← hkept.frames] at hframes ⊢
  unfold enter
  split
  · rw [after_bind_iff, after_classAt]
    exact after_raise _
  · next hbody =>
    have hlocals := hlocals (Bool.not_eq_true _ ▸ hbody)
    rw [after_bind_iff]
    refine after_pushFrame (fun _ => ?_) (after_raise _) trivial
    rw [if_pos rfl]
    refine after_moveArguments rfl (fun f below args stack hm hgiven => ?_) trivial
    rw [hframes] at hm
    cases hm
    obtain ⟨hlength, lower, hsplit, hlower⟩ := hstack.of_popMany hgiven
    refine .inr ⟨Bool.not_eq_true _ ▸ hbody, lower, args, hsplit, hlength, ?_⟩
    exact ⟨caller, _, stack, rest, hframes, hsplit ▸ hstack, hlower, rfl, Slots.toList_fill (hlength ▸ hlocals), rfl⟩

end Execute

end JavaMachine
