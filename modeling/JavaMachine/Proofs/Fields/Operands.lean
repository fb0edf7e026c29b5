import JavaMachine.Proofs.Machine.Keeps

/-!
Operands of an activation. A stack `Carries` the slots on it, and a machine `Runs` a method on operands while the
innermost frame is an activation with such a stack. Popping and pushing succeed where the operands and the room for
them are there, and change nothing but that frame (`after_pop_bind`, `after_push`; `run_push`, `run_pop`).
-/

namespace JavaMachine

open M

/-! ## Stacks -/

/-- The slots on a stack, the bottom first. -/
structure OperandStack.Carries (s : OperandStack) (operands : List Slot) : Prop where
  fits : s.size ≤ s.slots.size
  list : s.toList = operands

namespace OperandStack.Carries

variable {s : OperandStack} {below : List Slot} {v : Slot}

theorem size (h : s.Carries below) : s.size = below.length := by
  have hfits := h.fits
  rw [← h.list, toList, Array.length_toList, Array.size_extract]
  omega

theorem getElem? (h : s.Carries below) {i : Nat} (hi : i < s.size) : s.slots[i]? = below[i]? := by
  have hfits := h.fits
  rw [← h.list, toList, Array.getElem?_toList, Array.getElem?_extract, if_pos (by omega), Nat.zero_add]

/-- The stack holds what its slots below its size hold. -/
theorem of_getElem? {slots : Slots} (hfits : below.length ≤ slots.size)
    (h : ∀ i, i < below.length → slots[i]? = below[i]?) : OperandStack.Carries ⟨slots, below.length⟩ below where
  fits := hfits
  list := by
    refine List.ext_getElem? fun i => ?_
    change (slots.extract 0 below.length).toList[i]? = _
    rw [Array.getElem?_toList, Array.getElem?_extract]
    split
    · rw [Nat.zero_add]
      exact h i (by omega)
    · exact (List.getElem?_eq_none (by omega)).symm

theorem pop (h : s.Carries (below ++ [v])) :
    ∃ s', OperandStack.pop s = .ok v s' ∧ s'.Carries below ∧ s'.slots.size = s.slots.size := by
  have hsize := h.size
  have hfits := h.fits
  rw [List.length_append, List.length_singleton] at hsize
  have htop : s.slots[below.length]? = some v := by
    rw [h.getElem? (by omega), List.getElem?_append_right (Nat.le_refl _), Nat.sub_self]
    rfl
  refine ⟨⟨s.slots.setIfInBounds below.length .null, below.length⟩, ?_, .of_getElem? ?_ fun i hi => ?_, ?_⟩
  · rw [OperandStack.pop, hsize]
    simp only [Array.getD_eq_getD_getElem?, htop, Option.getD_some]
  · rw [Array.size_setIfInBounds]
    omega
  · rw [Array.getElem?_setIfInBounds_ne (by omega), h.getElem? (by omega), List.getElem?_append_left hi]
  · exact Array.size_setIfInBounds

theorem push (h : s.Carries below) (hroom : below.length < s.slots.size) (v : Slot) :
    ∃ s', OperandStack.push v s = .ok () s' ∧ s'.Carries (below ++ [v]) ∧ s'.slots.size = s.slots.size := by
  have hsize := h.size
  have hlength : (below ++ [v]).length = s.size + 1 := by rw [hsize, List.length_append, List.length_singleton]
  refine ⟨⟨s.slots.setIfInBounds s.size v, s.size + 1⟩, ?_, ?_, Array.size_setIfInBounds⟩
  · rw [OperandStack.push, if_neg (by omega)]
  · rw [← hlength]
    refine .of_getElem? ?_ fun i hi => ?_
    · rw [Array.size_setIfInBounds]
      omega
    · rcases Nat.lt_or_eq_of_le (Nat.le_of_lt_succ (hlength ▸ hi)) with hlt | rfl
      · rw [Array.getElem?_setIfInBounds_ne (by omega), h.getElem? hlt, List.getElem?_append_left (by omega)]
      · rw [Array.getElem?_setIfInBounds_self_of_lt (by omega), hsize,
          List.getElem?_append_right (Nat.le_refl _), Nat.sub_self]
        rfl

end OperandStack.Carries

/-! ## Machines that run a method -/

/-- The machine with other frames. -/
def Machine.withFrames (m : Machine) (frames : List Frame) : Machine := { m with frames }

@[simp]
theorem Machine.withFrames_withFrames (m : Machine) (frames frames' : List Frame) :
    (m.withFrames frames).withFrames frames' = m.withFrames frames' := rfl

@[simp]
theorem Machine.heap_withFrames (m : Machine) (frames : List Frame) : (m.withFrames frames).heap = m.heap := rfl

@[simp]
theorem Machine.classes_withFrames (m : Machine) (frames : List Frame) :
    (m.withFrames frames).classes = m.classes := rfl

@[simp]
theorem Machine.objectAt_withFrames (m : Machine) (frames : List Frame) (r : Ref) :
    (m.withFrames frames).objectAt r = m.objectAt r := rfl

@[simp]
theorem Machine.classAt_withFrames (m : Machine) (frames : List Frame) (c : ClassId) :
    (m.withFrames frames).classAt c = m.classAt c := rfl

theorem Machine.lineageWithin_withFrames (m : Machine) (frames : List Frame) (n : Nat) (c : ClassId) :
    (m.withFrames frames).lineageWithin n c = m.lineageWithin n c := by
  induction n generalizing c with
  | zero => rfl
  | succ n ih =>
    rw [lineageWithin, lineageWithin]
    simp only [ih, classAt_withFrames]

@[simp]
theorem Machine.receiverAllowed_withFrames (m : Machine) (frames : List Frame) (source owner : ClassId)
    (flags : Flags) (r : Ref) :
    (m.withFrames frames).receiverAllowed source owner flags r = m.receiverAllowed source owner flags r := by
  unfold receiverAllowed isSubclassOf lineage
  simp only [lineageWithin_withFrames]
  rfl

@[simp]
theorem Machine.receiverHalt?_withFrames (m : Machine) (frames : List Frame) (source owner : ClassId)
    (flags : Flags) (r : Ref) :
    (m.withFrames frames).receiverHalt? source owner flags r = m.receiverHalt? source owner flags r := by
  unfold receiverHalt? isSubclassOf lineage
  simp only [lineageWithin_withFrames]
  rfl

/-- The machine runs a method with some room for operands, of which these are there. -/
def Machine.Runs (m : Machine) (method : Method) (room : Nat) (operands : List Slot) : Prop :=
  ∃ a rest, m.frames = .active a :: rest ∧ a.method = method ∧ a.stack.slots.size = room ∧ a.stack.Carries operands

namespace M

variable {α : Type} {m : Machine} {method : Method} {room : Nat} {below : List Slot} {v : Slot}
  {Q : α → Machine → Prop} {H : Machine → Prop}

theorem after_bind_of_eq {β : Type} {act : M β} {b : β} {m' : Machine} {next : β → M α} (h : act m = .ok b m')
    (hnext : After (next b) m' Q H) : After (act >>= next) m Q H := by
  rw [after_bind_iff, After, h]
  exact hnext

theorem after_activation_bind (h : m.Runs method room below) {next : Activation → M α}
    (hnext : ∀ a, a.method = method → After (next a) m Q H) : After (activation >>= next) m Q H := by
  obtain ⟨a, rest, hframes, hmethod, -, -⟩ := h
  refine after_bind_of_eq ?_ (hnext a hmethod)
  rw [activation, hframes]

theorem after_pop_bind (h : m.Runs method room (below ++ [v])) {next : Slot → M α}
    (hnext : ∀ frames, (m.withFrames frames).Runs method room below → After (next v) (m.withFrames frames) Q H) :
    After (pop >>= next) m Q H := by
  obtain ⟨a, rest, hframes, hmethod, hroom, hcarries⟩ := h
  obtain ⟨s, hpop, hbelow, hsize⟩ := hcarries.pop
  have hrun : pop m = .ok v (m.withFrames (.active { a with stack := s } :: rest)) := by
    rw [pop, onStack, hframes]
    simp only [Frame.stack, hpop, Frame.withStack, Machine.withFrames]
  exact after_bind_of_eq hrun (hnext _ ⟨_, rest, rfl, hmethod, hsize.trans hroom, hbelow⟩)

theorem after_popRef_bind {r : Ref} (h : m.Runs method room (below ++ [.ref r])) {next : Option Ref → M α}
    (hnext : ∀ frames, (m.withFrames frames).Runs method room below →
      After (next (some r)) (m.withFrames frames) Q H) : After (popRef >>= next) m Q H := by
  obtain ⟨a, rest, hframes, hmethod, hroom, hcarries⟩ := h
  obtain ⟨s, hpop, hbelow, hsize⟩ := hcarries.pop
  have hpopRef : OperandStack.popRef a.stack = .ok (some r) s := by
    change EStateM.bind OperandStack.pop _ a.stack = _
    rw [EStateM.bind, hpop]
    rfl
  have hrun : popRef m = .ok (some r) (m.withFrames (.active { a with stack := s } :: rest)) := by
    rw [popRef, onStack, hframes]
    simp only [Frame.stack, hpopRef, Frame.withStack, Machine.withFrames]
  exact after_bind_of_eq hrun (hnext _ ⟨_, rest, rfl, hmethod, hsize.trans hroom, hbelow⟩)

theorem after_push {Q : Unit → Machine → Prop} (h : m.Runs method room below) (hroom : below.length < room)
    (hQ : ∀ frames, (m.withFrames frames).Runs method room (below ++ [v]) → Q () (m.withFrames frames)) :
    After (push v) m Q H := by
  obtain ⟨a, rest, hframes, hmethod, hsize, hcarries⟩ := h
  obtain ⟨s, hpush, habove, hsame⟩ := hcarries.push (hsize ▸ hroom) v
  have hrun : push v m = .ok () (m.withFrames (.active { a with stack := s } :: rest)) := by
    rw [push, onStack, hframes]
    simp only [Frame.stack, hpush, Frame.withStack, Machine.withFrames]
  rw [After, hrun]
  exact hQ _ ⟨_, rest, rfl, hmethod, hsame.trans hsize, habove⟩

end M

/-! ## Runs of single operations -/

namespace M

variable {m : Machine} {a : Activation} {rest : List Frame} {below : List Slot} {v : Slot} {k : Nat}

theorem run_bind {α β : Type} {act : M β} {b : β} {m' : Machine} (h : act m = .ok b m') (next : β → M α) :
    (act >>= next) m = next b m' := by
  rw [bind_apply, h]

theorem run_get (m : Machine) : (get : M Machine) m = .ok m m := rfl

theorem run_classAt (c : ClassId) (m : Machine) : classAt c m = .ok (m.classAt c) m := rfl

/-- A frame that fits is put on the frame stack. -/
theorem run_pushFrame {m : Machine} (hroom : m.frames.length < frameLimit m) (f : Frame) :
    pushFrame f m = .ok true { m with frames := f :: m.frames } := by
  rw [pushFrame, run_bind (run_get m), if_neg (Nat.not_le.2 hroom)]
  rfl

theorem run_objectAt (r : Ref) (m : Machine) : objectAt r m = .ok (m.objectAt r) m := rfl

theorem run_classOf (r : Ref) (m : Machine) : classOf r m = .ok (m.classAt (m.classOf r)) m := rfl

theorem run_classIdOf (r : Ref) (m : Machine) : classIdOf r m = .ok (m.classOf r) m := rfl

/-- An index of a pool that has an entry leads to it. -/
theorem run_entry {c : ClassId} {index : Nat} {e : PoolEntry} (h : (m.classAt c).pool.getD index .empty = e)
    (hentry : e ≠ .empty) : Resolution.entry c index m = .ok e m := by
  rw [Resolution.entry, run_bind (run_classAt c m), h]
  cases e <;> first | rfl | exact absurd rfl hentry

theorem run_push (hframes : m.frames = .active a :: rest) (h : a.stack.Carries below)
    (hroom : below.length < a.stack.slots.size) (v : Slot) :
    ∃ stack : OperandStack, stack.Carries (below ++ [v]) ∧ stack.slots.size = a.stack.slots.size ∧
      push v m = .ok () (m.withFrames (.active { a with stack } :: rest)) := by
  obtain ⟨stack, hpush, habove, hsize⟩ := h.push hroom v
  refine ⟨stack, habove, hsize, ?_⟩
  rw [push, onStack, hframes]
  simp only [Frame.stack, hpush]
  rfl

theorem run_pop (hframes : m.frames = .active a :: rest) (h : a.stack.Carries (below ++ [v])) :
    ∃ stack : OperandStack, stack.Carries below ∧ stack.slots.size = a.stack.slots.size ∧
      pop m = .ok v (m.withFrames (.active { a with stack } :: rest)) := by
  obtain ⟨stack, hpop, hbelow, hsize⟩ := h.pop
  refine ⟨stack, hbelow, hsize, ?_⟩
  rw [pop, onStack, hframes]
  simp only [Frame.stack, hpop]
  rfl

theorem run_readLocal (hframes : m.frames = .active a :: rest) (h : a.locals[k]? = some v) :
    onLocals (Slots.read k) m = .ok v m := by
  have hread : Slots.read k a.locals = .ok v a.locals := by
    rw [Slots.read, if_neg (by omega), Int.toNat_natCast, h]
  rw [onLocals, hframes]
  simp only [hread]
  exact congrArg (EStateM.Result.ok v) (by rw [← hframes])

theorem run_localRef (hframes : m.frames = .active a :: rest) {r : Option Ref}
    (h : a.locals[k]?.map Slot.ref? = some r) : localRef k m = .ok r m := by
  obtain ⟨v, hv, rfl⟩ := Option.map_eq_some_iff.1 h
  rw [localRef, run_bind (run_readLocal hframes hv)]
  rfl

theorem run_localInt (hframes : m.frames = .active a :: rest) {v : Int32}
    (h : a.locals[k]?.map Slot.int = some v) : localInt k m = .ok v m := by
  obtain ⟨v, hv, rfl⟩ := Option.map_eq_some_iff.1 h
  rw [localInt, run_bind (run_readLocal hframes hv)]
  rfl

theorem run_writeLocal (hframes : m.frames = .active a :: rest) (h : k < a.locals.size) (v : Slot) :
    onLocals (Slots.write k v) m =
      .ok () (m.withFrames (.active { a with locals := a.locals.setIfInBounds k v } :: rest)) := by
  have hwrite : Slots.write k v a.locals = .ok () (a.locals.setIfInBounds k v) := by
    rw [Slots.write, if_neg (by omega), Int.toNat_natCast, if_pos h]
  rw [onLocals, hframes]
  simp only [hwrite]
  rfl

end M

end JavaMachine
