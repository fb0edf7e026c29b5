import JavaMachine.Machine.Interpreter
import JavaMachine.Proofs.Initialization.Calls

/-!
What instructions do before they raise an exception. They take operands off their own stack, load classes, change the
states of classes, put initializers on the frame stack and remember what class pools were resolved to. What is `Spared`
is all else: local variables, objects, arrays and static variables among it.

An action that works with what becomes of raised exceptions is `RaisesLast` in a machine if it either does not depend on
that, or is what becomes of one exception, raised in a machine that it has prepared for it and nothing more. Initializers
are on the frame stack then only if one did not fit.
-/

namespace JavaMachine

open M Throwing

/-! ## Preparations -/

/-- A frame from which operands were taken, and which may have been put back to the instruction that runs. -/
inductive Frame.Eased : Frame → Frame → Prop
  | barrier : Eased .barrier .barrier
  | shim {s s' : OperandStack} : s'.toList <+: s.toList → Eased (.shim s) (.shim s')
  | active {a b : Activation} : b.method = a.method → b.locals = a.locals → b.pc = a.pc →
      (b.nextPc = a.nextPc ∨ b.nextPc = a.pc) → b.stack.toList <+: a.stack.toList → Eased (.active a) (.active b)

/-- The innermost frame is eased, and those below are as they were. -/
inductive Eased : List Frame → List Frame → Prop
  | same (frames : List Frame) : Eased frames frames
  | top {f g : Frame} (rest : List Frame) : f.Eased g → Eased (f :: rest) (g :: rest)

/-- Initializers that have not started are on top of frames. -/
def Covered (a b : List Frame) : Prop :=
  ∃ above, (∀ f ∈ above, ∃ method : Method, method.isClinit ∧ f = Frame.ofMethod method) ∧ b = above ++ a

/-- Nothing changes but frames, in some way, the states and the pools of classes, and the journal. -/
structure Spared (F : List Frame → List Frame → Prop) (a b : Machine) : Prop where
  frames : F a.frames b.frames
  classes : ∀ c, ∃ state pool, b.classAt c = { a.classAt c with state, pool }
  rest : b = { a with frames := b.frames, classes := b.classes, journal := b.journal }

/-- Classes are loaded, and else all is spared but operands of the innermost frame. -/
inductive Readies (s : Services) : Machine → Machine → Prop
  | refl (m : Machine) : Readies s m m
  | own {a b c : Machine} : Spared Eased a b → Readies s b c → Readies s a c
  | load {a b c : Machine} {l : Nat} {name : String} {r : Except Failure ClassId} :
      (s.load l name).run a = .ok r b → Readies s b c → Readies s a c

/-- What an instruction may have done when it raises an exception: initializers come on the frame stack last. -/
def Prepares (s : Services) (a c : Machine) : Prop := ∃ b, Readies s a b ∧ Spared Covered b c

/-- What an instruction may have done when it raises something. -/
def PreparesFor (s : Services) (a : Machine) (r : Raise) (c : Machine) : Prop :=
  Readies s a c ∨ (r = .new Throwables.stackOverflow "" ∧ Prepares s a c)

/-- An action in a machine either does not depend on what becomes of exceptions, or it is what becomes of one that is
raised in a machine as it has to be for it. -/
inductive RaisesLast (P : Raise → Machine → Prop) (act : (Raise → M Unit) → M Unit) (m : Machine) : Prop
  | silent (result : EStateM.Result Halt Machine Unit) : (∀ raise, act raise m = result) → RaisesLast P act m
  | raised (r : Raise) (c : Machine) : P r c → (∀ raise, act raise m = raise r c) → RaisesLast P act m

variable {s : Services}

theorem Covered.refl (frames : List Frame) : Covered frames frames := ⟨[], nofun, rfl⟩

theorem Covered.trans {a b c : List Frame} (h : Covered a b) (h' : Covered b c) : Covered a c := by
  obtain ⟨above, habove, rfl⟩ := h
  obtain ⟨higher, hhigher, rfl⟩ := h'
  refine ⟨higher ++ above, fun f hf => ?_, (List.append_assoc ..).symm⟩
  rcases List.mem_append.1 hf with hf | hf
  · exact hhigher f hf
  · exact habove f hf

namespace Spared

variable {F : List Frame → List Frame → Prop} {a b c : Machine}

/-- A change of frames alone. -/
theorem of_frames {m : Machine} {frames : List Frame} (h : F m.frames frames) : Spared F m { m with frames } :=
  ⟨h, fun _ => ⟨_, _, rfl⟩, rfl⟩

/-- A change of the journal alone. -/
theorem of_journal (hF : ∀ frames, F frames frames) (m : Machine) (journal : Journal) :
    Spared F m { m with journal } := ⟨hF _, fun _ => ⟨_, _, rfl⟩, rfl⟩

/-- A change of the state and the pool of a class alone, and of the journal. -/
theorem of_class (hF : ∀ frames, F frames frames) {m : Machine} {c : ClassId} {f : Class → Class} (journal : Journal)
    (hf : ∀ k, ∃ state pool, f k = { k with state, pool }) :
    Spared F m { m with classes := m.classes.modify c.index f, journal } := by
  refine ⟨hF _, fun k => ?_, rfl⟩
  change ∃ state pool, { m with classes := m.classes.modify c.index f }.classAt k = { m.classAt k with state, pool }
  rw [m.classAt_modify]
  split
  · exact hf _
  · exact ⟨_, _, rfl⟩

theorem trans (hF : ∀ {x y z}, F x y → F y z → F x z) (h : Spared F a b) (h' : Spared F b c) : Spared F a c where
  frames := hF h.frames h'.frames
  classes k := by
    obtain ⟨state, pool, hb⟩ := h.classes k
    obtain ⟨state', pool', hc⟩ := h'.classes k
    exact ⟨state', pool', by rw [hc, hb]⟩
  rest := by
    rw [h'.rest, h.rest]

end Spared

theorem Readies.trans {a b c : Machine} (h : Readies s a b) (h' : Readies s b c) : Readies s a c := by
  induction h with
  | refl => exact h'
  | own hown _ ih => exact .own hown (ih h')
  | load hload _ ih => exact .load hload (ih h')

theorem Readies.of_spared {a b : Machine} (h : Spared Eased a b) : Readies s a b := .own h (.refl b)

theorem Prepares.of_readies {a b : Machine} (h : Readies s a b) : Prepares s a b := ⟨b, h, .of_frames (.refl _)⟩

theorem Prepares.after {a b c : Machine} (h : Readies s a b) (h' : Prepares s b c) : Prepares s a c := by
  obtain ⟨x, hx, hc⟩ := h'
  exact ⟨x, h.trans hx, hc⟩

namespace PreparesFor

variable {r : Raise} {a b c : Machine}

theorem after (h : Readies s a b) (h' : PreparesFor s b r c) : PreparesFor s a r c :=
  h'.imp h.trans (And.imp_right (.after h))

theorem prepares (h : PreparesFor s a r c) : Prepares s a c := h.elim .of_readies And.right

end PreparesFor

/-! ## Actions that prepare -/

namespace M

/-- An action readies the machine for what comes after it, unless it halts. -/
def Readying {α : Type} (s : Services) (act : M α) : Prop :=
  ∀ m, After act m (fun _ b => Readies s m b) fun _ => True

section
variable {α β : Type} {act : M α}

theorem readying_of_same (h : ∀ m, After act m (fun _ b => b = m) fun _ => True) : Readying s act :=
  fun m => (h m).mono (fun _ _ hb => by subst hb; exact .refl _) fun _ => id

theorem readying_pure {a : α} : Readying s (pure a) := readying_of_same fun _ => rfl

theorem readying_get : Readying s (get : M Machine) := readying_of_same fun _ => rfl

theorem readying_classAt {c : ClassId} : Readying s (classAt c) := readying_of_same fun _ => rfl

theorem readying_throw {h : Halt} : Readying s (throw h : M α) := readying_of_same fun _ => trivial

theorem readying_activation : Readying s activation :=
  readying_of_same fun _ => after_activation (fun _ _ _ => rfl) trivial

theorem readying_bind {next : α → M β} (ha : Readying s act) (hn : ∀ a, Readying s (next a)) :
    Readying s (act >>= next) := by
  intro m
  refine After.bind (ha m) fun a b hb => ?_
  exact (hn a b).mono (fun _ _ => hb.trans) fun _ => id

theorem readying_modify {f : Machine → Machine} (h : ∀ m, Spared Eased m (f m)) : Readying s (modify f : M Unit) :=
  fun m => .of_spared (h m)

theorem readying_some! {v : Option α} : Readying s (some! v) := by
  cases v with
  | none => exact readying_throw
  | some a => exact readying_pure

theorem readying_objectAt {r : Ref} : Readying s (objectAt r) := readying_of_same fun _ => rfl

theorem readying_classOf {r : Ref} : Readying s (classOf r) := readying_of_same fun _ => rfl

theorem readying_present {r : Ref} : Readying s (present r) := by
  unfold present
  exact readying_bind readying_get fun _ => readying_some!

theorem readying_haltFor {h : Option Halt} : Readying s (haltFor h) :=
  readying_of_same fun m => (after_haltFor h m).mono (fun _ _ hm => hm.1) fun _ _ => trivial

theorem readying_assignable {target source : ClassId} : Readying s (assignable target source) :=
  readying_of_same fun m => (after_assignable target source m).mono (fun _ _ hm => hm.1) fun _ _ => trivial

theorem readying_isArrayClass {c : ClassId} : Readying s (isArrayClass c) :=
  readying_of_same fun m => (after_isArrayClass c m).mono (fun _ _ hm => hm.1) fun _ _ => trivial

theorem readying_isInstance {r : Ref} {c : ClassId} : Readying s (isInstance r c) := by
  unfold isInstance
  exact readying_bind readying_get fun _ => readying_assignable

theorem readying_methodText {method : Method} : Readying s (methodText method) :=
  readying_bind readying_classAt fun _ => readying_pure

theorem readying_recordCall {method : Method} : Readying s (recordCall method) := by
  unfold recordCall
  split
  · exact readying_modify fun m => .of_journal .same m _
  · exact readying_pure

end

/-! ### Operands -/

/-- An action takes slots off a stack, and may look at it. -/
def Draws {α : Type} (act : OperandStack.Action α) : Prop :=
  ∀ st a st', act st = .ok a st' → st'.toList <+: st.toList

theorem draws_pure {α : Type} {a : α} : Draws (pure a) := by
  rintro st _ _ ⟨⟩
  exact List.prefix_rfl

theorem draws_bind {α β : Type} {act : OperandStack.Action α} {next : α → OperandStack.Action β} (ha : Draws act)
    (hn : ∀ a, Draws (next a)) : Draws (act >>= next) := by
  intro st b st' h
  obtain ⟨a, between, hr, h⟩ := OperandStack.exists_of_bind h
  exact (hn a between b st' h).trans (ha st a between hr)

theorem draws_pop : Draws OperandStack.pop := by
  intro st a st' h
  unfold OperandStack.pop at h
  split at h
  · nomatch h
  · next n hsize =>
    cases h
    have hbelow : (st.slots.setIfInBounds n .null).toList.take n = st.slots.toList.take n := by
      rw [Array.toList_setIfInBounds, List.take_set_of_le (Nat.le_refl n)]
    rw [OperandStack.toList, OperandStack.toList, hsize]
    simp only [Array.toList_extract, List.extract_eq_take_drop, List.drop_zero, Nat.sub_zero, hbelow]
    exact List.take_prefix_take_left (Nat.le_succ n)

theorem draws_peek {depth : Int} : Draws (OperandStack.peek depth) := by
  intro st a st' h
  unfold OperandStack.peek at h
  split at h
  · nomatch h
  · cases h
    exact List.prefix_rfl

theorem readying_onStack {α : Type} {act : OperandStack.Action α} (h : Draws act) : Readying s (onStack act) := by
  intro m
  unfold After onStack
  cases hm : m.frames with
  | nil => trivial
  | cons f rest =>
    dsimp only
    cases hr : act f.stack with
    | error e st => trivial
    | ok a st =>
      refine .of_spared (.of_frames ?_)
      rw [hm]
      refine .top rest ?_
      cases f with
      | barrier => exact .barrier
      | shim x => exact .shim (h _ _ _ hr)
      | active x => exact .active rfl rfl rfl (.inl rfl) (h _ _ _ hr)

theorem readying_pop : Readying s pop := readying_onStack draws_pop

theorem draws_map {α β : Type} {act : OperandStack.Action α} {f : α → β} (h : Draws act) :
    Draws (act >>= fun a => pure (f a)) := draws_bind h fun _ => draws_pure

theorem readying_popInt : Readying s popInt := readying_onStack (draws_map draws_pop)

theorem readying_popRef : Readying s popRef := readying_onStack (draws_map draws_pop)

theorem readying_popLong : Readying s popLong :=
  readying_onStack (draws_bind draws_pop fun _ => draws_map draws_pop)

end M

/-! ### Attempts -/

/-- An attempt readies the machine, whether it fails or not. -/
def Attempt.Readying {α : Type} (s : Services) (act : Attempt α) : Prop := M.Readying s act.run

namespace Attempt

variable {α β : Type} {act : Attempt α}

theorem readying_bind {next : α → Attempt β} (ha : Readying s act) (hn : ∀ a, Readying s (next a)) :
    Readying s (act >>= next) := by
  intro m
  rw [Attempt.after_bind_iff]
  refine (ha m).mono (fun r b hb => ?_) fun _ => id
  cases r with
  | error f => exact hb
  | ok a => exact (hn a b).mono (fun _ _ => hb.trans) fun _ => id

theorem readying_lift {act : M α} (h : M.Readying s act) : Readying s (liftM act : Attempt α) := by
  intro m
  rw [Attempt.after_lift_iff]
  exact h m

theorem readying_pure {a : α} : Readying s (pure a : Attempt α) := M.readying_pure (a := Except.ok a)

theorem readying_throw {f : Failure} : Readying s (throw f : Attempt α) := M.readying_pure (a := Except.error f)

theorem readying_failIf {b : Bool} {name message : String} : Readying s (failIf b name message) := by
  intro m
  rw [Attempt.after_failIf_iff]
  exact .refl m

theorem readying_load {l : Nat} {name : String} : Readying s (s.load l name) := by
  intro m
  unfold After
  cases hr : (s.load l name).run m with
  | ok r b => exact .load hr (.refl b)
  | error e b => trivial

end Attempt

end JavaMachine
