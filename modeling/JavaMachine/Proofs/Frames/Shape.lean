import JavaMachine.Machine.Execute.Control
import JavaMachine.Machine.Execute.Stack

/-!
The shape of frames. A stack is `Tidy` if what it holds fits and all cells above are cleared. Actions on stacks are
`Orderly`, and actions on local variables are `Sized`: they change neither capacities nor numbers of variables, and
leave a tidy stack tidy. So frames are `Retouched` by what acts on the innermost of them: it keeps its kind, its method
and its shape, and those below it stay what they are.
-/

namespace JavaMachine

/-- What an action leaves, whether it fails or not. -/
def left {ε σ α : Type} : EStateM.Result ε σ α → σ
  | .ok _ s => s
  | .error _ s => s

/-! ## Operand stacks -/

namespace OperandStack

/-- What a stack holds fits, and the cells above are cleared. -/
structure Tidy (s : OperandStack) : Prop where
  fits : s.size ≤ s.slots.size
  cleared : ∀ i, s.size ≤ i → i < s.slots.size → s.slots[i]? = some .null

/-- A stack becomes another of its capacity, which is tidy if that was. -/
structure Becomes (s s' : OperandStack) : Prop where
  capacity : s'.slots.size = s.slots.size
  tidy : s.Tidy → s'.Tidy

theorem Becomes.refl (s : OperandStack) : s.Becomes s := ⟨rfl, id⟩

theorem Becomes.trans {s s' s'' : OperandStack} (h : s.Becomes s') (h' : s'.Becomes s'') : s.Becomes s'' :=
  ⟨h'.capacity.trans h.capacity, h'.tidy ∘ h.tidy⟩

theorem tidy_ofCapacity (n : Nat) : (ofCapacity n).Tidy where
  fits := Nat.zero_le _
  cleared i _ hi := by
    rw [ofCapacity, Slots.ofSize, Array.size_replicate] at hi
    rw [ofCapacity, Slots.ofSize, Array.getElem?_replicate, if_pos hi]

/-- An action keeps capacities, and leaves tidy stacks tidy, whether it fails or not. -/
def Orderly {α : Type} (act : Action α) : Prop := ∀ s : OperandStack, s.Becomes (left (act s))

section
variable {α β : Type} {act : Action α}

@[grind ←]
theorem orderly_pure {a : α} : Orderly (pure a) := fun s => .refl s

/-- Where two actions after each other succeed, both do. -/
theorem exists_of_bind {next : α → Action β} {s s' : OperandStack} {b : β} (h : (act >>= next) s = .ok b s') :
    ∃ a between, act s = .ok a between ∧ next a between = .ok b s' := by
  change EStateM.bind act next s = .ok b s' at h
  unfold EStateM.bind at h
  cases hr : act s with
  | error e between =>
    rw [hr] at h
    nomatch h
  | ok a between =>
    rw [hr] at h
    exact ⟨a, between, rfl, h⟩

@[grind ←]
theorem orderly_bind {next : α → Action β} (h : Orderly act) (hn : ∀ a, Orderly (next a)) :
    Orderly (act >>= next) := by
  intro s
  have hact := h s
  change s.Becomes (left (EStateM.bind act next s))
  unfold EStateM.bind
  cases hr : act s with
  | error e s' =>
    rw [hr] at hact
    exact hact
  | ok a s' =>
    rw [hr] at hact
    exact hact.trans (hn a s')

@[grind ←]
theorem orderly_map {f : α → β} (h : Orderly act) : Orderly (f <$> act) := orderly_bind h fun _ => orderly_pure

@[grind ←]
theorem orderly_discard (h : Orderly act) : Orderly (discard act) := orderly_map h

@[grind ←]
theorem orderly_push {v : Slot} : Orderly (push v) := by
  intro s
  unfold push
  split
  · exact .refl s
  · next hroom =>
    refine ⟨Array.size_setIfInBounds, fun h => ⟨?_, fun i hi hlt => ?_⟩⟩
    · change s.size + 1 ≤ (s.slots.setIfInBounds s.size v).size
      rw [Array.size_setIfInBounds]
      omega
    · change s.size + 1 ≤ i at hi
      change i < (s.slots.setIfInBounds s.size v).size at hlt
      change (s.slots.setIfInBounds s.size v)[i]? = some .null
      rw [Array.size_setIfInBounds] at hlt
      rw [Array.getElem?_setIfInBounds_ne (by omega)]
      exact h.cleared i (by omega) hlt

@[grind ←]
theorem orderly_pop : Orderly pop := by
  intro s
  unfold pop
  split
  · exact .refl s
  · next n hsize =>
    refine ⟨Array.size_setIfInBounds, fun h => ⟨?_, fun i hi hlt => ?_⟩⟩
    · have hfits := h.fits
      change n ≤ (s.slots.setIfInBounds n .null).size
      rw [Array.size_setIfInBounds]
      omega
    · change n ≤ i at hi
      change i < (s.slots.setIfInBounds n .null).size at hlt
      change (s.slots.setIfInBounds n .null)[i]? = some .null
      rw [Array.size_setIfInBounds] at hlt
      by_cases hn : n = i
      · subst hn
        exact Array.getElem?_setIfInBounds_self_of_lt hlt
      · rw [Array.getElem?_setIfInBounds_ne hn]
        exact h.cleared i (by omega) hlt

@[grind ←]
theorem orderly_peek {depth : Int} : Orderly (peek depth) := by
  intro s
  unfold peek
  split <;> exact .refl s

@[grind ←]
theorem orderly_pushAll {slots : List Slot} : Orderly (pushAll slots) := by
  induction slots with
  | nil => exact orderly_pure
  | cons v rest ih => exact orderly_bind orderly_push fun _ => ih

end

theorem size_clearFrom (slots : Slots) (start n : Nat) : (clearFrom slots start n).size = slots.size := by
  induction n generalizing slots start with
  | zero => rfl
  | succ n ih => rw [clearFrom, ih, Array.size_setIfInBounds]

theorem getElem?_clearFrom (slots : Slots) (start n i : Nat) (hi : i < slots.size) :
    (clearFrom slots start n)[i]? = if start ≤ i ∧ i < start + n then some .null else slots[i]? := by
  induction n generalizing slots start with
  | zero => exact (if_neg (by omega)).symm
  | succ n ih =>
    rw [clearFrom, ih _ _ (by rw [Array.size_setIfInBounds]; exact hi)]
    by_cases hstart : start = i
    · subst hstart
      rw [if_neg (by omega), if_pos (by omega), Array.getElem?_setIfInBounds_self_of_lt hi]
    · rw [Array.getElem?_setIfInBounds_ne hstart]
      by_cases hin : start + 1 ≤ i ∧ i < start + 1 + n
      · rw [if_pos hin, if_pos (by omega)]
      · rw [if_neg hin, if_neg (by omega)]

@[grind ←]
theorem orderly_clear : Orderly clear := by
  intro s
  refine ⟨size_clearFrom .., fun h => ⟨Nat.zero_le _, fun i _ hlt => ?_⟩⟩
  change i < (clearFrom s.slots 0 s.size).size at hlt
  change (clearFrom s.slots 0 s.size)[i]? = some .null
  rw [size_clearFrom] at hlt
  rw [getElem?_clearFrom _ _ _ _ hlt]
  split
  · rfl
  · exact h.cleared i (by omega) hlt

/-- The slots that are popped are cleared. -/
theorem orderly_popMany {n : Nat} : Orderly (popMany n) := by
  intro s
  unfold popMany
  split
  · exact .refl s
  · next hsize =>
    refine ⟨size_clearFrom .., fun h => ⟨?_, fun i hi hlt => ?_⟩⟩
    · have hfits := h.fits
      change s.size - n ≤ (clearFrom s.slots (s.size - n) n).size
      rw [size_clearFrom]
      omega
    · change s.size - n ≤ i at hi
      change i < (clearFrom s.slots (s.size - n) n).size at hlt
      change (clearFrom s.slots (s.size - n) n)[i]? = some .null
      rw [size_clearFrom] at hlt
      rw [getElem?_clearFrom _ _ _ _ hlt]
      split
      · rfl
      · exact h.cleared i (by omega) hlt

@[grind ←] theorem orderly_pushInt {v : Int32} : Orderly (pushInt v) := orderly_push
@[grind ←] theorem orderly_popInt : Orderly popInt := orderly_bind orderly_pop fun _ => orderly_pure
@[grind ←] theorem orderly_pushRef {r : Option Ref} : Orderly (pushRef r) := orderly_push
@[grind ←] theorem orderly_popRef : Orderly popRef := orderly_bind orderly_pop fun _ => orderly_pure
@[grind ←] theorem orderly_pushBool {b : Bool} : Orderly (pushBool b) := orderly_push
@[grind ←] theorem orderly_pushFloat {bits : UInt32} : Orderly (pushFloat bits) := orderly_push
@[grind ←] theorem orderly_popFloat : Orderly popFloat := orderly_bind orderly_pop fun _ => orderly_pure

@[grind ←]
theorem orderly_pushLong {v : Int64} : Orderly (pushLong v) := orderly_bind orderly_push fun _ => orderly_push

@[grind ←]
theorem orderly_popLong : Orderly popLong :=
  orderly_bind orderly_pop fun _ => orderly_bind orderly_pop fun _ => orderly_pure

@[grind ←] theorem orderly_pushDouble {bits : UInt64} : Orderly (pushDouble bits) := orderly_pushLong
@[grind ←] theorem orderly_popDouble : Orderly popDouble := orderly_bind orderly_popLong fun _ => orderly_pure

end OperandStack

namespace Execute

open OperandStack

@[grind ←]
theorem orderly_rearrange {op : StackOp} : Orderly (rearrange op) := by
  cases op <;> (unfold rearrange; grind)

@[grind ←]
theorem orderly_popResult {width : Nat} : Orderly (popResult width) := by
  induction width with
  | zero => exact orderly_pure
  | succ n ih =>
    unfold popResult
    exact orderly_bind orderly_pop fun _ => orderly_bind ih fun _ => orderly_pure

end Execute

/-! ## Local variables -/

namespace Slots

/-- An action leaves as many slots as there were, whether it fails or not. -/
def Sized {α : Type} (act : Action α) : Prop := ∀ slots : Slots, Array.size (left (act slots)) = slots.size

theorem sized_bind {α β : Type} {act : Action α} {next : α → Action β} (h : Sized act) (hn : ∀ a, Sized (next a)) :
    Sized (act >>= next) := by
  intro slots
  have hact := h slots
  change Array.size (left (EStateM.bind act next slots)) = slots.size
  unfold EStateM.bind
  cases hr : act slots with
  | error e slots' =>
    rw [hr] at hact
    exact hact
  | ok a slots' =>
    rw [hr] at hact
    exact (hn a slots').trans hact

@[grind ←]
theorem sized_read {i : Int} : Sized (read i) := by
  intro slots
  unfold read
  split
  · rfl
  · split <;> rfl

@[grind ←]
theorem sized_write {i : Int} {v : Slot} : Sized (write i v) := by
  intro slots
  unfold write
  split
  · rfl
  · split
    · exact Array.size_setIfInBounds
    · rfl

@[grind ←]
theorem sized_readLong {i : Int} : Sized (readLong i) :=
  sized_bind sized_read fun _ => sized_bind sized_read fun _ _ => rfl

end Slots

/-! ## Frames -/

namespace Frame

/-- A frame becomes another of its kind, whose method, position and shape are the same. -/
inductive Becomes : Frame → Frame → Prop
  | barrier : Becomes .barrier .barrier
  | shim {s s' : OperandStack} : s.Becomes s' → Becomes (.shim s) (.shim s')
  | active {a a' : Activation} : a'.method = a.method → a'.pc = a.pc → a.stack.Becomes a'.stack →
      a'.locals.size = a.locals.size → Becomes (.active a) (.active a')

theorem Becomes.refl (f : Frame) : f.Becomes f := by
  cases f with
  | barrier => exact .barrier
  | shim s => exact .shim (.refl s)
  | active a => exact .active rfl rfl (.refl _) rfl

theorem Becomes.trans {f g h : Frame} (hfg : f.Becomes g) (hgh : g.Becomes h) : f.Becomes h := by
  cases hfg with
  | barrier => exact hgh
  | shim hs =>
    cases hgh with
    | shim hs' => exact .shim (hs.trans hs')
  | active hmethod hpc hstack hlocals =>
    cases hgh with
    | active hmethod' hpc' hstack' hlocals' =>
      exact .active (hmethod'.trans hmethod) (hpc'.trans hpc) (hstack.trans hstack') (hlocals'.trans hlocals)

/-- A frame with a stack that its own becomes. -/
theorem becomes_withStack {f : Frame} {s : OperandStack} (h : f.stack.Becomes s) : f.Becomes (f.withStack s) := by
  cases f with
  | barrier => exact .barrier
  | shim s' => exact .shim h
  | active a => exact .active rfl rfl h rfl

end Frame

/-- Frames after others: the innermost of them may have become another. -/
inductive Retouched : List Frame → List Frame → Prop
  | same (frames : List Frame) : Retouched frames frames
  | top {f g : Frame} (rest : List Frame) : f.Becomes g → Retouched (f :: rest) (g :: rest)

theorem Retouched.trans {a b c : List Frame} (h : Retouched a b) (h' : Retouched b c) : Retouched a c := by
  cases h with
  | same => exact h'
  | top rest hf =>
    cases h' with
    | same => exact .top rest hf
    | top _ hf' => exact .top rest (hf.trans hf')

end JavaMachine
