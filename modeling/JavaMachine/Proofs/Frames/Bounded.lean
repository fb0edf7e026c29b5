import JavaMachine.Proofs.Bytes.BigEndian
import JavaMachine.Proofs.Frames.Shape
import Mathlib.Data.List.Basic

/-!
Operand stacks as bounded lists. A stack that is `holding` a list has the slots of the list in its first cells and zeros
in all cells above. Every operation acts on the end of the list, fails where the list is too short or would become longer
than the capacity, and leaves a stack that is holding a list again; so the zeros above stay whatever was taken away. Main
result: `OperandStack.bounded_list`.
-/

namespace JavaMachine

/-! ## Operations -/

/-- An operation on an operand stack. -/
inductive StackCall where
  | push (v : Slot)
  | pushInt (v : Int32)
  | pushRef (r : Option Ref)
  | pushBool (b : Bool)
  | pushFloat (bits : UInt32)
  | pushLong (v : Int64)
  | pushDouble (bits : UInt64)
  | pop
  | popInt
  | popRef
  | popFloat
  | popLong
  | popDouble
  | popMany (n : Nat)
  | peek (depth : Int)
  | clear

/-- What an operation gives. -/
inductive StackAnswer where
  | done
  | slot (v : Slot)
  | int (v : Int32)
  | ref (r : Option Ref)
  | float (bits : UInt32)
  | long (v : Int64)
  | double (bits : UInt64)
  | slots (vs : List Slot)

namespace StackCall

/-- An operation as it is done on a stack. -/
def perform : StackCall → OperandStack.Action StackAnswer
  | .push v => (fun _ => .done) <$> OperandStack.push v
  | .pushInt v => (fun _ => .done) <$> OperandStack.pushInt v
  | .pushRef r => (fun _ => .done) <$> OperandStack.pushRef r
  | .pushBool b => (fun _ => .done) <$> OperandStack.pushBool b
  | .pushFloat bits => (fun _ => .done) <$> OperandStack.pushFloat bits
  | .pushLong v => (fun _ => .done) <$> OperandStack.pushLong v
  | .pushDouble bits => (fun _ => .done) <$> OperandStack.pushDouble bits
  | .pop => .slot <$> OperandStack.pop
  | .popInt => .int <$> OperandStack.popInt
  | .popRef => .ref <$> OperandStack.popRef
  | .popFloat => .float <$> OperandStack.popFloat
  | .popLong => .long <$> OperandStack.popLong
  | .popDouble => .double <$> OperandStack.popDouble
  | .popMany n => .slots <$> OperandStack.popMany n
  | .peek depth => .slot <$> OperandStack.peek depth
  | .clear => (fun _ => .done) <$> OperandStack.clear

/-- The outcome of an operation and the stack that it left. -/
def outcome (c : StackCall) (s : OperandStack) : Except StackFault StackAnswer × OperandStack :=
  match c.perform s with
  | .ok a s => (.ok a, s)
  | .error f s => (.error f, s)

/-- The outcomes of operations one after another; one that fails does not end them. -/
def outcomes : List StackCall → OperandStack → List (Except StackFault StackAnswer) × OperandStack
  | [], s => ([], s)
  | c :: rest, s =>
    let (r, s) := c.outcome s
    let (rs, s) := outcomes rest s
    (r :: rs, s)

/-! ## The same on a list -/

/-- Puts slots behind a list that may have `cap` slots. Of slots that do not all fit, those that do are left there. -/
def listPush (cap : Nat) (l vs : List Slot) : Except StackFault StackAnswer × List Slot :=
  if l.length + vs.length ≤ cap then (.ok .done, l ++ vs) else (.error (.overflow cap), l ++ vs.take (cap - l.length))

/-- Takes the last `n` slots of a list, one by one. If there are fewer, those that there are are gone. -/
def listPop (n : Nat) (answer : List Slot → StackAnswer) (l : List Slot) : Except StackFault StackAnswer × List Slot :=
  (if n ≤ l.length then .ok (answer (l.drop (l.length - n))) else .error .underflow, l.take (l.length - n))

/-- An operation as it acts on a list that may have `cap` slots. -/
def onList (cap : Nat) (l : List Slot) : StackCall → Except StackFault StackAnswer × List Slot
  | .push v => listPush cap l [v]
  | .pushInt v => listPush cap l [.num v]
  | .pushRef r => listPush cap l [.ofRef r]
  | .pushBool b => listPush cap l [.ofBool b]
  | .pushFloat bits => listPush cap l [.ofFloat bits]
  | .pushLong v => listPush cap l [.lowHalf v, .highHalf v]
  | .pushDouble bits => listPush cap l [.lowHalf bits.toInt64, .highHalf bits.toInt64]
  | .pop => listPop 1 (fun vs => .slot (vs.getD 0 .null)) l
  | .popInt => listPop 1 (fun vs => .int (vs.getD 0 .null).int) l
  | .popRef => listPop 1 (fun vs => .ref (vs.getD 0 .null).ref?) l
  | .popFloat => listPop 1 (fun vs => .float (vs.getD 0 .null).float) l
  | .popLong => listPop 2 (fun vs => .long (Slot.joinLong (vs.getD 0 .null) (vs.getD 1 .null))) l
  | .popDouble => listPop 2 (fun vs => .double (Slot.joinDouble (vs.getD 0 .null) (vs.getD 1 .null))) l
  | .popMany n =>
    if n ≤ l.length then (.ok (.slots (l.drop (l.length - n))), l.take (l.length - n))
    else (.error (.popping n l.length), l)
  | .peek depth =>
    if 0 ≤ depth ∧ depth < l.length then (.ok (.slot (l.getD (l.length - 1 - depth.toNat) .null)), l)
    else (.error (.peek depth l.length), l)
  | .clear => (.ok .done, [])

/-- The outcomes of operations on a list. -/
def outcomesOnList (cap : Nat) : List StackCall → List Slot → List (Except StackFault StackAnswer) × List Slot
  | [], l => ([], l)
  | c :: rest, l =>
    let (r, l) := c.onList cap l
    let (rs, l) := outcomesOnList cap rest l
    (r :: rs, l)

/-- The list is too short for an operation, or would become longer than the capacity. -/
def Exceeds (cap : Nat) (l : List Slot) : StackCall → Prop
  | .push _ | .pushInt _ | .pushRef _ | .pushBool _ | .pushFloat _ => cap < l.length + 1
  | .pushLong _ | .pushDouble _ => cap < l.length + 2
  | .pop | .popInt | .popRef | .popFloat => l.length < 1
  | .popLong | .popDouble => l.length < 2
  | .popMany n => l.length < n
  | .peek depth => ∀ i : Nat, i < l.length → depth ≠ i
  | .clear => False

end StackCall

namespace OperandStack

/-- The stack of a capacity that has the slots of a list in its first cells and zeros above. -/
def holding (cap : Nat) (l : List Slot) : OperandStack := ⟨(l ++ List.replicate (cap - l.length) Slot.null).toArray, l.length⟩

variable {cap n : Nat} {l : List Slot}

theorem holding_nil (cap : Nat) : holding cap [] = ofCapacity cap := by
  rw [holding, ofCapacity, Slots.ofSize, List.nil_append, List.length_nil, Nat.sub_zero, List.toArray_replicate]

theorem toList_holding (cap : Nat) (l : List Slot) : (holding cap l).toList = l := by
  rw [toList, holding, Array.toList_extract, List.extract_eq_take_drop, List.drop_zero, Nat.sub_zero, List.take_left]

theorem size_slots_holding (h : l.length ≤ cap) : (holding cap l).slots.size = cap := by
  rw [holding, List.size_toArray, List.length_append, List.length_replicate, Nat.add_sub_cancel' h]

theorem getElem?_holding_top (v : Slot) (cap : Nat) (l : List Slot) :
    (holding cap (l ++ [v])).slots[l.length]? = some v := by
  rw [holding, List.getElem?_toArray, List.append_assoc, List.getElem?_append_right (Nat.le_refl _), Nat.sub_self]
  rfl

/-- A cell of a stack has the slot of the list, or zero. -/
theorem getElem?_holding (h : l.length ≤ cap) {i : Nat} (hi : i < cap) :
    (holding cap l).slots[i]? = some (l.getD i .null) := by
  rw [holding, List.getElem?_toArray, List.getElem?_append, List.getD_eq_getElem?_getD]
  split
  · next hin => rw [List.getElem?_eq_getElem hin, Option.getD_some]
  · next hout =>
    rw [List.getElem?_replicate, if_pos (by omega), List.getElem?_eq_none (by omega), Option.getD_none]

/-! ## Single slots -/

theorem push_holding (h : l.length ≤ cap) (v : Slot) :
    push v (holding cap l) =
      if l.length < cap then .ok () (holding cap (l ++ [v])) else .error (.overflow cap) (holding cap l) := by
  rw [push, size_slots_holding h]
  change (if cap ≤ l.length then _ else _) = _
  by_cases hroom : l.length < cap
  · rw [if_neg (Nat.not_le.2 hroom), if_pos hroom]
    have hcells : List.replicate (cap - l.length) Slot.null = .null :: List.replicate (cap - (l.length + 1)) .null := by
      rw [← List.replicate_succ]
      congr 1
      omega
    simp only [holding, List.setIfInBounds_toArray, hcells, List.length_append, List.length_singleton,
      List.set_append_right _ _ (Nat.le_refl _), Nat.sub_self, List.set_cons_zero, List.append_assoc,
      List.singleton_append]
  · rw [if_pos (Nat.not_lt.1 hroom), if_neg hroom]

theorem pop_holding (h : l.length < cap) (v : Slot) : pop (holding cap (l ++ [v])) = .ok v (holding cap l) := by
  have hsize : (holding cap (l ++ [v])).size = l.length + 1 := by rw [holding, List.length_append, List.length_singleton]
  have hcells : List.replicate (cap - l.length) Slot.null = .null :: List.replicate (cap - (l.length + 1)) .null := by
    rw [← List.replicate_succ]
    congr 1
    omega
  rw [pop, hsize]
  simp only [Array.getD_eq_getD_getElem?, getElem?_holding_top, Option.getD_some]
  simp only [holding, List.setIfInBounds_toArray, hcells, List.length_append, List.length_singleton, List.append_assoc,
    List.singleton_append, List.set_append_right _ _ (Nat.le_refl _), Nat.sub_self, List.set_cons_zero]

theorem peek_holding (depth : Int) (cap : Nat) (l : List Slot) :
    peek depth (holding cap l) =
      if 0 ≤ depth ∧ depth < l.length then .ok (l.getD (l.length - 1 - depth.toNat) .null) (holding cap l)
      else .error (.peek depth l.length) (holding cap l) := by
  rw [peek]
  change (if depth < 0 ∨ (l.length : Int) ≤ depth then _ else _) = _
  by_cases hin : 0 ≤ depth ∧ depth < l.length
  · rw [if_neg (by omega), if_pos hin]
    have hcell : (holding cap l).slots.getD (l.length - 1 - depth.toNat) .null =
        l.getD (l.length - 1 - depth.toNat) .null := by
      rw [Array.getD_eq_getD_getElem?, List.getD_eq_getElem?_getD, holding, List.getElem?_toArray,
        List.getElem?_append_left (by omega)]
    exact congrArg (EStateM.Result.ok · _) hcell
  · rw [if_pos (by omega), if_neg hin]
    rfl

/-! ## Several slots -/

theorem pushAll_holding (h : l.length ≤ cap) (vs : List Slot) :
    pushAll vs (holding cap l) =
      if l.length + vs.length ≤ cap then .ok () (holding cap (l ++ vs))
      else .error (.overflow cap) (holding cap (l ++ vs.take (cap - l.length))) := by
  induction vs generalizing l with
  | nil =>
    rw [List.length_nil, if_pos (by omega), List.append_nil]
    rfl
  | cons v rest ih =>
    have hrun : pushAll (v :: rest) (holding cap l) = EStateM.bind (push v) (fun _ => pushAll rest) (holding cap l) := rfl
    rw [hrun, EStateM.bind, push_holding h]
    by_cases hroom : l.length < cap
    · rw [if_pos hroom]
      have hlength : (l ++ [v]).length = l.length + 1 := by rw [List.length_append, List.length_singleton]
      have hrest := ih (l := l ++ [v]) (by rw [hlength]; omega)
      have htake : (v :: rest).take (cap - l.length) = v :: rest.take (cap - (l.length + 1)) := by
        rw [show cap - l.length = cap - (l.length + 1) + 1 by omega, List.take_succ_cons]
      rw [hlength, List.append_assoc, List.append_assoc, List.singleton_append, List.singleton_append] at hrest
      rw [List.length_cons, htake, Nat.add_comm rest.length 1, ← Nat.add_assoc]
      exact hrest
    · rw [if_neg hroom, if_neg (by rw [List.length_cons]; omega), show cap - l.length = 0 by omega, List.take_zero,
        List.append_nil]

theorem pushAll_single (v : Slot) : pushAll [v] = push v := bind_pure_unit

theorem pushAll_pair (lo hi : Slot) : pushAll [lo, hi] = push lo >>= fun _ => push hi := by
  rw [← pushAll_single hi]
  rfl

/-- Clearing the cells of the last slots of a list leaves the others. -/
theorem clearFrom_holding (hn : n ≤ l.length) (h : l.length ≤ cap) :
    (⟨clearFrom (holding cap l).slots (l.length - n) n, l.length - n⟩ : OperandStack) =
      holding cap (l.take (l.length - n)) := by
  have hlength : (l.take (l.length - n)).length = l.length - n := by rw [List.length_take]; omega
  have hcells : clearFrom (holding cap l).slots (l.length - n) n = (holding cap (l.take (l.length - n))).slots := by
    refine Array.ext_getElem? fun i => ?_
    by_cases hi : i < cap
    · rw [getElem?_clearFrom _ _ _ _ (by rw [size_slots_holding h]; exact hi), getElem?_holding h hi,
        getElem?_holding (by omega) hi, List.getD_eq_getElem?_getD, List.getD_eq_getElem?_getD, List.getElem?_take]
      by_cases hkept : i < l.length - n
      · rw [if_neg (by omega), if_pos hkept]
      · rw [if_neg hkept]
        by_cases hin : i < l.length
        · rw [if_pos (by omega)]
          rfl
        · rw [if_neg (by omega), List.getElem?_eq_none (by omega)]
    · rw [Array.getElem?_eq_none, Array.getElem?_eq_none]
      · rw [size_slots_holding (by omega)]
        omega
      · rw [size_clearFrom, size_slots_holding h]
        omega
  rw [hcells, holding, hlength]

theorem clear_holding (h : l.length ≤ cap) : clear (holding cap l) = .ok () (holding cap []) := by
  have hall := clearFrom_holding (Nat.le_refl _) h
  rw [Nat.sub_self, List.take_zero] at hall
  exact congrArg (EStateM.Result.ok ()) hall

theorem popMany_holding (h : l.length ≤ cap) (n : Nat) :
    popMany n (holding cap l) =
      if n ≤ l.length then .ok (l.drop (l.length - n)) (holding cap (l.take (l.length - n)))
      else .error (.popping n l.length) (holding cap l) := by
  rw [popMany]
  change (if l.length < n then _ else _) = _
  by_cases hn : n ≤ l.length
  · rw [if_neg (by omega), if_pos hn, ← clearFrom_holding hn h]
    have hslots : ((holding cap l).slots.extract (l.length - n) l.length).toList = l.drop (l.length - n) := by
      rw [holding, Array.toList_extract, List.extract_eq_take_drop, List.drop_append_of_le_length (by omega),
        List.take_append_of_le_length (Nat.le_of_eq List.length_drop.symm)]
      exact List.take_of_length_le (Nat.le_of_eq List.length_drop)
    exact congrArg (EStateM.Result.ok · _) hslots
  · rw [if_pos (by omega), if_neg hn]
    rfl

end OperandStack

/-! ## Operations on both sides -/

namespace StackCall

open OperandStack (Action holding)

variable {cap n : Nat} {l vs : List Slot} {c : StackCall}

theorem run_answer {α : Type} (f : α → StackAnswer) (act : Action α) (s : OperandStack) :
    (f <$> act) s =
      match act s with
      | .ok a s => .ok (f a) s
      | .error e s => .error e s := by
  change EStateM.map f act s = _
  rw [EStateM.map]
  cases act s <;> rfl

theorem outcome_pushing (hc : c.perform = (fun _ => .done) <$> OperandStack.pushAll vs) (h : l.length ≤ cap) :
    c.outcome (holding cap l) = ((listPush cap l vs).1, holding cap (listPush cap l vs).2) := by
  rw [outcome, hc, run_answer, OperandStack.pushAll_holding h, listPush]
  by_cases hroom : l.length + vs.length ≤ cap
  · rw [if_pos hroom, if_pos hroom]
  · rw [if_neg hroom, if_neg hroom]

theorem outcome_popping {f : Slot → StackAnswer} (hc : c.perform = f <$> OperandStack.pop) (h : l.length ≤ cap) :
    c.outcome (holding cap l) =
      ((listPop 1 (fun vs => f (vs.getD 0 .null)) l).1, holding cap (listPop 1 (fun vs => f (vs.getD 0 .null)) l).2) := by
  rw [outcome, hc, run_answer]
  obtain rfl | ⟨below, v, rfl⟩ := List.eq_nil_or_concat' l
  · rfl
  · rw [List.length_append, List.length_singleton] at h
    rw [OperandStack.pop_holding (by omega)]
    simp [listPop]

theorem outcome_popping_two {f : Slot → Slot → StackAnswer}
    (hc : c.perform = OperandStack.pop >>= fun hi => (f · hi) <$> OperandStack.pop) (h : l.length ≤ cap) :
    c.outcome (holding cap l) =
      ((listPop 2 (fun vs => f (vs.getD 0 .null) (vs.getD 1 .null)) l).1,
        holding cap (listPop 2 (fun vs => f (vs.getD 0 .null) (vs.getD 1 .null)) l).2) := by
  have hrun : c.perform (holding cap l) =
      match OperandStack.pop (holding cap l) with
      | .ok hi s => ((f · hi) <$> OperandStack.pop) s
      | .error e s => .error e s := by
    rw [hc]
    change EStateM.bind OperandStack.pop _ (holding cap l) = _
    rw [EStateM.bind]
    cases OperandStack.pop (holding cap l) <;> rfl
  rw [outcome, hrun]
  obtain rfl | ⟨below, hi, rfl⟩ := List.eq_nil_or_concat' l
  · rfl
  · rw [List.length_append, List.length_singleton] at h
    rw [OperandStack.pop_holding (by omega)]
    dsimp only
    rw [run_answer]
    obtain rfl | ⟨below, lo, rfl⟩ := List.eq_nil_or_concat' below
    · rfl
    · rw [List.length_append, List.length_singleton] at h
      rw [OperandStack.pop_holding (by omega)]
      simp [listPop]

/-- An operation on a stack that is holding a list is the operation on the list. -/
theorem outcome_holding (h : l.length ≤ cap) (c : StackCall) :
    c.outcome (holding cap l) = ((c.onList cap l).1, holding cap (c.onList cap l).2) := by
  cases c with
  | push v => exact outcome_pushing (by rw [OperandStack.pushAll_single]; rfl) h
  | pushInt v => exact outcome_pushing (by rw [OperandStack.pushAll_single]; rfl) h
  | pushRef r => exact outcome_pushing (by rw [OperandStack.pushAll_single]; rfl) h
  | pushBool b => exact outcome_pushing (by rw [OperandStack.pushAll_single]; rfl) h
  | pushFloat bits => exact outcome_pushing (by rw [OperandStack.pushAll_single]; rfl) h
  | pushLong v => exact outcome_pushing (by rw [OperandStack.pushAll_pair]; rfl) h
  | pushDouble bits => exact outcome_pushing (by rw [OperandStack.pushAll_pair]; rfl) h
  | pop => exact outcome_popping rfl h
  | popInt => exact outcome_popping (f := fun v => .int v.int) (by simp [perform, OperandStack.popInt]) h
  | popRef => exact outcome_popping (f := fun v => .ref v.ref?) (by simp [perform, OperandStack.popRef]) h
  | popFloat => exact outcome_popping (f := fun v => .float v.float) (by simp [perform, OperandStack.popFloat]) h
  | popLong =>
    exact outcome_popping_two (f := fun lo hi => .long (Slot.joinLong lo hi)) (by simp [perform, OperandStack.popLong]) h
  | popDouble =>
    exact outcome_popping_two (f := fun lo hi => .double (Slot.joinDouble lo hi))
      (by simp [perform, OperandStack.popDouble, OperandStack.popLong, Slot.joinDouble]) h
  | popMany n =>
    rw [outcome, perform, run_answer, OperandStack.popMany_holding h, onList]
    by_cases hn : n ≤ l.length
    · rw [if_pos hn, if_pos hn]
    · rw [if_neg hn, if_neg hn]
  | peek depth =>
    rw [outcome, perform, run_answer, OperandStack.peek_holding, onList]
    by_cases hin : 0 ≤ depth ∧ depth < l.length
    · rw [if_pos hin, if_pos hin]
    · rw [if_neg hin, if_neg hin]
  | clear =>
    rw [outcome, perform, run_answer, OperandStack.clear_holding h]
    rfl

theorem length_onList_le (h : l.length ≤ cap) (c : StackCall) : (c.onList cap l).2.length ≤ cap := by
  have hpush (vs : List Slot) : (listPush cap l vs).2.length ≤ cap := by
    rw [listPush]
    split
    · rw [List.length_append]
      assumption
    · rw [List.length_append, List.length_take]
      omega
  have hpop (n : Nat) (answer : List Slot → StackAnswer) : (listPop n answer l).2.length ≤ cap :=
    Nat.le_trans (List.length_take_le' _ l) h
  cases c with
  | popMany n =>
    rw [onList]
    split
    · exact Nat.le_trans (List.length_take_le' _ l) h
    · exact h
  | peek depth =>
    rw [onList]
    split <;> exact h
  | clear => exact Nat.zero_le cap
  | push | pushInt | pushRef | pushBool | pushFloat | pushLong | pushDouble => exact hpush _
  | pop | popInt | popRef | popFloat | popLong | popDouble => exact hpop _ _

/-- Operations one after another on a stack that is holding a list are those operations on the list. -/
theorem outcomes_holding (h : l.length ≤ cap) (calls : List StackCall) :
    outcomes calls (holding cap l) = ((outcomesOnList cap calls l).1, holding cap (outcomesOnList cap calls l).2) ∧
      (outcomesOnList cap calls l).2.length ≤ cap := by
  induction calls generalizing l with
  | nil => exact ⟨rfl, h⟩
  | cons c rest ih =>
    obtain ⟨hrest, hlength⟩ := ih (length_onList_le h c)
    refine ⟨?_, hlength⟩
    rw [outcomes, outcome_holding h]
    dsimp only
    rw [hrest]
    rfl

/-- An operation fails exactly where the list is too short for it or would become too long. -/
theorem fails_iff (h : l.length ≤ cap) (c : StackCall) :
    (∃ fault s, c.perform (holding cap l) = .error fault s) ↔ c.Exceeds cap l := by
  have houtcome : (∃ fault s, c.perform (holding cap l) = .error fault s) ↔ ∃ fault, (c.onList cap l).1 = .error fault := by
    have hsame := congrArg Prod.fst (outcome_holding h c)
    dsimp only at hsame
    rw [← hsame, outcome]
    cases c.perform (holding cap l) with
    | ok a s => simp
    | error fault s => simp
  have hpush (vs : List Slot) : (∃ fault, (listPush cap l vs).1 = .error fault) ↔ cap < l.length + vs.length := by
    rw [listPush]
    split <;> simp <;> omega
  have hpop (n : Nat) (answer : List Slot → StackAnswer) :
      (∃ fault, (listPop n answer l).1 = .error fault) ↔ l.length < n := by
    rw [listPop]
    split <;> simp <;> omega
  rw [houtcome]
  cases c with
  | popMany n =>
    rw [onList, Exceeds]
    split <;> simp <;> omega
  | peek depth =>
    rw [onList, Exceeds]
    split
    · next hin => simpa using ⟨depth.toNat, by omega, by omega⟩
    · next hout =>
      refine iff_of_true ⟨_, rfl⟩ fun i hi heq => hout ?_
      omega
  | clear => simp [onList, Exceeds]
  | push | pushInt | pushRef | pushBool | pushFloat | pushLong | pushDouble => exact hpush _
  | pop | popInt | popRef | popFloat | popLong | popDouble => exact hpop _ _

end StackCall

/-! ## Longs and doubles -/

theorem Slot.joinLong_halves (v : Int64) : joinLong (lowHalf v) (highHalf v) = v := by
  change (BigEndian.join32 (v.toUInt64 >>> 32).toUInt32 v.toUInt64.toUInt32).toInt64 = v
  rw [BigEndian.join32_halves]
  rfl

theorem Slot.toNat_lowHalf (v : Int64) : (lowHalf v).int.toUInt32.toNat = v.toUInt64.toNat % 2 ^ 32 := by
  simp [lowHalf, int]

theorem Slot.toNat_highHalf (v : Int64) : (highHalf v).int.toUInt32.toNat = v.toUInt64.toNat / 2 ^ 32 := by
  have hlt := v.toUInt64.toNat_lt
  simp [highHalf, int, Nat.shiftRight_eq_div_pow]
  omega

open StackCall in
/-- Whatever operations are done on a stack of a capacity, they give what they give on a list that may have that many
slots, whose end is the top: the stack has the slots of the list, and zeros above. An operation fails exactly where the list
is too short for it or would become longer than the capacity. The halves of a long or a double are pushed with the low one
first, and its bits are popped as they were. -/
theorem OperandStack.bounded_list (cap : Nat) (calls : List StackCall) :
    let l := (outcomesOnList cap calls []).2
    outcomes calls (ofCapacity cap) = ((outcomesOnList cap calls []).1, holding cap l) ∧
      (holding cap l).toList = l ∧ (holding cap l).size = l.length ∧ (holding cap l).slots.size = cap ∧ l.length ≤ cap ∧
      (∀ c : StackCall, (∃ fault s, c.perform (holding cap l) = .error fault s) ↔ c.Exceeds cap l) ∧
      ∀ bits : UInt64, l.length + 2 ≤ cap → ∃ lo hi : Int32,
        lo.toUInt32.toNat = bits.toNat % 2 ^ 32 ∧ hi.toUInt32.toNat = bits.toNat / 2 ^ 32 ∧
          (∀ c ∈ [StackCall.pushLong bits.toInt64, .pushDouble bits],
            c.outcome (holding cap l) = (.ok .done, holding cap (l ++ [.num lo, .num hi]))) ∧
          outcome .popLong (holding cap (l ++ [.num lo, .num hi])) = (.ok (.long bits.toInt64), holding cap l) ∧
          outcome .popDouble (holding cap (l ++ [.num lo, .num hi])) = (.ok (.double bits), holding cap l) := by
  intro l
  have hempty : ([] : List Slot).length ≤ cap := Nat.zero_le cap
  obtain ⟨hrun, hlength⟩ := outcomes_holding hempty calls
  rw [holding_nil] at hrun
  refine ⟨hrun, toList_holding cap l, rfl, size_slots_holding hlength, hlength, fails_iff hlength, fun bits hroom => ?_⟩
  have hpushed : listPush cap l [.lowHalf bits.toInt64, .highHalf bits.toInt64] =
      (.ok .done, l ++ [.lowHalf bits.toInt64, .highHalf bits.toInt64]) := if_pos hroom
  have hfull : (l ++ [Slot.lowHalf bits.toInt64, Slot.highHalf bits.toInt64]).length ≤ cap := by
    rw [List.length_append]
    exact hroom
  refine ⟨_, _, Slot.toNat_lowHalf bits.toInt64, Slot.toNat_highHalf bits.toInt64, fun c hc => ?_, ?_, ?_⟩
  · rw [outcome_holding hlength]
    simp only [List.mem_cons, List.not_mem_nil, or_false] at hc
    rcases hc with rfl | rfl <;> exact congrArg (fun p => (p.1, holding cap p.2)) hpushed
  · refine (outcome_holding hfull .popLong).trans ?_
    simp [onList, listPop, Slot.joinLong_halves]
  · refine (outcome_holding hfull .popDouble).trans ?_
    simp [onList, listPop, Slot.joinDouble, Slot.joinLong_halves]

end JavaMachine
