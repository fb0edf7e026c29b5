import JavaMachine.Proofs.Assembler.Emissions
import JavaMachine.Proofs.Code.Decoding
import JavaMachine.Proofs.Loading.Constants

/-!
What the assembler's choice of a form means. A number is pushed by the shortest instruction for it, and local variables
are accessed with a byte or, behind `wide`, with a word. Whatever form was chosen, a step that goes on at its bytes
leaves the operands and the local variables that were meant. Main result: `forms_keep_meaning`.
-/

namespace JavaMachine

open BigEndian

/-! ## What steps leave -/

namespace Interpreter

open M

variable {natives : Natives} {s : Services} {m : Machine} {a : Activation} {rest : List Frame}

/-- A step leaves operands and local variables in the innermost activation, which goes on at a position. Nothing else
has changed, but that the step of an initializer is noted. -/
def Leaves (natives : Natives) (s : Services) (m : Machine) (a : Activation) (rest : List Frame)
    (operands : List Slot) (locals : Slots) (next : Int) : Prop :=
  ∃ stack : OperandStack, stack.Carries operands ∧ stack.slots.size = a.stack.slots.size ∧
    step natives s m =
      .ok () ((m.ran a.method).withFrames (.active { a with locals, stack, pc := a.nextPc, nextPc := next } :: rest))

/-- What an access to a local variable, with operands and local variables before it, leaves of them and where it goes
on, if it is not behind itself. A long or a double takes two slots, the low half first. -/
inductive Accesses (k : Nat) : Opcode → List Slot → Slots → List Slot → Slots → Option Int → Prop
  | load {op : Opcode} {operands : List Slot} {locals : Slots} {x : Slot} (narrow : op ∈ [.iload, .fload, .aload])
      (hx : locals[k]? = some x) : Accesses k op operands locals (operands ++ [x]) locals none
  | loadWide {op : Opcode} {operands : List Slot} {locals : Slots} {lo hi : Slot} (wide : op ∈ [.lload, .dload])
      (hlo : locals[k]? = some lo) (hhi : locals[k + 1]? = some hi) :
      Accesses k op operands locals (operands ++ [lo, hi]) locals none
  | store {op : Opcode} {operands : List Slot} {locals : Slots} {x : Slot} (narrow : op ∈ [.istore, .fstore, .astore])
      (hk : k < locals.size) : Accesses k op (operands ++ [x]) locals operands (locals.setIfInBounds k x) none
  | storeWide {op : Opcode} {operands : List Slot} {locals : Slots} {lo hi : Slot} (wide : op ∈ [.lstore, .dstore])
      (hk : k + 1 < locals.size) :
      Accesses k op (operands ++ [lo, hi]) locals operands ((locals.setIfInBounds k lo).setIfInBounds (k + 1) hi) none
  | ret {operands : List Slot} {locals : Slots} {x : Slot} (hx : locals[k]? = some x) :
      Accesses k .ret operands locals operands locals (some x.int.toInt)

end Interpreter

namespace Execute

open M

variable {m : Machine} {a : Activation} {rest : List Frame} {operands : List Slot} {x lo hi : Slot} {k : Nat}

/-! ## Instructions on local variables -/

theorem run_load (hframes : m.frames = .active a :: rest) (hstack : a.stack.Carries operands)
    (hroom : operands.length < a.stack.slots.size) (hx : a.locals[k]? = some x) :
    ∃ stack : OperandStack, stack.Carries (operands ++ [x]) ∧ stack.slots.size = a.stack.slots.size ∧
      load false k m = .ok () (m.withFrames (.active { a with stack } :: rest)) := by
  obtain ⟨stack, habove, hsize, hpush⟩ := run_push hframes hstack hroom x
  refine ⟨stack, habove, hsize, ?_⟩
  rw [load, bind_apply, run_readLocal hframes hx]
  dsimp only
  rw [bind_apply, hpush]
  rfl

theorem run_loadWide (hframes : m.frames = .active a :: rest) (hstack : a.stack.Carries operands)
    (hroom : operands.length + 1 < a.stack.slots.size) (hlo : a.locals[k]? = some lo)
    (hhi : a.locals[k + 1]? = some hi) :
    ∃ stack : OperandStack, stack.Carries (operands ++ [lo, hi]) ∧ stack.slots.size = a.stack.slots.size ∧
      load true k m = .ok () (m.withFrames (.active { a with stack } :: rest)) := by
  obtain ⟨stack, habove, hsize, hpush⟩ := run_push hframes hstack (Nat.lt_of_succ_lt hroom) lo
  let a₁ : Activation := { a with stack }
  let m₁ := m.withFrames (.active a₁ :: rest)
  obtain ⟨stack', habove', hsize', hpush'⟩ := run_push (m := m₁) (a := a₁) rfl habove
    (by rw [List.length_append, List.length_singleton]; exact Nat.lt_of_lt_of_eq hroom hsize.symm) hi
  refine ⟨stack', by simpa using habove', hsize'.trans hsize, ?_⟩
  have hread : onLocals (Slots.read (k + 1)) m₁ = .ok hi m₁ := run_readLocal (k := k + 1) (a := a₁) rfl hhi
  rw [load, bind_apply, run_readLocal hframes hlo]
  dsimp only
  rw [bind_apply, hpush]
  dsimp only
  rw [if_pos rfl, bind_apply, hread]
  exact hpush'

theorem run_store (hframes : m.frames = .active a :: rest) (hstack : a.stack.Carries (operands ++ [x]))
    (hk : k < a.locals.size) :
    ∃ stack : OperandStack, stack.Carries operands ∧ stack.slots.size = a.stack.slots.size ∧
      store false k m =
        .ok () (m.withFrames (.active { a with stack, locals := a.locals.setIfInBounds k x } :: rest)) := by
  obtain ⟨stack, hbelow, hsize, hpop⟩ := run_pop hframes hstack
  refine ⟨stack, hbelow, hsize, ?_⟩
  rw [store, if_neg Bool.false_ne_true, bind_apply, hpop]
  exact run_writeLocal (a := { a with stack }) rfl hk x

theorem run_storeWide (hframes : m.frames = .active a :: rest) (hstack : a.stack.Carries (operands ++ [lo, hi]))
    (hk : k + 1 < a.locals.size) :
    ∃ stack : OperandStack, stack.Carries operands ∧ stack.slots.size = a.stack.slots.size ∧
      store true k m = .ok () (m.withFrames (.active { a with
        stack, locals := (a.locals.setIfInBounds k lo).setIfInBounds (k + 1) hi } :: rest)) := by
  rw [List.append_cons] at hstack
  obtain ⟨stack, hbelow, hsize, hpop⟩ := run_pop hframes hstack
  let a₁ : Activation := { a with stack }
  let m₁ := m.withFrames (.active a₁ :: rest)
  obtain ⟨stack', hbelow', hsize', hpop'⟩ := run_pop (m := m₁) (a := a₁) rfl hbelow
  refine ⟨stack', hbelow', hsize'.trans hsize, ?_⟩
  let a₂ : Activation := { a₁ with stack := stack' }
  have hlow := run_writeLocal (m := m₁.withFrames (.active a₂ :: rest)) (a := a₂) rfl (Nat.lt_of_succ_lt hk) lo
  let a₃ : Activation := { a₂ with locals := a.locals.setIfInBounds k lo }
  have hhigh : onLocals (Slots.write (k + 1) hi) (m₁.withFrames (.active a₃ :: rest)) = _ :=
    run_writeLocal (k := k + 1) (a := a₃) rfl (Nat.lt_of_lt_of_eq hk Array.size_setIfInBounds.symm) hi
  rw [store, if_pos rfl, bind_apply, hpop]
  dsimp only
  rw [bind_apply, hpop']
  dsimp only
  rw [bind_apply, hlow]
  exact hhigh

theorem run_increment (hframes : m.frames = .active a :: rest) (hx : a.locals[k]? = some x) (delta : Int32) :
    increment k delta m =
      .ok () (m.withFrames (.active { a with locals := a.locals.setIfInBounds k (.num (x.int + delta)) } :: rest)) := by
  obtain ⟨hk, -⟩ := Array.getElem?_eq_some_iff.1 hx
  have hint : localInt k m = .ok x.int m := by
    rw [localInt, bind_apply, run_readLocal hframes hx]
    rfl
  rw [increment, bind_apply, hint]
  exact run_writeLocal hframes hk _

theorem run_endSubroutine (hframes : m.frames = .active a :: rest) (hx : a.locals[k]? = some x) :
    endSubroutine k m = .ok () (m.withFrames (.active { a with nextPc := x.int.toInt } :: rest)) := by
  have hint : localInt k m = .ok x.int m := by
    rw [localInt, bind_apply, run_readLocal hframes hx]
    rfl
  rw [endSubroutine, bind_apply, hint]
  exact Interpreter.run_updateActivation hframes _

end Execute

namespace Interpreter

variable {natives : Natives} {s : Services} {m : Machine} {a : Activation} {rest : List Frame}

/-- The instruction of an opcode that accesses a local variable does what the opcode says. -/
theorem execute_accesses {op : Opcode} {k : Nat} {i : Instruction} {operands operands' : List Slot} {locals : Slots}
    {goal : Option Int} (hframes : m.frames = .active a :: rest) (hop : Instruction.ofLocal? op k = some i)
    (h : Accesses k op operands a.locals operands' locals goal) (hstack : a.stack.Carries operands)
    (hroom : operands'.length ≤ a.stack.slots.size) :
    ∃ stack : OperandStack, stack.Carries operands' ∧ stack.slots.size = a.stack.slots.size ∧
      execute natives s i m =
        .ok () (m.withFrames (.active { a with locals, stack, nextPc := goal.getD a.nextPc } :: rest)) := by
  cases h with
  | load narrow hx =>
    have hi : i = .load false k := by
      simp only [List.mem_cons, List.not_mem_nil, or_false] at narrow
      rcases narrow with rfl | rfl | rfl <;> exact (Option.some.inj hop).symm
    subst hi
    rw [List.length_append, List.length_singleton] at hroom
    exact Execute.run_load hframes hstack hroom hx
  | loadWide wide hlo hhi =>
    have hi : i = .load true k := by
      simp only [List.mem_cons, List.not_mem_nil, or_false] at wide
      rcases wide with rfl | rfl <;> exact (Option.some.inj hop).symm
    subst hi
    rw [List.length_append] at hroom
    exact Execute.run_loadWide hframes hstack hroom hlo hhi
  | store narrow hk =>
    have hi : i = .store false k := by
      simp only [List.mem_cons, List.not_mem_nil, or_false] at narrow
      rcases narrow with rfl | rfl | rfl <;> exact (Option.some.inj hop).symm
    subst hi
    exact Execute.run_store hframes hstack hk
  | storeWide wide hk =>
    have hi : i = .store true k := by
      simp only [List.mem_cons, List.not_mem_nil, or_false] at wide
      rcases wide with rfl | rfl <;> exact (Option.some.inj hop).symm
    subst hi
    exact Execute.run_storeWide hframes hstack hk
  | ret hx =>
    cases Option.some.inj hop
    exact ⟨a.stack, hstack, rfl, Execute.run_endSubroutine hframes hx⟩

theorem leaves_accesses {op : Opcode} {k : Nat} {i : Instruction} {data : List UInt8} {operands operands' : List Slot}
    {locals : Slots} {goal : Option Int} (hat : m.ReadsOn a rest data)
    (hreads : ∀ n, CodeReader.Reads Instruction.read n data (.instruction i)) (hop : Instruction.ofLocal? op k = some i)
    (h : Accesses k op operands a.locals operands' locals goal) (hstack : a.stack.Carries operands)
    (hroom : operands'.length ≤ a.stack.slots.size) :
    Leaves natives s m a rest operands' locals (goal.getD (a.nextPc + data.length)) := by
  rw [Leaves, step_of_reads natives s hat hreads]
  exact execute_accesses (m := m.fetched a rest data.length) rfl hop h hstack hroom

/-! ## Numbers -/

theorem run_pushNumber (natives : Natives) (s : Services) (hframes : m.frames = .active a :: rest) {operands : List Slot}
    (hstack : a.stack.Carries operands) (hroom : operands.length < a.stack.slots.size) (v : Int32) :
    ∃ stack : OperandStack, stack.Carries (operands ++ [.num v]) ∧ stack.slots.size = a.stack.slots.size ∧
      M.pushInt v m = .ok () (m.withFrames (.active { a with stack } :: rest)) ∧
      execute natives s (Instruction.pushInt v) m = .ok () (m.withFrames (.active { a with stack } :: rest)) := by
  obtain ⟨stack, habove, hsize, hpush⟩ := M.run_push hframes hstack hroom (.num v)
  have hall : OperandStack.pushAll [.num v] = OperandStack.push (.num v) := by
    funext st
    change EStateM.bind _ _ st = _
    unfold EStateM.bind
    cases OperandStack.push (.num v) st <;> rfl
  refine ⟨stack, habove, hsize, hpush, ?_⟩
  change M.onStack (OperandStack.pushAll [.num v]) m = _
  rw [hall]
  exact hpush

/-- A number of the pool is not resolved to anything else. -/
theorem run_constant (hframes : m.frames = .active a :: rest) {k : Nat} {v : Int32}
    (hk : (m.classAt a.method.owner).plan.pool.getD k .empty = .int v) :
    Execute.constant s k m = M.pushInt v m := by
  have hentry : (m.classAt a.method.owner).pool.getD k .empty = .int v := by
    rw [Class.entry_plan] at hk
    generalize (m.classAt a.method.owner).pool.getD k .empty = e at hk
    cases e <;> first | exact hk | cases hk
  have hholder : Execute.holder m = .ok a.method.owner m := by
    rw [Execute.holder, M.bind_apply, M.activation, hframes]
    rfl
  rw [Execute.constant, M.run_bind hholder, M.run_bind (M.run_entry hentry (by simp))]

theorem leaves_number {data : List UInt8} {operands : List Slot} {v : Int32} (hat : m.ReadsOn a rest data)
    (hreads : ∀ n, CodeReader.Reads Instruction.read n data (.instruction (Instruction.pushInt v)))
    (hstack : a.stack.Carries operands) (hroom : operands.length < a.stack.slots.size) :
    Leaves natives s m a rest (operands ++ [.num v]) a.locals (a.nextPc + data.length) := by
  obtain ⟨stack, habove, hsize, -, hrun⟩ := run_pushNumber natives s (m := m.fetched a rest data.length)
    (a := { a with pc := a.nextPc, nextPc := a.nextPc + data.length }) rfl hstack hroom v
  refine ⟨stack, habove, hsize, ?_⟩
  rw [step_of_reads natives s hat hreads]
  exact hrun

theorem leaves_constant {data : List UInt8} {operands : List Slot} {k : Nat} {v : Int32} (hat : m.ReadsOn a rest data)
    (hreads : ∀ n, CodeReader.Reads Instruction.read n data (.instruction (.constant k)))
    (hk : (m.classAt a.method.owner).plan.pool.getD k .empty = .int v) (hstack : a.stack.Carries operands)
    (hroom : operands.length < a.stack.slots.size) :
    Leaves natives s m a rest (operands ++ [.num v]) a.locals (a.nextPc + data.length) := by
  obtain ⟨stack, habove, hsize, hrun, -⟩ := run_pushNumber natives s (m := m.fetched a rest data.length)
    (a := { a with pc := a.nextPc, nextPc := a.nextPc + data.length }) rfl hstack hroom v
  have hfetched : (m.fetched a rest data.length).classAt a.method.owner = m.classAt a.method.owner := by
    unfold Machine.fetched Machine.ran
    split <;> rfl
  refine ⟨stack, habove, hsize, ?_⟩
  rw [step_of_reads natives s hat hreads]
  change Execute.constant s k _ = _
  rw [run_constant (m := m.fetched a rest data.length) rfl (by rw [hfetched]; exact hk)]
  exact hrun

end Interpreter

/-- The class was made with a pool that begins with the slots of one under construction. -/
def Class.BuiltOn (k : Class) (b : PoolBuilder) : Prop :=
  ∃ owner pool, b.pool.toList <+: pool.toList ∧ PoolEntry.ofPool owner pool = .ok k.plan.pool

theorem Class.BuiltOn.entry {k : Class} {b : PoolBuilder} {n : Nat} {v : Int32} (h : k.BuiltOn b)
    (hn : b.pool[n]? = some (some (.int v))) (hpos : n ≠ 0) : k.plan.pool.getD n .empty = .int v := by
  obtain ⟨owner, pool, ⟨behind, hpool⟩, hentries⟩ := h
  have hlater : pool[n]? = some (some (.int v)) := by
    rw [← Array.getElem?_toList] at hn ⊢
    obtain ⟨hlt, -⟩ := List.getElem?_eq_some_iff.1 hn
    rw [← hpool, List.getElem?_append_left hlt, hn]
  obtain ⟨e, he, hat⟩ := PoolEntry.getElem?_ofPool hentries hlater
  rw [PoolEntry.ofSlot, if_neg hpos] at he
  cases he
  rw [Array.getD_eq_getD_getElem?, hat, Option.getD_some]

namespace CodeBuilder

open Interpreter Instruction

/-! ## The forms -/

theorem ofPlain?_iconst {v : Int32} (h : -1 ≤ v) (h' : v ≤ 5) : ofPlain? (iconst v) = some (Instruction.pushInt v) := by
  have hle : -1 ≤ v.toInt := Int32.le_iff_toInt_le.1 h
  have hge : v.toInt ≤ 5 := Int32.le_iff_toInt_le.1 h'
  have hcases : v = -1 ∨ v = 0 ∨ v = 1 ∨ v = 2 ∨ v = 3 ∨ v = 4 ∨ v = 5 := by
    simp only [← Int32.toInt_inj]
    change v.toInt = -1 ∨ v.toInt = 0 ∨ v.toInt = 1 ∨ v.toInt = 2 ∨ v.toInt = 3 ∨ v.toInt = 4 ∨ v.toInt = 5
    omega
  rcases hcases with rfl | rfl | rfl | rfl | rfl | rfl | rfl <;> rfl

theorem bytes_setMaxLocals (n : Int) (b : CodeBuilder) : (b.setMaxLocals n).bytes = b.bytes := by
  unfold setMaxLocals
  split <;> rfl

/-- The bytes of `ldc`, in either form, are decoded to it. -/
theorem reads_ldc_form (i : UInt16) (b : CodeBuilder) :
    ∃ data : List UInt8, (b.ldc i).bytes = b.bytes ++ data.toArray ∧
      ∀ n, CodeReader.Reads read n data (.instruction (.constant i.toNat)) := by
  unfold ldc
  split
  · next h =>
    have hle : i.toNat ≤ 0xff := UInt16.le_iff_toNat_le.1 h
    refine ⟨_, rfl, fun n => ?_⟩
    have hbyte : i.toUInt8.toNat = i.toNat := by
      rw [UInt16.toNat_toUInt8]
      omega
    rw [← hbyte]
    exact Instruction.reads_ldc n i.toUInt8
  · exact ⟨_, rfl, fun n => reads_ldcWide n i⟩

/-- The bytes of an access to a local variable, in either form, are decoded to it. -/
theorem reads_local_form {op : Opcode} {k : Nat} {i : Instruction} (h : ofLocal? op k = some i) (hk : k ≤ 65535)
    (b : CodeBuilder) :
    ∃ data : List UInt8, (b.emitLocal op k).bytes = b.bytes ++ data.toArray ∧
      ∀ n, CodeReader.Reads read n data (.instruction i) := by
  unfold emitLocal
  dsimp only
  rw [← bytes_setMaxLocals (k + localWidth op) b]
  split
  · exact ⟨_, rfl, fun n => reads_wideLocal h (by omega) n⟩
  · exact ⟨_, rfl, fun n => reads_local h (by omega) n⟩

/-- The bytes of `iinc`, in either form, are decoded to it. -/
theorem reads_iinc_form {k : Nat} (hk : k ≤ 65535) {delta : Int} (h : -32768 ≤ delta) (h' : delta ≤ 32767)
    (b : CodeBuilder) :
    ∃ data : List UInt8, (b.emitIinc k delta).bytes = b.bytes ++ data.toArray ∧
      ∀ n, CodeReader.Reads read n data (.instruction (.increment k (Int32.ofInt delta))) := by
  unfold emitIinc
  dsimp only
  rw [← bytes_setMaxLocals (k + 1) b]
  split
  · refine ⟨_, ?_, fun n => reads_wideIinc (Nat.lt_succ_of_le hk) (by omega) (by omega) n⟩
    change _ ++ _ ++ _ = _
    rw [Array.append_assoc]
    exact congrArg (_ ++ ·) (List.append_toArray ..)
  · exact ⟨_, rfl, fun n => reads_iinc (by omega) (by omega) (by omega) n⟩

/-- Either a number is pushed by an instruction that has it as its operand, or it is a constant of the pool. -/
theorem reads_pushInt_form (v : Int32) (b : CodeBuilder) :
    ∃ (data : List UInt8) (i : Instruction), (b.pushInt v).bytes = b.bytes ++ data.toArray ∧
      (∀ n, CodeReader.Reads read n data (.instruction i)) ∧
      (i = Instruction.pushInt v ∨
        i = .constant (b.pool.add (.int v)).1.toNat ∧ (b.pushInt v).pool = (b.pool.add (.int v)).2) := by
  have hnumber : Int32.ofInt v.toInt = v := Int32.ofInt_toInt v
  unfold CodeBuilder.pushInt
  split
  · next h =>
    exact ⟨_, _, rfl, fun n => reads_plain (ofPlain?_iconst h.1 h.2) n, .inl rfl⟩
  · split
    · next h =>
      have hle : -128 ≤ v.toInt := Int32.le_iff_toInt_le.1 h.1
      have hge : v.toInt ≤ 127 := Int32.le_iff_toInt_le.1 h.2
      exact ⟨_, _, rfl, fun n => reads_bipush n (by omega) (by omega), .inl (congrArg _ hnumber)⟩
    · split
      · next h =>
        have hle : -32768 ≤ v.toInt := Int32.le_iff_toInt_le.1 h.1
        have hge : v.toInt ≤ 32767 := Int32.le_iff_toInt_le.1 h.2
        exact ⟨_, _, rfl, fun n => reads_sipush n (by omega) (by omega), .inl (congrArg _ hnumber)⟩
      · obtain ⟨data, hbytes, hreads⟩ := reads_ldc_form (b.pool.add (.int v)).1 { b with pool := (b.pool.add (.int v)).2 }
        exact ⟨data, _, hbytes, hreads, .inr ⟨rfl, pool_ldc _ _⟩⟩

theorem size_add_le {b : PoolBuilder} {c : Constant} (h : c.isWide = false) :
    (b.add c).2.pool.size ≤ b.pool.size + 1 := by
  cases hlookup : b.index.lookup c.key with
  | some i =>
    rw [PoolBuilder.add_of_lookup hlookup]
    exact Nat.le_succ _
  | none =>
    obtain ⟨-, hpool, -⟩ := PoolBuilder.add_of_new hlookup
    rw [← Array.length_toList, hpool, List.length_append, Array.length_toList, PoolBuilder.slotsOf, h]
    exact Nat.le_refl _

/-- The choice of a form never changes what an instruction means. What `pushInt` appends pushes just the number, if the
pool has room for one more constant and the class was made with it. What `emitLocal` appends is executed as the access
that the opcode says, and what `emitIinc` appends adds to the local variable, wrapping at 32 bits, and changes nothing
else. -/
theorem forms_keep_meaning (natives : Natives) (s : Services) (b : CodeBuilder) :
    (∀ v : Int32, b.pool.pool[0]? = some none → b.pool.pool.size < 65535 →
      ∃ data : List UInt8, (b.pushInt v).bytes = b.bytes ++ data.toArray ∧
        ∀ m a rest operands, m.ReadsOn a rest data → (m.classAt a.method.owner).BuiltOn (b.pushInt v).pool →
          a.stack.Carries operands → operands.length < a.stack.slots.size →
          Leaves natives s m a rest (operands ++ [.num v]) a.locals (a.nextPc + data.length)) ∧
    (∀ (op : Opcode) (k : Nat) (i : Instruction), ofLocal? op k = some i → k ≤ 65535 →
      ∃ data : List UInt8, (b.emitLocal op k).bytes = b.bytes ++ data.toArray ∧
        ∀ m a rest, m.ReadsOn a rest data →
          step natives s m = execute natives s i (m.fetched a rest data.length) ∧
          ∀ operands operands' locals goal, Accesses k op operands a.locals operands' locals goal →
            a.stack.Carries operands → operands'.length ≤ a.stack.slots.size →
            Leaves natives s m a rest operands' locals (goal.getD (a.nextPc + data.length))) ∧
    ∀ (k : Nat) (delta : Int), k ≤ 65535 → -32768 ≤ delta → delta ≤ 32767 →
      ∃ data : List UInt8, (b.emitIinc k delta).bytes = b.bytes ++ data.toArray ∧
        ∀ m a rest, m.ReadsOn a rest data →
          step natives s m = execute natives s (.increment k (Int32.ofInt delta)) (m.fetched a rest data.length) ∧
          ∀ x, a.locals[k]? = some x →
            step natives s m = .ok () ((m.ran a.method).withFrames (.active { a with
              locals := a.locals.setIfInBounds k (.num (x.int + Int32.ofInt delta))
              pc := a.nextPc, nextPc := a.nextPc + data.length } :: rest)) := by
  refine ⟨fun v hzero hroom => ?_, fun op k i hop hk => ?_, fun k delta hk hlow hhigh => ?_⟩
  · obtain ⟨data, i, hbytes, hreads, hi⟩ := reads_pushInt_form v b
    refine ⟨data, hbytes, fun m a rest operands hat hbuilt hstack hfree => ?_⟩
    obtain rfl | ⟨rfl, hpool⟩ := hi
    · exact leaves_number hat hreads hstack hfree
    · have hsize : (b.pool.add (.int v)).2.pool.size ≤ 65535 := Nat.le_trans (size_add_le rfl) hroom
      have hindex : (b.pool.add (.int v)).1.toNat ≠ 0 := fun h =>
        PoolBuilder.index_add_ne_zero hzero hsize (UInt16.toNat_inj.1 h)
      rw [hpool] at hbuilt
      exact leaves_constant hat hreads (hbuilt.entry (PoolBuilder.getElem?_add hsize) hindex) hstack hfree
  · obtain ⟨data, hbytes, hreads⟩ := reads_local_form hop hk b
    refine ⟨data, hbytes, fun m a rest hat => ⟨step_of_reads natives s hat hreads, ?_⟩⟩
    intro operands operands' locals goal haccess hstack hfree
    exact leaves_accesses hat hreads hop haccess hstack hfree
  · obtain ⟨data, hbytes, hreads⟩ := reads_iinc_form hk hlow hhigh b
    refine ⟨data, hbytes, fun m a rest hat => ⟨step_of_reads natives s hat hreads, fun x hx => ?_⟩⟩
    rw [step_of_reads natives s hat hreads]
    exact Execute.run_increment (m := m.fetched a rest data.length)
      (a := { a with pc := a.nextPc, nextPc := a.nextPc + data.length }) rfl hx _

end CodeBuilder

namespace Samples

/-- An activation that is about to execute code with 257 local variables and room for two operands. -/
def poised (code : List UInt8) : Activation :=
  { between code.toArray (-1) 0 with locals := Slots.ofSize 257, stack := .ofCapacity 2 }

/-- A machine that runs it, with a class that has a number in its pool. -/
def numbered (code : List UInt8) : Machine :=
  { running (poised code) with classes := #[{ name := "A", flags := ⟨0⟩, pool := #[.empty, .int 65536] }] }

theorem readsOn_numbered (code : List UInt8) (h : code.length < 2 ^ 63) : (numbered code).ReadsOn (poised code) [] code where
  frames := rfl
  code := ⟨[], [], by rw [List.append_nil]; rfl, rfl⟩
  size := h

theorem builtOn_numbered (code : List UInt8) :
    ((numbered code).classAt (poised code).method.owner).BuiltOn (({} : CodeBuilder).pushInt 65536).pool := by
  have hadded : (({} : CodeBuilder).pushInt 65536).pool.pool = #[none, some (.int 65536)] := by decide +kernel
  have hplan : ((numbered code).classAt (poised code).method.owner).plan.pool = #[.empty, .int 65536] := by
    change Array.map PoolEntry.unresolved #[.empty, .int 65536] = _
    simp [PoolEntry.unresolved]
  refine ⟨"A", #[none, some (.int 65536)], hadded ▸ List.prefix_refl _, ?_⟩
  rw [PoolEntry.ofPool_eq, hplan]
  rfl

end Samples

namespace CodeBuilder

open Interpreter Samples

set_option maxRecDepth 4000 in
/-- A number that is too large for an operand, a local variable that needs a word, and a summand that needs one. -/
theorem forms_keep_meaning_boundaries :
    (({} : CodeBuilder).pushInt 65536).bytes = #[0x12, 1] ∧
      Leaves {} .silent (numbered [0x12, 1]) (poised [0x12, 1]) [] [.num 65536] (Slots.ofSize 257) 2 ∧
      (({} : CodeBuilder).emitLocal .iload 256).bytes = #[0xc4, 0x15, 1, 0] ∧
      Leaves {} .silent (numbered [0xc4, 0x15, 1, 0]) (poised [0xc4, 0x15, 1, 0]) [] [.null] (Slots.ofSize 257) 4 ∧
      (({} : CodeBuilder).emitIinc 255 (-129)).bytes = #[0xc4, 0x84, 0, 255, 0xff, 0x7f] ∧
      step {} .silent (numbered [0xc4, 0x84, 0, 255, 0xff, 0x7f]) =
        .ok () ((numbered [0xc4, 0x84, 0, 255, 0xff, 0x7f]).withFrames (.active { poised [0xc4, 0x84, 0, 255, 0xff, 0x7f] with
          locals := (Slots.ofSize 257).setIfInBounds 255 (.num (-129)), pc := 0, nextPc := 6 } :: [])) := by
  obtain ⟨hnumbers, hlocals, hsums⟩ := forms_keep_meaning {} .silent {}
  have hbytes : (({} : CodeBuilder).pushInt 65536).bytes = #[0x12, 1] := by decide +kernel
  have hwide : (({} : CodeBuilder).emitLocal .iload 256).bytes = #[0xc4, 0x15, 1, 0] := rfl
  have hsum : (({} : CodeBuilder).emitIinc 255 (-129)).bytes = #[0xc4, 0x84, 0, 255, 0xff, 0x7f] := rfl
  have hzero : (Slots.ofSize 257)[256]? = some .null := by simp [Slots.ofSize]
  have hempty : (OperandStack.ofCapacity 2).Carries [] := ⟨Nat.zero_le _, rfl⟩
  refine ⟨hbytes, ?_, hwide, ?_, hsum, ?_⟩
  · obtain ⟨data, hdata, h⟩ := hnumbers 65536 rfl (by decide)
    obtain rfl : [0x12, 1] = data := by simpa using congrArg Array.toList (hbytes.symm.trans hdata)
    exact h _ _ _ [] (readsOn_numbered _ (by decide)) (builtOn_numbered _) hempty (by decide)
  · obtain ⟨data, hdata, h⟩ := hlocals .iload 256 _ rfl (by decide)
    obtain rfl : [0xc4, 0x15, 1, 0] = data := by simpa using congrArg Array.toList (hwide.symm.trans hdata)
    exact (h _ _ _ (readsOn_numbered _ (by decide))).2 [] _ _ _ (.load (by decide) hzero) hempty (by decide)
  · obtain ⟨data, hdata, h⟩ := hsums 255 (-129) (by decide) (by decide) (by decide)
    obtain rfl : [0xc4, 0x84, 0, 255, 0xff, 0x7f] = data := by simpa using congrArg Array.toList (hsum.symm.trans hdata)
    exact (h _ _ _ (readsOn_numbered _ (by decide))).2 .null (by simp [poised, Slots.ofSize])

end CodeBuilder

end JavaMachine
