import JavaMachine.Proofs.Arithmetic.Words
import JavaMachine.Proofs.Assembler.Forms

/-!
Instructions on integers. Whatever integers the operands are, a step pops them and pushes what the integers give, reduced
to the width of the result; longs are taken from two slots and returned to two, the low half first. Only a division by
zero throws. Main results: `computes_evaluates`, `integers_computed_exactly`.
-/

namespace JavaMachine

open M

namespace Word

/-- The opcode of an operation that there is for ints and for longs. -/
def pick : Word → Opcode → Opcode → Opcode
  | .int, ofInts, _ => ofInts
  | .long, _, ofLongs => ofLongs

/-- Slots hold integers one after another, the last on top. -/
inductive HoldAll : List (Word × Int) → List Slot → Prop
  | nil : HoldAll [] []
  | cons {w : Word} {n : Int} {xs ys : List Slot} {args : List (Word × Int)} :
      Holds w xs n → HoldAll args ys → HoldAll ((w, n) :: args) (xs ++ ys)

/-- What an opcode makes of integers, in the integers: the kind of the result and its number. A quotient is truncated
toward zero, a distance is taken modulo the width, and a shift to the right rounds down; bits are those of two's
complement. -/
inductive Computes : Opcode → List (Word × Int) → Word → Int → Prop
  | add (w : Word) (a b : Int) : Computes (w.pick .iadd .ladd) [(w, a), (w, b)] w (a + b)
  | sub (w : Word) (a b : Int) : Computes (w.pick .isub .lsub) [(w, a), (w, b)] w (a - b)
  | mul (w : Word) (a b : Int) : Computes (w.pick .imul .lmul) [(w, a), (w, b)] w (a * b)
  | div (w : Word) (a : Int) {b : Int} (hb : b ≠ 0) : Computes (w.pick .idiv .ldiv) [(w, a), (w, b)] w (a.tdiv b)
  | rem (w : Word) (a : Int) {b : Int} (hb : b ≠ 0) : Computes (w.pick .irem .lrem) [(w, a), (w, b)] w (a.tmod b)
  | and (w : Word) (a b : Int) : Computes (w.pick .iand .land) [(w, a), (w, b)] w (a.land b)
  | or (w : Word) (a b : Int) : Computes (w.pick .ior .lor) [(w, a), (w, b)] w (a.lor b)
  | xor (w : Word) (a b : Int) : Computes (w.pick .ixor .lxor) [(w, a), (w, b)] w (a.xor b)
  | neg (w : Word) (a : Int) : Computes (w.pick .ineg .lneg) [(w, a)] w (-a)
  | shl (w : Word) (a d : Int) :
      Computes (w.pick .ishl .lshl) [(w, a), (.int, d)] w (a * 2 ^ (d % w.bits).toNat)
  | shr (w : Word) (a d : Int) :
      Computes (w.pick .ishr .lshr) [(w, a), (.int, d)] w (a / 2 ^ (d % w.bits).toNat)
  | ushr (w : Word) (a d : Int) :
      Computes (w.pick .iushr .lushr) [(w, a), (.int, d)] w (a % 2 ^ w.bits / 2 ^ (d % w.bits).toNat)
  | widen (a : Int) : Computes .i2l [(.int, a)] .long a
  | narrow (a : Int) : Computes .l2i [(.long, a)] .int a
  | byte (a : Int) : Computes .i2b [(.int, a)] .int (a.bmod (2 ^ 8))
  | char (a : Int) : Computes .i2c [(.int, a)] .int (a % 2 ^ 16)
  | short (a : Int) : Computes .i2s [(.int, a)] .int (a.bmod (2 ^ 16))
  | compare (a b : Int) : Computes .lcmp [(.long, a), (.long, b)] .int (a - b).sign

/-! ## Operands -/

theorem HoldAll.single {w : Word} {n : Int} {operands : List Slot} (h : HoldAll [(w, n)] operands) :
    Holds w operands n := by
  cases h with
  | cons hx hrest =>
    cases hrest
    rwa [List.append_nil]

theorem HoldAll.pair {w v : Word} {a b : Int} {operands : List Slot} (h : HoldAll [(w, a), (v, b)] operands) :
    ∃ xs ys, operands = xs ++ ys ∧ Holds w xs a ∧ Holds v ys b := by
  cases h with
  | cons hx hrest => exact ⟨_, _, rfl, hx, hrest.single⟩

end Word

namespace M

open Word

variable {m : Machine} {a : Activation} {rest : List Frame} {below : List Slot} {x lo hi : Slot}

/-- An action takes operands off the innermost stack and goes on as another, and changes nothing else. -/
def Takes (act next : M Unit) (m : Machine) (a : Activation) (rest : List Frame) (below : List Slot) : Prop :=
  ∃ stack : OperandStack, stack.Carries below ∧ stack.slots.size = a.stack.slots.size ∧
    act m = next (m.withFrames (.active { a with stack } :: rest))

theorem Takes.trans {act next last : M Unit} {below' : List Slot} (h : Takes act next m a rest below)
    (hnext : ∀ (m' : Machine) (a' : Activation), m'.frames = .active a' :: rest → a'.stack.Carries below →
      Takes next last m' a' rest below') : Takes act last m a rest below' := by
  obtain ⟨stack, hcarries, hsize, hact⟩ := h
  obtain ⟨stack', hcarries', hsize', hact'⟩ :=
    hnext (m.withFrames (.active { a with stack } :: rest)) { a with stack } rfl hcarries
  exact ⟨stack', hcarries', hsize'.trans hsize, hact.trans hact'⟩

theorem Takes.delivers {act next : M Unit} {operands : List Slot} (h : Takes act next m a rest below)
    (hnext : ∀ (m' : Machine) (a' : Activation), m'.frames = .active a' :: rest → a'.stack.Carries below →
      a'.stack.slots.size = a.stack.slots.size → Delivers next m' a' rest operands) :
    Delivers act m a rest operands := by
  obtain ⟨stack, hcarries, hsize, hact⟩ := h
  obtain ⟨stack', hcarries', hsize', hact'⟩ :=
    hnext (m.withFrames (.active { a with stack } :: rest)) { a with stack } rfl hcarries hsize
  exact ⟨stack', hcarries', hsize'.trans hsize, hact.trans hact'⟩

theorem takes_popInt (hframes : m.frames = .active a :: rest) (h : a.stack.Carries (below ++ [x]))
    (next : Int32 → M Unit) : Takes (popInt >>= next) (next x.int) m a rest below := by
  obtain ⟨stack, hpop, hbelow, hsize⟩ := h.pop
  have hint : OperandStack.popInt a.stack = .ok x.int stack := by
    change EStateM.bind OperandStack.pop _ a.stack = _
    rw [EStateM.bind, hpop]
    rfl
  have hrun : popInt m = .ok x.int (m.withFrames (.active { a with stack } :: rest)) := by
    rw [popInt, onStack, hframes]
    simp only [Frame.stack, hint]
    rfl
  exact ⟨stack, hbelow, hsize, run_bind hrun next⟩

theorem takes_popLong (hframes : m.frames = .active a :: rest) (h : a.stack.Carries (below ++ [lo, hi]))
    (next : Int64 → M Unit) : Takes (popLong >>= next) (next (Slot.joinLong lo hi)) m a rest below := by
  rw [List.append_cons] at h
  obtain ⟨stack, hpop, hbelow, hsize⟩ := h.pop
  obtain ⟨stack', hpop', hbelow', hsize'⟩ := hbelow.pop
  have hlong : OperandStack.popLong a.stack = .ok (Slot.joinLong lo hi) stack' := by
    change EStateM.bind OperandStack.pop _ a.stack = _
    rw [EStateM.bind, hpop]
    change EStateM.bind OperandStack.pop _ stack = _
    rw [EStateM.bind, hpop']
    rfl
  have hrun : popLong m = .ok (Slot.joinLong lo hi) (m.withFrames (.active { a with stack := stack' } :: rest)) := by
    rw [popLong, onStack, hframes]
    simp only [Frame.stack, hlong]
    rfl
  exact ⟨stack', hbelow', hsize'.trans hsize, run_bind hrun next⟩

theorem takes_popInts {y : Slot} (hframes : m.frames = .active a :: rest) (h : a.stack.Carries (below ++ [x, y]))
    (next : Int32 → Int32 → M Unit) :
    Takes (do let b ← popInt; let a ← popInt; next a b) (next x.int y.int) m a rest below := by
  rw [List.append_cons] at h
  exact (takes_popInt hframes h _).trans fun m' a' hframes' h' => takes_popInt hframes' h' _

theorem takes_popLongs {lo' hi' : Slot} (hframes : m.frames = .active a :: rest)
    (h : a.stack.Carries (below ++ ([lo, hi] ++ [lo', hi']))) (next : Int64 → Int64 → M Unit) :
    Takes (do let b ← popLong; let a ← popLong; next a b) (next (Slot.joinLong lo hi) (Slot.joinLong lo' hi')) m a rest
      below := by
  rw [← List.append_assoc] at h
  exact (takes_popLong hframes h _).trans fun m' a' hframes' h' => takes_popLong hframes' h' _

theorem takes_popShifted (hframes : m.frames = .active a :: rest) (h : a.stack.Carries (below ++ ([lo, hi] ++ [x])))
    (next : Int64 → Int32 → M Unit) :
    Takes (do let d ← popInt; let a ← popLong; next a d) (next (Slot.joinLong lo hi) x.int) m a rest below := by
  rw [← List.append_assoc] at h
  exact (takes_popInt hframes h _).trans fun m' a' hframes' h' => takes_popLong hframes' h' _

/-! ## Results -/

/-- An action pushes an integer, reduced to its width, where there is room for it. -/
def Yields (act : M Unit) (w : Word) (n : Int) : Prop :=
  ∀ (m : Machine) (a : Activation) (rest : List Frame) (below : List Slot), m.frames = .active a :: rest →
    a.stack.Carries below → (below ++ w.slots n).length ≤ a.stack.slots.size →
    Delivers act m a rest (below ++ w.slots n)

theorem yields_pushInt {v : Int32} {n : Int} (h : v = Int32.ofInt n) : Yields (pushInt v) .int n := by
  intro m a rest below hframes hstack hroom
  rw [Word.slots, List.length_append, List.length_singleton] at hroom
  subst h
  exact delivers_pushInt hframes hstack hroom _

theorem yields_pushLong {v : Int64} {n : Int} (h : v = Int64.ofInt n) : Yields (pushLong v) .long n := by
  intro m a rest below hframes hstack hroom
  subst h
  rw [slots_long] at hroom ⊢
  rw [List.length_append] at hroom
  exact delivers_pushLong hframes hstack hroom _

end M

namespace Interpreter

open Word Execute BigEndian

/-- An instruction takes operands with some integers and pushes an integer, reduced to its width. -/
def Evaluates (i : Instruction) (args : List (Word × Int)) (w : Word) (n : Int) : Prop :=
  ∀ (natives : Natives) (s : Services) (operands : List Slot), HoldAll args operands →
    ∃ act : M Unit, Yields act w n ∧
      ∀ (m : Machine) (a : Activation) (rest : List Frame) (below : List Slot), m.frames = .active a :: rest →
        a.stack.Carries (below ++ operands) → Takes (execute natives s i) act m a rest below

/-- Operations on two integers. -/
def operation : Word → IntegerOp → Instruction
  | .int => .int
  | .long => .long

/-- Shifts of an integer. -/
def shift : Word → ShiftOp → Instruction
  | .int => .shiftInt
  | .long => .shiftLong

/-- The change of the sign of an integer. -/
def negation : Word → Instruction
  | .int => .negate .int
  | .long => .negate .long

/-- An operation on integers takes both operands, and then there is its result or a division by zero. -/
theorem takes_intOperation (natives : Natives) (s : Services) (op : IntegerOp) {m : Machine} {a : Activation}
    {rest : List Frame} {below : List Slot} {x y : Slot} (hframes : m.frames = .active a :: rest)
    (h : a.stack.Carries (below ++ [x, y])) :
    Takes (execute natives s (.int op)) ((intResult op x.int y.int).elim (divisionByZero s) pushInt) m a rest below := by
  have htakes : Takes (execute natives s (.int op)) _ m a rest below := takes_popInts hframes h _
  cases hr : intResult op x.int y.int with
  | none =>
    rw [hr] at htakes
    exact htakes
  | some r =>
    rw [hr] at htakes
    exact htakes

theorem takes_longOperation (natives : Natives) (s : Services) (op : IntegerOp) {m : Machine} {a : Activation}
    {rest : List Frame} {below : List Slot} {lo hi lo' hi' : Slot} (hframes : m.frames = .active a :: rest)
    (h : a.stack.Carries (below ++ ([lo, hi] ++ [lo', hi']))) :
    Takes (execute natives s (.long op))
      ((longResult op (Slot.joinLong lo hi) (Slot.joinLong lo' hi')).elim (divisionByZero s) pushLong) m a rest
      below := by
  have htakes : Takes (execute natives s (.long op)) _ m a rest below := takes_popLongs hframes h _
  cases hr : longResult op (Slot.joinLong lo hi) (Slot.joinLong lo' hi') with
  | none =>
    rw [hr] at htakes
    exact htakes
  | some r =>
    rw [hr] at htakes
    exact htakes

theorem evaluates_operation (w : Word) (op : IntegerOp) {a b : Int} (h : op.divides → b ≠ 0) :
    Evaluates (operation w op) [(w, a), (w, b)] w (op.exact a b) := by
  intro natives s operands hall
  obtain ⟨xs, ys, rfl, hx, hy⟩ := hall.pair
  cases hx with
  | int x =>
    cases hy with
    | int y =>
      have hb : op.divides → y.int ≠ 0 := fun hop h0 => h hop (by rw [h0]; rfl)
      refine ⟨_, yields_pushInt rfl, fun m a rest below hframes hstack => ?_⟩
      have htakes := takes_intOperation natives s op hframes hstack
      rw [intResult_eq hb] at htakes
      exact htakes
  | long lo hi =>
    cases hy with
    | long lo' hi' =>
      have hb : op.divides → Slot.joinLong lo' hi' ≠ 0 := fun hop h0 => h hop (by rw [← toInt_joinLong, h0]; rfl)
      refine ⟨_, yields_pushLong (by rw [← toInt_joinLong, ← toInt_joinLong]), fun m a rest below hframes hstack => ?_⟩
      have htakes := takes_longOperation natives s op hframes hstack
      rw [longResult_eq hb] at htakes
      exact htakes

theorem evaluates_shift (w : Word) (op : ShiftOp) (a d : Int) :
    Evaluates (shift w op) [(w, a), (.int, d)] w (op.exact w.bits a d) := by
  intro natives s operands hall
  obtain ⟨xs, ys, rfl, hx, hy⟩ := hall.pair
  cases hy with
  | int y =>
    cases hx with
    | int x =>
      exact ⟨_, yields_pushInt (shiftInt_eq op _ _), fun m a rest below hframes hstack =>
        takes_popInts hframes hstack fun v d => pushInt (shiftInt op v d)⟩
    | long lo hi =>
      rw [← toInt_joinLong]
      exact ⟨_, yields_pushLong (shiftLong_eq op _ _), fun m a rest below hframes hstack =>
        takes_popShifted hframes hstack fun v d => pushLong (shiftLong op v d)⟩

theorem evaluates_negate (w : Word) (a : Int) : Evaluates (negation w) [(w, a)] w (-a) := by
  intro natives s operands hall
  cases hall.single with
  | int x =>
    exact ⟨_, yields_pushInt (negInt_eq _), fun m a rest below hframes hstack => takes_popInt hframes hstack _⟩
  | long lo hi =>
    rw [← toInt_joinLong]
    exact ⟨_, yields_pushLong (negLong_eq _), fun m a rest below hframes hstack => takes_popLong hframes hstack _⟩

theorem evaluates_widen (a : Int) : Evaluates (.convert .i2l) [(.int, a)] .long a := by
  intro natives s operands hall
  cases hall.single with
  | int x =>
    exact ⟨_, yields_pushLong (widened_eq _), fun m a rest below hframes hstack => takes_popInt hframes hstack _⟩

theorem evaluates_narrow (a : Int) : Evaluates (.convert .l2i) [(.long, a)] .int a := by
  intro natives s operands hall
  cases hall.single with
  | long lo hi =>
    rw [← toInt_joinLong]
    exact ⟨_, yields_pushInt (narrowed_eq _), fun m a rest below hframes hstack => takes_popLong hframes hstack _⟩

/-- Narrowings of an int, by what each of them gives. -/
theorem evaluates_within {c : Conversion} {f : Int → Int} {g : Int32 → Int32}
    (hc : ∀ natives s, execute natives s (.convert c) = do pushInt (g (← popInt)))
    (hg : ∀ v, g v = Int32.ofInt (f v.toInt)) (a : Int) : Evaluates (.convert c) [(.int, a)] .int (f a) := by
  intro natives s operands hall
  cases hall.single with
  | int x =>
    rw [hc]
    exact ⟨_, yields_pushInt (hg _), fun m a rest below hframes hstack => takes_popInt hframes hstack _⟩

theorem evaluates_compare (a b : Int) : Evaluates .compareLongs [(.long, a), (.long, b)] .int (a - b).sign := by
  intro natives s operands hall
  obtain ⟨xs, ys, rfl, hx, hy⟩ := hall.pair
  cases hx with
  | long lo hi =>
    cases hy with
    | long lo' hi' =>
      rw [← toInt_joinLong, ← toInt_joinLong]
      exact ⟨_, yields_pushInt (compareLongs_eq _ _), fun m a rest below hframes hstack =>
        takes_popLongs hframes hstack fun v w => pushInt (compareLongs v w)⟩

/-- The instruction of an opcode gives what the opcode makes of integers. -/
theorem computes_evaluates {op : Opcode} {args : List (Word × Int)} {w : Word} {n : Int} (h : Computes op args w n) :
    ∃ i, Instruction.ofPlain? op = some i ∧ Evaluates i args w n := by
  cases h with
  | add w a b => exact ⟨operation w .add, by cases w <;> rfl, evaluates_operation w .add nofun⟩
  | sub w a b => exact ⟨operation w .sub, by cases w <;> rfl, evaluates_operation w .sub nofun⟩
  | mul w a b => exact ⟨operation w .mul, by cases w <;> rfl, evaluates_operation w .mul nofun⟩
  | div w a hb => exact ⟨operation w .div, by cases w <;> rfl, evaluates_operation w .div fun _ => hb⟩
  | rem w a hb => exact ⟨operation w .rem, by cases w <;> rfl, evaluates_operation w .rem fun _ => hb⟩
  | and w a b => exact ⟨operation w .and, by cases w <;> rfl, evaluates_operation w .and nofun⟩
  | or w a b => exact ⟨operation w .or, by cases w <;> rfl, evaluates_operation w .or nofun⟩
  | xor w a b => exact ⟨operation w .xor, by cases w <;> rfl, evaluates_operation w .xor nofun⟩
  | neg w a => exact ⟨negation w, by cases w <;> rfl, evaluates_negate w a⟩
  | shl w a d => exact ⟨shift w .shl, by cases w <;> rfl, evaluates_shift w .shl a d⟩
  | shr w a d => exact ⟨shift w .shr, by cases w <;> rfl, evaluates_shift w .shr a d⟩
  | ushr w a d => exact ⟨shift w .ushr, by cases w <;> rfl, evaluates_shift w .ushr a d⟩
  | widen => exact ⟨_, rfl, evaluates_widen _⟩
  | narrow => exact ⟨_, rfl, evaluates_narrow _⟩
  | byte a => exact ⟨_, rfl, evaluates_within (f := fun n => n.bmod (2 ^ 8)) (fun _ _ => rfl) byte_eq a⟩
  | char a => exact ⟨_, rfl, evaluates_within (f := fun n => n % 2 ^ 16) (fun _ _ => rfl) char_eq a⟩
  | short a => exact ⟨_, rfl, evaluates_within (f := fun n => n.bmod (2 ^ 16)) (fun _ _ => rfl) short_eq a⟩
  | compare a b => exact ⟨_, rfl, evaluates_compare a b⟩

/-! ## Division by zero -/

/-- A divisor of zero is found when both operands are taken, and there is no result. -/
theorem takes_division {w : Word} {op : IntegerOp} (hop : op.divides) {a : Int} {operands : List Slot}
    (hall : HoldAll [(w, a), (w, 0)] operands) (natives : Natives) (s : Services) {m : Machine} {act : Activation}
    {rest : List Frame} {below : List Slot} (hframes : m.frames = .active act :: rest)
    (hstack : act.stack.Carries (below ++ operands)) :
    Takes (execute natives s (operation w op)) (Throwing.throwNew s Throwables.arithmetic "/ by zero") m act rest
      below := by
  obtain ⟨xs, ys, rfl, hx, hy⟩ := hall.pair
  generalize hb : (0 : Int) = b at hy
  cases hx with
  | int x =>
    cases hy with
    | int y =>
      have hzero : y.int = 0 := Int32.toInt_inj.1 hb.symm
      have htakes := takes_intOperation natives s op hframes hstack
      have hnone : intResult op x.int y.int = none := by
        cases op <;> first | exact hop.elim | exact if_pos hzero
      rw [hnone] at htakes
      exact htakes
  | long lo hi =>
    cases hy with
    | long lo' hi' =>
      have hzero : Slot.joinLong lo' hi' = 0 := Int64.toInt_inj.1 ((toInt_joinLong lo' hi').trans hb.symm)
      have htakes := takes_longOperation natives s op hframes hstack
      have hnone : longResult op (Slot.joinLong lo hi) (Slot.joinLong lo' hi') = none := by
        cases op <;> first | exact hop.elim | exact if_pos hzero
      rw [hnone] at htakes
      exact htakes

/-! ## Steps -/

theorem leaves_computed {natives : Natives} {s : Services} {op : Opcode} {args : List (Word × Int)} {w : Word} {n : Int}
    (h : Computes op args w n) {m : Machine} {a : Activation} {rest : List Frame} {below operands : List Slot}
    (hat : m.ReadsOn a rest [op.toByte]) (hall : HoldAll args operands) (hstack : a.stack.Carries (below ++ operands))
    (hroom : (below ++ w.slots n).length ≤ a.stack.slots.size) :
    Leaves natives s m a rest (below ++ w.slots n) a.locals (a.nextPc + 1) := by
  obtain ⟨i, hplain, hi⟩ := computes_evaluates h
  obtain ⟨act, hyields, htakes⟩ := hi natives s operands hall
  have hdelivers := (htakes (m.fetched a rest 1) _ rest below rfl hstack).delivers
    fun m' a' hframes' hstack' hsize' => hyields m' a' rest below hframes' hstack' (hsize' ▸ hroom)
  rw [Leaves, step_of_reads natives s hat (Instruction.reads_plain hplain)]
  exact hdelivers

theorem step_by_zero (natives : Natives) (s : Services) {w : Word} {op : Opcode}
    (hop : op ∈ [w.pick .idiv .ldiv, w.pick .irem .lrem]) {n : Int} {m : Machine} {a : Activation} {rest : List Frame}
    {below operands : List Slot} (hat : m.ReadsOn a rest [op.toByte]) (hall : HoldAll [(w, n), (w, 0)] operands)
    (hstack : a.stack.Carries (below ++ operands)) :
    ∃ stack : OperandStack, stack.Carries below ∧ stack.slots.size = a.stack.slots.size ∧
      step natives s m = Throwing.throwNew s Throwables.arithmetic "/ by zero" ((m.ran a.method).withFrames
        (.active { a with stack, pc := a.nextPc, nextPc := a.nextPc + 1 } :: rest)) := by
  obtain ⟨o, ho, hplain⟩ : ∃ o : IntegerOp, o.divides ∧ Instruction.ofPlain? op = some (operation w o) := by
    simp only [List.mem_cons, List.not_mem_nil, or_false] at hop
    rcases hop with rfl | rfl
    · exact ⟨.div, trivial, by cases w <;> rfl⟩
    · exact ⟨.rem, trivial, by cases w <;> rfl⟩
  rw [step_of_reads natives s hat (Instruction.reads_plain hplain)]
  exact takes_division ho hall natives s (m := m.fetched a rest 1) rfl hstack

/-- The bytes of `iinc` for a local variable and what is added to it. -/
inductive Increments (k : Nat) (delta : Int) : List UInt8 → Prop
  | short (hk : k < 2 ^ 8) (hlow : -2 ^ 7 ≤ delta) (hhigh : delta < 2 ^ 7) :
      Increments k delta [Opcode.iinc.toByte, low8 k, low8 delta]
  | wide (hk : k < 2 ^ 16) (hlow : -2 ^ 15 ≤ delta) (hhigh : delta < 2 ^ 15) :
      Increments k delta
        (Opcode.wide.toByte :: Opcode.iinc.toByte :: (bytes16 (low16 k) ++ bytes16 (low16 delta)))

theorem step_increment (natives : Natives) (s : Services) {k : Nat} {delta : Int} {data : List UInt8} {m : Machine}
    {a : Activation} {rest : List Frame} {x : Slot} (hdata : Increments k delta data) (hat : m.ReadsOn a rest data)
    (hx : a.locals[k]? = some x) :
    step natives s m = .ok () ((m.ran a.method).withFrames (.active { a with
      locals := a.locals.setIfInBounds k (.num (Int32.ofInt (x.int.toInt + delta)))
      pc := a.nextPc, nextPc := a.nextPc + data.length } :: rest)) := by
  have hreads : ∀ n, CodeReader.Reads Instruction.read n data (.instruction (.increment k (Int32.ofInt delta))) := by
    intro n
    cases hdata with
    | short hk hlow hhigh => exact Instruction.reads_iinc hk hlow hhigh n
    | wide hk hlow hhigh => exact Instruction.reads_wideIinc hk hlow hhigh n
  rw [step_of_reads natives s hat hreads, Int32.ofInt_add, Int32.ofInt_toInt]
  exact run_increment (m := m.fetched a rest data.length)
    (a := { a with pc := a.nextPc, nextPc := a.nextPc + data.length }) rfl hx (Int32.ofInt delta)

/-- Instructions on integers give exactly what the integers give, reduced to the width of the result, whatever the
operands are. Only a divisor of zero throws, when the operands are taken; with any other, quotient and remainder make up
the dividend again, and the remainder is smaller than the divisor and has the sign of the dividend. -/
theorem integers_computed_exactly (natives : Natives) (s : Services) :
    (∀ op args w n, Computes op args w n → ∀ m a rest below operands, m.ReadsOn a rest [op.toByte] →
      HoldAll args operands → a.stack.Carries (below ++ operands) →
      (below ++ w.slots n).length ≤ a.stack.slots.size →
      Leaves natives s m a rest (below ++ w.slots n) a.locals (a.nextPc + 1)) ∧
    (∀ w n, Holds w (w.slots n) (n.bmod (2 ^ w.bits))) ∧
    (∀ (w : Word) xs ys a b, Holds w xs a → Holds w ys b → b ≠ 0 →
      ((a.tdiv b).bmod (2 ^ w.bits) * b + (a.tmod b).bmod (2 ^ w.bits)).bmod (2 ^ w.bits) = a ∧
      ((a.tmod b).bmod (2 ^ w.bits)).natAbs < b.natAbs ∧
      (0 ≤ a → 0 ≤ (a.tmod b).bmod (2 ^ w.bits)) ∧ (a ≤ 0 → (a.tmod b).bmod (2 ^ w.bits) ≤ 0) ∧
      (a = -2 ^ (w.bits - 1) → b = -1 →
        (a.tdiv b).bmod (2 ^ w.bits) = a ∧ (a.tmod b).bmod (2 ^ w.bits) = 0)) ∧
    (∀ (w : Word) (op : Opcode), op ∈ [w.pick .idiv .ldiv, w.pick .irem .lrem] →
      ∀ n m a rest below operands, m.ReadsOn a rest [op.toByte] → HoldAll [(w, n), (w, 0)] operands →
        a.stack.Carries (below ++ operands) →
        ∃ stack : OperandStack, stack.Carries below ∧ stack.slots.size = a.stack.slots.size ∧
          step natives s m = Throwing.throwNew s Throwables.arithmetic "/ by zero" ((m.ran a.method).withFrames
            (.active { a with stack, pc := a.nextPc, nextPc := a.nextPc + 1 } :: rest))) ∧
    ∀ k delta data m a rest x, Increments k delta data → m.ReadsOn a rest data → a.locals[k]? = some x →
      step natives s m = .ok () ((m.ran a.method).withFrames (.active { a with
        locals := a.locals.setIfInBounds k (.num (Int32.ofInt (x.int.toInt + delta)))
        pc := a.nextPc, nextPc := a.nextPc + data.length } :: rest)) := by
  refine ⟨?_, holds_slots, ?_, ?_, ?_⟩
  · intro op args w n h m a rest below operands hat hall hstack hroom
    exact leaves_computed h hat hall hstack hroom
  · intro w xs ys a b hx hy hb
    exact tdiv_tmod_reduced hx hy hb
  · intro w op hop n m a rest below operands hat hall hstack
    exact step_by_zero natives s hop hat hall hstack
  · intro k delta data m a rest x hdata hat hx
    exact step_increment natives s hdata hat hx

end Interpreter

namespace Samples

/-- An activation that is about to execute code, with operands on its stack and no room for more. -/
def calculating (code : List UInt8) (operands : List Slot) : Activation :=
  { between code.toArray (-1) 0 with locals := #[.num Int32.maxValue], stack := ⟨operands.toArray, operands.length⟩ }

theorem readsOn_calculating (code : List UInt8) (h : code.length < 2 ^ 63) (operands : List Slot) :
    (running (calculating code operands)).ReadsOn (calculating code operands) [] code where
  frames := rfl
  code := ⟨[], [], by rw [List.append_nil]; rfl, rfl⟩
  size := h

theorem carries_calculating (code : List UInt8) (operands : List Slot) :
    (calculating code operands).stack.Carries operands :=
  .of_getElem? (by simp) fun i _ => by simp

end Samples

namespace Interpreter

open Word Samples BigEndian

/-- What a step of code leaves of operands. -/
def Results (code : List UInt8) (operands results : List Slot) : Prop :=
  Leaves {} .silent (running (calculating code operands)) (calculating code operands) [] results
    #[.num Int32.maxValue] code.length

/-- The least int by minus one, what that leaves of the least long, distances below zero and beyond the width, a divisor
of zero, and one added to the greatest int. -/
theorem integers_computed_extremes :
    Results [Opcode.idiv.toByte] [.num Int32.minValue, .num (-1)] [.num Int32.minValue] ∧
      Results [Opcode.lrem.toByte] [.num 0, .num Int32.minValue, .num (-1), .num (-1)] [.num 0, .num 0] ∧
      Results [Opcode.lshl.toByte] [.num 1, .num 0, .num (-1)] [.num 0, .num Int32.minValue] ∧
      Results [Opcode.iushr.toByte] [.num (-1), .num 63] [.num 1] ∧
      (∃ stack : OperandStack, stack.Carries [.num 7] ∧ stack.slots.size = 3 ∧
        step {} .silent (running (calculating [Opcode.irem.toByte] [.num 7, .num 5, .num 0])) =
          Throwing.throwNew .silent Throwables.arithmetic "/ by zero"
            ((running (calculating [Opcode.irem.toByte] [.num 7, .num 5, .num 0])).withFrames
              [.active { calculating [Opcode.irem.toByte] [.num 7, .num 5, .num 0] with stack, pc := 0, nextPc := 1 }])) ∧
      step {} .silent (running (calculating [Opcode.iinc.toByte, 0, 1] [])) =
        .ok () ((running (calculating [Opcode.iinc.toByte, 0, 1] [])).withFrames
          [.active { calculating [Opcode.iinc.toByte, 0, 1] [] with
            locals := #[.num Int32.minValue], pc := 0, nextPc := 3 }]) := by
  obtain ⟨hresults, -, -, hzero, hsum⟩ := integers_computed_exactly {} .silent
  have hat (code : List UInt8) (h : code.length < 2 ^ 63) := readsOn_calculating code h
  refine ⟨?_, ?_, ?_, ?_, ?_, ?_⟩
  · exact hresults _ _ _ _ (.div .int (-2 ^ 31) (b := -1) (by decide)) _ _ [] [] _ (hat _ (by decide) _)
      (.cons (.int (.num Int32.minValue)) (.cons (.int (.num (-1))) .nil)) (carries_calculating _ _) (by decide)
  · exact hresults _ _ _ _ (.rem .long (-2 ^ 63) (b := -1) (by decide)) _ _ [] [] _ (hat _ (by decide) _)
      (.cons (.long (.num 0) (.num Int32.minValue)) (.cons (.long (.num (-1)) (.num (-1))) .nil))
      (carries_calculating _ _) (by decide)
  · exact hresults _ _ _ _ (.shl .long 1 (-1)) _ _ [] [] _ (hat _ (by decide) _)
      (.cons (.long (.num 1) (.num 0)) (.cons (.int (.num (-1))) .nil)) (carries_calculating _ _) (by decide)
  · exact hresults _ _ _ _ (.ushr .int (-1) 63) _ _ [] [] _ (hat _ (by decide) _)
      (.cons (.int (.num (-1))) (.cons (.int (.num 63)) .nil)) (carries_calculating _ _) (by decide)
  · exact hzero .int .irem (by decide) 5 _ _ [] [.num 7] _ (hat _ (by decide) _)
      (.cons (.int (.num 5)) (.cons (.int (.num 0)) .nil)) (carries_calculating _ _)
  · exact hsum 0 1 _ _ _ [] (.num Int32.maxValue) (.short (by decide) (by decide) (by decide)) (hat _ (by decide) _) rfl

end Interpreter

end JavaMachine
