import JavaMachine.Proofs.Bytes.BigEndian
import JavaMachine.Proofs.Code.Cursor
import JavaMachine.Proofs.Code.Fetch

/-!
Readers of code that find what was written. `Reads act n data v` says that a reader at position `n` reads a value where
the code holds these bytes from there on, and passes just them. Main results: `reads_tableSwitch` and
`reads_lookupSwitch`, whose padding depends on the position.

The short, one-byte and wide forms of an instruction are decoded to the same, whatever stands before and behind them; a step
whose code goes on with such bytes executes the instruction, with the next one behind them. Main results: `reads_local`,
`reads_wideLocal`, `reads_iinc`, `reads_wideIinc`, `step_of_reads`.
-/

namespace JavaMachine

open BigEndian

namespace CodeReader

variable {α β : Type}

/-- At a position where the code holds the bytes, they are read as a value and passed. -/
def Reads (act : CodeReader α) (n : Nat) (data : List UInt8) (v : α) : Prop :=
  ∀ before behind : List UInt8, before.length = n → (before ++ (data ++ behind)).length < 2 ^ 63 →
    act ⟨(before ++ (data ++ behind)).toArray, n⟩ =
      .ok v ⟨(before ++ (data ++ behind)).toArray, (n + data.length : Nat)⟩

theorem reads_pure (n : Nat) (v : α) : Reads (pure v) n [] v := fun _ _ _ _ => rfl

theorem reads_bind {act : CodeReader α} {f : α → CodeReader β} {n : Nat} {data data' : List UInt8} {v : α} {w : β}
    (h : Reads act n data v) (h' : Reads (f v) (n + data.length) data' w) :
    Reads (act >>= f) n (data ++ data') w := by
  intro before behind hn hsize
  have hfirst := h before (data' ++ behind) hn
  have hsecond := h' (before ++ data) behind (by rw [List.length_append, hn])
  simp only [List.append_assoc] at hfirst hsecond hsize ⊢
  rw [run_bind, hfirst hsize, List.length_append, ← Nat.add_assoc]
  exact hsecond hsize

theorem reads_map {act : CodeReader α} {n : Nat} {data : List UInt8} {v : α} (h : Reads act n data v) (g : α → β) :
    Reads (do return g (← act)) n data (g v) := by
  have hbind : Reads (act >>= fun v => pure (g v)) n (data ++ []) (g v) := reads_bind h (reads_pure _ (g v))
  rw [List.append_nil] at hbind
  exact hbind

/-! ## Words -/

theorem byteAt_data {before data : List UInt8} (behind : List UInt8) {k : Nat} {x : UInt8} (hx : data[k]? = some x) :
    byteAt ⟨(before ++ (data ++ behind)).toArray, before.length⟩ k = x := by
  obtain ⟨hk, -⟩ := List.getElem?_eq_some_iff.1 hx
  rw [byteAt, Array.getD_eq_getD_getElem?, List.getElem?_toArray, Int.toNat_natCast,
    List.getElem?_append_right (Nat.le_add_right _ _), Nat.add_sub_cancel_left, List.getElem?_append_left hk, hx,
    Option.getD_some]

theorem reads_fixed (width n : Nat) {value : CodeCursor → α} {data : List UInt8} {v : α} (hwidth : data.length = width)
    (h : ∀ c, (∀ k x, data[k]? = some x → byteAt c k = x) → value c = v) : Reads (fixed width value) n data v := by
  rintro before behind rfl hsize
  let c : CodeCursor := ⟨(before ++ (data ++ behind)).toArray, before.length⟩
  have hstop : c.pos + width ≤ c.code.size := by
    change (before.length : Int) + width ≤ (before ++ (data ++ behind)).toArray.size
    rw [List.size_toArray, List.length_append, List.length_append, hwidth]
    omega
  have hrun : fixed width value c = .ok (value c) { c with pos := c.pos + width } :=
    run_fixed_of_inside hsize (Int.natCast_nonneg _) (Int.natCast_nonneg _) hstop
  rw [hrun, h c fun k x hx => byteAt_data behind hx, hwidth]
  rfl

theorem reads_u8 (n : Nat) (v : UInt8) : Reads u8 n [v] v := reads_fixed 1 n rfl fun _ hc => hc 0 v rfl

theorem reads_u16 (n : Nat) (v : UInt16) : Reads u16 n (bytes16 v) v := by
  refine reads_fixed 2 n rfl fun c hc => ?_
  rw [hc 0 _ rfl, hc 1 _ rfl]
  exact word16_bytes v

theorem reads_i16 (n : Nat) (v : UInt16) : Reads i16 n (bytes16 v) v.toInt16 := reads_map (reads_u16 n v) _

theorem reads_i32 (n : Nat) (v : UInt32) : Reads i32 n (bytes32 v) v.toInt32 := by
  refine reads_fixed 4 n rfl fun c hc => ?_
  rw [hc 0 _ rfl, hc 1 _ rfl, hc 2 _ rfl, hc 3 _ rfl]
  exact congrArg UInt32.toInt32 (word32_bytes v)

/-- A list of signed words. -/
theorem reads_words (word : α → UInt32) (n : Nat) (xs : List α) :
    Reads (words xs.length) n (xs.flatMap fun x => bytes32 (word x)) (xs.map fun x => (word x).toInt32) := by
  induction xs generalizing n with
  | nil => exact reads_pure n []
  | cons x xs ih => exact reads_bind (reads_i32 n (word x)) (reads_map (ih (n + 4)) _)

/-- A list of pairs of signed words. -/
theorem reads_wordPairs (key word : α → UInt32) (n : Nat) (xs : List α) :
    Reads (wordPairs xs.length) n (xs.flatMap fun x => bytes32 (key x) ++ bytes32 (word x))
      (xs.map fun x => ((key x).toInt32, (word x).toInt32)) := by
  induction xs generalizing n with
  | nil => exact reads_pure n []
  | cons x xs ih =>
    rw [List.flatMap_cons, List.append_assoc]
    refine reads_bind (reads_i32 n (key x)) ?_
    exact reads_bind (reads_i32 (n + 4) (word x)) (reads_map (ih (n + 8)) _)

/-! ## Switches -/

theorem reads_get_bind {f : CodeCursor → CodeReader α} {n : Nat} {data : List UInt8} {v : α}
    (h : ∀ c : CodeCursor, c.pos = n → data.length ≤ c.code.size → Reads (f c) n data v) :
    Reads (get >>= f) n data v := by
  intro before behind hn hsize
  refine h ⟨(before ++ (data ++ behind)).toArray, n⟩ rfl ?_ before behind hn hsize
  change data.length ≤ (before ++ (data ++ behind)).toArray.size
  rw [List.size_toArray, List.length_append, List.length_append]
  omega

/-- Zeros up to a multiple of four are passed. -/
theorem reads_padding {limit n k : Nat} (hle : k ≤ limit) (hk : k < 4) (hstop : (n + k) % 4 = 0) :
    Reads (padding limit) n (List.replicate k 0) () := by
  induction limit generalizing n k with
  | zero =>
    obtain rfl := Nat.le_zero.1 hle
    exact reads_pure n ()
  | succ limit ih =>
    rw [padding]
    refine reads_get_bind fun c hpos _ => ?_
    cases k with
    | zero =>
      rw [if_pos (by omega)]
      exact reads_pure n ()
    | succ k =>
      rw [if_neg (by omega), List.replicate_succ]
      exact reads_bind (reads_u8 n 0) (ih (by omega) (by omega) (by rw [List.length_singleton]; omega))

theorem length_words (word : α → UInt32) (xs : List α) :
    (xs.flatMap fun x => bytes32 (word x)).length = 4 * xs.length := by
  induction xs with
  | nil => rfl
  | cons x xs ih =>
    rw [List.flatMap_cons, List.length_append, ih, List.length_cons, Nat.mul_succ, Nat.add_comm]
    rfl

theorem length_wordPairs (key word : α → UInt32) (xs : List α) :
    (xs.flatMap fun x => bytes32 (key x) ++ bytes32 (word x)).length = 8 * xs.length := by
  induction xs with
  | nil => rfl
  | cons x xs ih =>
    rw [List.flatMap_cons, List.length_append, ih, List.length_cons, Nat.mul_succ, Nat.add_comm]
    rfl

/-- The table of a `tableswitch` whose bounds agree with the number of its offsets. -/
theorem reads_tableSwitch (default low high : UInt32) (word : α → UInt32) {n k : Nat} {xs : List α} (hk : k < 4)
    (halign : (n + k) % 4 = 0) (hbounds : high.toInt32.toInt - low.toInt32.toInt + 1 = xs.length) :
    Reads tableSwitch n
      (List.replicate k 0 ++
        (bytes32 default ++ (bytes32 low ++ (bytes32 high ++ xs.flatMap fun x => bytes32 (word x)))))
      (.range default.toInt32 low.toInt32 high.toInt32 (xs.map fun x => (word x).toInt32).toArray) := by
  refine reads_bind (reads_padding (by omega) hk halign) ?_
  refine reads_bind (reads_i32 _ default) ?_
  refine reads_bind (reads_i32 _ low) ?_
  refine reads_bind (reads_i32 _ high) ?_
  refine reads_get_bind fun c _ hsize => ?_
  -- the number of offsets is compared with the size of the code, which has four bytes for each
  rw [length_words] at hsize
  have hcount : (high.toInt32.toInt - low.toInt32.toInt + 1).toNat = xs.length := by omega
  rw [if_neg (by omega), hcount]
  exact reads_map (reads_words word _ xs) _

/-- The table of a `lookupswitch`, whose rows are counted. -/
theorem reads_lookupSwitch (default count : UInt32) (key word : α → UInt32) {n k : Nat} {xs : List α} (hk : k < 4)
    (halign : (n + k) % 4 = 0) (hcount : count.toInt32.toInt = xs.length) :
    Reads lookupSwitch n
      (List.replicate k 0 ++
        (bytes32 default ++ (bytes32 count ++ xs.flatMap fun x => bytes32 (key x) ++ bytes32 (word x))))
      (.pairs default.toInt32 (xs.map fun x => ((key x).toInt32, (word x).toInt32))) := by
  refine reads_bind (reads_padding (by omega) hk halign) ?_
  refine reads_bind (reads_i32 _ default) ?_
  refine reads_bind (reads_i32 _ count) ?_
  refine reads_get_bind fun c _ hsize => ?_
  rw [length_wordPairs] at hsize
  have hnonneg : ¬ count.toInt32 < 0 := by
    rw [Int32.lt_iff_toInt_lt, hcount]
    exact Int.not_lt.2 (Int.natCast_nonneg _)
  have hrows : count.toInt32.toInt.toNat = xs.length := by rw [hcount, Int.toNat_natCast]
  rw [if_neg (not_or.2 ⟨hnonneg, by omega⟩), hrows]
  exact reads_map (reads_wordPairs key word _ xs) _

end CodeReader

set_option maxRecDepth 4000 in
theorem Opcode.ofByte?_toByte (op : Opcode) : ofByte? op.toByte = some op := by cases op <;> rfl

namespace CodeReader

/-- A byte in front of what is read behind it. -/
theorem reads_u8_bind {α : Type} {f : UInt8 → CodeReader α} {n : Nat} {v : UInt8} {data : List UInt8} {w : α}
    (h : Reads (f v) (n + 1) data w) : Reads (u8 >>= f) n (v :: data) w := reads_bind (reads_u8 n v) h

theorem reads_i8 (n : Nat) (v : UInt8) : Reads i8 n [v] v.toInt8 := reads_map (reads_u8 n v) _

end CodeReader

namespace Instruction

open CodeReader

variable {op : Opcode} {i : Instruction}

/-! ## What bytes are decoded to -/

theorem reads_plain (h : ofPlain? op = some i) (n : Nat) : Reads read n [op.toByte] (.instruction i) := by
  rw [read_eq]
  refine reads_u8_bind ?_
  rw [readRest, Opcode.ofByte?_toByte]
  simp only [h]
  exact reads_pure _ _

/-- An opcode with operands. -/
theorem reads_operands (h : ofPlain? op = none) {n : Nat} {data : List UInt8} {d : Decoded}
    (hd : Reads (readOperands op) (n + 1) data d) : Reads read n (op.toByte :: data) d := by
  rw [read_eq]
  refine reads_u8_bind ?_
  rw [readRest, Opcode.ofByte?_toByte]
  simp only [h]
  exact hd

theorem reads_bipush (n : Nat) {v : Int} (h : -2 ^ 7 ≤ v) (h' : v < 2 ^ 7) :
    Reads read n [Opcode.bipush.toByte, low8 v] (.instruction (pushInt (Int32.ofInt v))) := by
  have hword := reads_map (reads_i8 (n + 1) (low8 v)) fun x => Decoded.instruction (pushInt x.toInt32)
  rw [toInt8_low8, toInt32_ofInt8 h h'] at hword
  exact reads_operands rfl hword

theorem reads_sipush (n : Nat) {v : Int} (h : -2 ^ 15 ≤ v) (h' : v < 2 ^ 15) :
    Reads read n (Opcode.sipush.toByte :: bytes16 (low16 v)) (.instruction (pushInt (Int32.ofInt v))) := by
  have hword := reads_map (reads_i16 (n + 1) (low16 v)) fun x => Decoded.instruction (pushInt x.toInt32)
  rw [toInt16_low16, toInt32_ofInt16 h h'] at hword
  exact reads_operands rfl hword

theorem reads_ldc (n : Nat) (v : UInt8) :
    Reads read n [Opcode.ldc.toByte, v] (.instruction (.constant v.toNat)) :=
  reads_operands rfl (reads_map (reads_u8 (n + 1) v) fun x => Decoded.instruction (.constant x.toNat))

theorem reads_ldcWide (n : Nat) (v : UInt16) :
    Reads read n (Opcode.ldc_w.toByte :: bytes16 v) (.instruction (.constant v.toNat)) :=
  reads_operands rfl (reads_map (reads_u16 (n + 1) v) fun x => Decoded.instruction (.constant x.toNat))

/-! ## Local variables -/

theorem plain_of_local {k : Nat} (h : ofLocal? op k = some i) : ofPlain? op = none := by
  cases op <;> first | rfl | cases h

theorem readOperands_of_local {k : Nat} (h : ofLocal? op k = some i) :
    readOperands op = do
      let index ← u8
      return ((ofLocal? op index.toNat).map Decoded.instruction).getD (.undefined op.toByte) := by
  cases op <;> first | rfl | cases h

theorem isSome_of_local {k : Nat} (h : ofLocal? op k = some i) : (ofLocal? op 0).isSome := by
  cases op <;> first | rfl | cases h

theorem reads_local {k : Nat} (h : ofLocal? op k = some i) (hk : k < 2 ^ 8) (n : Nat) :
    Reads read n [op.toByte, low8 k] (.instruction i) := by
  refine reads_operands (plain_of_local h) ?_
  have hindex := reads_map (reads_u8 (n + 1) (low8 k)) fun index =>
    ((ofLocal? op index.toNat).map Decoded.instruction).getD (.undefined op.toByte)
  rw [toNat_low8 hk, h] at hindex
  rw [readOperands_of_local h]
  exact hindex

theorem reads_wideLocal {k : Nat} (h : ofLocal? op k = some i) (hk : k < 2 ^ 16) (n : Nat) :
    Reads read n (Opcode.wide.toByte :: op.toByte :: bytes16 (low16 k)) (.instruction i) := by
  refine reads_operands rfl ?_
  change Reads readWide _ _ _
  refine reads_u8_bind ?_
  have hindex := reads_map (reads_u16 (n + 1 + 1) (low16 k)) fun index =>
    ((ofLocal? op index.toNat).map Decoded.instruction).getD (.noWideForm op.toByte)
  rw [toNat_low16 hk, h] at hindex
  have hiinc : op ≠ .iinc := by
    rintro rfl
    cases h
  rw [Opcode.ofByte?_toByte]
  split
  · next heq => exact absurd (Option.some.inj heq) hiinc
  · next op' _ heq =>
    obtain rfl := Option.some.inj heq
    rw [if_pos (isSome_of_local h)]
    exact hindex
  · next heq => cases heq

theorem reads_iinc {k : Nat} (hk : k < 2 ^ 8) {delta : Int} (h : -2 ^ 7 ≤ delta) (h' : delta < 2 ^ 7) (n : Nat) :
    Reads read n [Opcode.iinc.toByte, low8 k, low8 delta] (.instruction (.increment k (Int32.ofInt delta))) := by
  refine reads_operands rfl ?_
  refine reads_u8_bind ?_
  have hdelta := reads_map (reads_i8 (n + 1 + 1) (low8 delta)) fun x =>
    Decoded.instruction (.increment (low8 k).toNat x.toInt32)
  rw [toInt8_low8, toInt32_ofInt8 h h', toNat_low8 hk] at hdelta
  rw [toNat_low8 hk]
  exact hdelta

theorem reads_wideIinc {k : Nat} (hk : k < 2 ^ 16) {delta : Int} (h : -2 ^ 15 ≤ delta) (h' : delta < 2 ^ 15) (n : Nat) :
    Reads read n (Opcode.wide.toByte :: Opcode.iinc.toByte :: (bytes16 (low16 k) ++ bytes16 (low16 delta)))
      (.instruction (.increment k (Int32.ofInt delta))) := by
  refine reads_operands rfl ?_
  change Reads readWide _ _ _
  refine reads_u8_bind ?_
  rw [Opcode.ofByte?_toByte]
  refine reads_bind (reads_u16 (n + 1 + 1) (low16 k)) ?_
  have hdelta := reads_map (reads_i16 (n + 1 + 1 + 2) (low16 delta)) fun x =>
    Decoded.instruction (.increment (low16 k).toNat x.toInt32)
  rw [toInt16_low16, toInt32_ofInt16 h h', toNat_low16 hk] at hdelta
  rw [toNat_low16 hk]
  exact hdelta

end Instruction

/-! ## Steps -/

/-- The innermost frame is an activation whose code has some bytes where it goes on. -/
structure Machine.ReadsOn (m : Machine) (a : Activation) (rest : List Frame) (data : List UInt8) : Prop where
  frames : m.frames = .active a :: rest
  code : ∃ before behind, a.method.code = (before ++ (data ++ behind)).toArray ∧ a.nextPc = before.length
  size : a.method.code.size < 2 ^ 63

/-- The machine in which an activation has read an instruction of some length. -/
def Machine.fetched (m : Machine) (a : Activation) (rest : List Frame) (length : Nat) : Machine :=
  (m.ran a.method).withFrames (.active { a with pc := a.nextPc, nextPc := a.nextPc + length } :: rest)

/-- Where the code goes on with the bytes of an instruction, a step executes it, with the next one behind it. -/
theorem Interpreter.step_of_reads {m : Machine} {a : Activation} {rest : List Frame} {data : List UInt8}
    {i : Instruction} (natives : Natives) (s : Services) (h : m.ReadsOn a rest data)
    (hreads : ∀ n, CodeReader.Reads Instruction.read n data (.instruction i)) :
    step natives s m = execute natives s i (m.fetched a rest data.length) := by
  obtain ⟨before, behind, hcode, hpc⟩ := h.code
  have hsize := h.size
  rw [hcode, List.size_toArray] at hsize
  have hread := hreads before.length before behind rfl hsize
  have hcursor : a.cursor = ⟨(before ++ (data ++ behind)).toArray, before.length⟩ := by
    rw [Activation.cursor, hcode, hpc]
  have hstop : ((before.length + data.length : Nat) : Int) = a.nextPc + data.length := by
    rw [hpc, Int.natCast_add]
  rw [step_eq natives s h.frames, hcursor, hread]
  dsimp only
  rw [hstop]
  rfl

end JavaMachine
