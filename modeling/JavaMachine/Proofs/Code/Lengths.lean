import JavaMachine.Code.Disassembly
import JavaMachine.Proofs.Code.Fetch

/-!
How long instructions are. They are laid down three times: as operand lengths of opcodes, in the decoder, and in the
lister. A reader `Spans` a number of bytes if it passes just as many whenever it succeeds, and `Serves` it if it
succeeds and passes them wherever the code has them. By the table of lengths the decoder spans what the lister serves.
Switches are read by one reader in both, and the operands of `wide` depend on the next byte in the same way. Main
result: `lists_where_decoded`.
-/

namespace JavaMachine

namespace CodeReader

variable {α β : Type} {act : CodeReader α} {f : α → CodeReader β} {n k : Nat}

/-- Whenever the reader succeeds, it has passed `n` bytes of the code. -/
def Spans (act : CodeReader α) (n : Nat) : Prop :=
  ∀ c v c', act c = .ok v c' → c' = { c with pos := c.pos + n }

/-- Where the code has the next `n` bytes, the reader succeeds and passes them. -/
def Serves (act : CodeReader α) (n : Nat) : Prop :=
  ∀ c : CodeCursor, c.code.size < 2 ^ 63 → 0 ≤ c.pos → c.pos + n ≤ c.code.size →
    ∃ v, act c = .ok v { c with pos := c.pos + n }

theorem spans_pure (v : α) : Spans (pure v : CodeReader α) 0 := fun c w c' h => by
  cases h
  exact congrArg (CodeCursor.mk c.code) (Int.add_zero _).symm

theorem spans_bind (ha : Spans act n) (hf : ∀ v, Spans (f v) k) : Spans (act >>= f) (n + k) := by
  intro c w c' h
  obtain ⟨v, c₁, hact, hrest⟩ := exists_of_run_bind h
  cases ha c v c₁ hact
  rw [hf v _ w c' hrest]
  exact congrArg (CodeCursor.mk c.code) (by dsimp only; omega)

theorem spans_map (h : Spans act n) (g : α → β) : Spans (do return g (← act)) n := spans_bind h fun _ => spans_pure _

theorem spans_fixed (width : Nat) (value : CodeCursor → α) : Spans (fixed width value) width :=
  fun _ _ _ h => (inside_of_run_fixed h).2.2.2.2

theorem spans_u8 : Spans u8 1 := spans_fixed 1 _

theorem spans_i8 : Spans i8 1 := spans_map spans_u8 _

theorem spans_u16 : Spans u16 2 := spans_fixed 2 _

theorem spans_i16 : Spans i16 2 := spans_map spans_u16 _

theorem spans_i32 : Spans i32 4 := spans_fixed 4 _

theorem serves_pure (v : α) : Serves (pure v : CodeReader α) 0 := fun c _ _ _ =>
  ⟨v, congrArg (fun pos => EStateM.Result.ok v (CodeCursor.mk c.code pos)) (Int.add_zero _).symm⟩

theorem serves_bind (ha : Serves act n) (hf : ∀ v, Serves (f v) k) : Serves (act >>= f) (n + k) := by
  intro c hsize hpos hstop
  obtain ⟨v, hact⟩ := ha c hsize hpos (by omega)
  obtain ⟨w, hrest⟩ := hf v { c with pos := c.pos + n } hsize (by dsimp only; omega) (by dsimp only; omega)
  refine ⟨w, ?_⟩
  rw [run_bind, hact]
  refine hrest.trans ?_
  exact congrArg (fun pos => EStateM.Result.ok w (CodeCursor.mk c.code pos)) (by dsimp only; omega)

theorem serves_map (h : Serves act n) (g : α → β) : Serves (do return g (← act)) n :=
  serves_bind h fun _ => serves_pure _

theorem serves_fixed (width : Nat) (value : CodeCursor → α) : Serves (fixed width value) width :=
  fun c hsize hpos hstop => ⟨value c, run_fixed_of_inside hsize (Int.natCast_nonneg _) hpos hstop⟩

theorem serves_u8 : Serves u8 1 := serves_fixed 1 _

theorem serves_i8 : Serves i8 1 := serves_map serves_u8 _

theorem serves_u16 : Serves u16 2 := serves_fixed 2 _

theorem serves_i16 : Serves i16 2 := serves_map serves_u16 _

theorem serves_i32 : Serves i32 4 := serves_fixed 4 _

theorem serves_skip (n : Nat) : Serves (skip n) n := by
  intro c hsize hpos hstop
  have hafter : c.after n = c.pos + n := CodeCursor.after_eq (by omega) (by omega)
  refine ⟨(), ?_⟩
  rw [skip, run_bind, run_need, if_neg (by omega), ← hafter]
  rfl

end CodeReader

/-! ## The decoder -/

namespace Instruction

open CodeReader

theorem operandLength_of_plain {op : Opcode} {i : Instruction} (h : ofPlain? op = some i) :
    op.operandLength = .fixed 0 := by
  cases op <;> first | rfl | cases h

theorem operandLength_of_condition {op : Opcode} {c : Condition} (h : condition? op = some c) :
    op.operandLength = .fixed 2 := by
  cases op <;> first | rfl | cases h

theorem operandLength_of_local {op : Opcode} (h : (ofLocal? op 0).isSome) : op.operandLength = .fixed 1 := by
  cases op <;> first | rfl | cases h

theorem operandLength_of_pooled {op : Opcode} (h : (ofPooled? op 0).isSome) : op.operandLength = .fixed 2 := by
  cases op <;> first | rfl | cases h

/-- Whenever the reader finds an instruction, it has passed `n` bytes of the code. -/
def Decodes (act : CodeReader Decoded) (n : Nat) : Prop :=
  ∀ c i c', act c = .ok (.instruction i) c' → c' = { c with pos := c.pos + n }

theorem decodes_of_spans {act : CodeReader Decoded} {n : Nat} (h : Spans act n) : Decodes act n :=
  fun c i c' => h c (.instruction i) c'

theorem decodes_readOperands {op : Opcode} {n : Nat} (h : op.operandLength = .fixed n) :
    Decodes (readOperands op) n := by
  unfold readOperands
  split
  · cases h
    exact decodes_of_spans (spans_map spans_i8 _)
  · cases h
    exact decodes_of_spans (spans_map spans_i16 _)
  · cases h
    exact decodes_of_spans (spans_map spans_u8 _)
  · cases h
    exact decodes_of_spans (spans_bind spans_u8 fun _ => spans_map spans_i8 _)
  · cases h
    exact decodes_of_spans (spans_map spans_i32 _)
  · cases h
    exact decodes_of_spans (spans_map spans_i16 _)
  · cases h
    exact decodes_of_spans (spans_map spans_i32 _)
  · cases h
  · cases h
  · cases h
    exact decodes_of_spans (spans_bind spans_u16 fun _ => spans_bind spans_u8 fun _ => spans_map spans_u8 _)
  · cases h
    exact decodes_of_spans (spans_bind spans_u16 fun _ => spans_map spans_u16 _)
  · cases h
    exact decodes_of_spans (spans_map spans_u8 _)
  · cases h
    exact decodes_of_spans (spans_bind spans_u16 fun _ => spans_map spans_u8 _)
  · cases h
  · split
    · next hcondition =>
      cases (operandLength_of_condition hcondition).symm.trans h
      exact decodes_of_spans (spans_map spans_i16 _)
    · split
      · next hlocal =>
        cases (operandLength_of_local hlocal).symm.trans h
        exact decodes_of_spans (spans_map spans_u8 _)
      · split
        · next hpooled =>
          cases (operandLength_of_pooled hpooled).symm.trans h
          exact decodes_of_spans (spans_map spans_u16 _)
        · exact fun c i c' hok => nomatch hok

theorem decodes_readRest {b : UInt8} {op : Opcode} {n : Nat} (hop : Opcode.ofByte? b = some op)
    (h : op.operandLength = .fixed n) : Decodes (readRest b) n := by
  unfold readRest
  rw [hop]
  dsimp only
  split
  · next hplain =>
    cases (operandLength_of_plain hplain).symm.trans h
    exact decodes_of_spans (spans_pure _)
  · exact decodes_readOperands h

end Instruction

/-! ## The lister -/

namespace Disassembly

open CodeReader

theorem operandLength_of_isBranch {op : Opcode} (h : op.isBranch) (hgoto : op ≠ .goto_w) (hjsr : op ≠ .jsr_w) :
    op.operandLength = .fixed 2 := by
  cases op <;> first | rfl | contradiction

theorem operandLength_le {op : Opcode} {n : Nat} (h : op.operandLength = .fixed n) (hbranch : ¬ op.isBranch)
    (hinterface : op ≠ .invokeinterface) (hdynamic : op ≠ .invokedynamic) (hmulti : op ≠ .multianewarray) : n ≤ 2 := by
  cases op <;> first | contradiction | (cases h; decide)

variable {pool : Option ConstantPool} {c c₁ c' : CodeCursor} {b : UInt8} {op : Opcode} {i : Instruction}

/-- The lister reads a byte and then what belongs to it. -/
theorem run_listed (hbyte : u8 c = .ok b c₁) (rest : Int → UInt8 → CodeReader String) :
    (do let pos ← position; let byte ← u8; rest pos byte) c = rest c.pos b c₁ := by
  change (u8 >>= rest c.pos) c = _
  rw [run_bind, hbyte]

/-- Operands of a fixed length are listed where the code has them. -/
theorem listed_of_fixed {n : Nat} (hbyte : u8 c = .ok b c₁) (hop : Opcode.ofByte? b = some op)
    (hn : op.operandLength = .fixed n) (hsize : c₁.code.size < 2 ^ 63) (hpos : 0 ≤ c₁.pos)
    (hstop : c₁.pos + n ≤ c₁.code.size) :
    ∃ text, instruction pool c = .ok text { c₁ with pos := c₁.pos + n } := by
  rw [instruction, run_listed hbyte, hop]
  suffices hserves : Serves _ n from hserves c₁ hsize hpos hstop
  split
  · next h => cases h
  · next h => cases h; cases hn; exact serves_map serves_i8 _
  · next h => cases h; cases hn; exact serves_map serves_i16 _
  · next h => cases h; cases hn; exact serves_map serves_u8 _
  · next h => cases h; cases hn; exact serves_map serves_u8 _
  · next h => cases h; cases hn; exact serves_bind serves_u8 fun _ => serves_map serves_i8 _
  · next h => cases h; cases hn; exact serves_map serves_i32 _
  · next h => cases h; cases hn; exact serves_map serves_i32 _
  · next h => cases h; cases hn
  · next h => cases h; cases hn
  · next h =>
    cases h
    cases hn
    exact serves_bind serves_u16 fun _ => serves_bind serves_u8 fun _ => serves_map serves_u8 _
  · next h => cases h; cases hn; exact serves_bind serves_u16 fun _ => serves_map (serves_skip 2) _
  · next h => cases h; cases hn; exact serves_bind serves_u16 fun _ => serves_map serves_u8 _
  · next h => cases h; cases hn
  · -- all other opcodes are listed by the table of lengths, except for short branches
    next _ _ _ _ _ hgoto hjsr _ _ hinterface hdynamic hmulti _ h =>
    cases h
    split
    · next hbranch =>
      cases (operandLength_of_isBranch hbranch hgoto hjsr).symm.trans hn
      exact serves_map serves_i16 _
    · next hbranch =>
      split
      · next h2 =>
        cases hn.symm.trans h2
        exact serves_map serves_u16 _
      · next h1 =>
        cases hn.symm.trans h1
        exact serves_map serves_u8 _
      · next h2 h1 =>
        have hle := operandLength_le hn hbranch hinterface hdynamic hmulti
        have hne2 : n ≠ 2 := fun hn2 => h2 (hn.trans (by rw [hn2]))
        have hne1 : n ≠ 1 := fun hn1 => h1 (hn.trans (by rw [hn1]))
        obtain rfl : n = 0 := by omega
        exact serves_pure _

theorem listed_of_tableSwitch (hbyte : u8 c = .ok b c₁) (hop : Opcode.ofByte? b = some .tableswitch)
    (h : Instruction.readOperands .tableswitch c₁ = .ok (.instruction i) c') :
    ∃ text, instruction pool c = .ok text c' := by
  obtain ⟨t, c₂, htable, hrest⟩ := exists_of_run_bind h
  cases hrest
  rw [instruction, run_listed hbyte, hop]
  dsimp only
  rw [run_bind, htable]
  cases t <;> exact ⟨_, rfl⟩

theorem listed_of_lookupSwitch (hbyte : u8 c = .ok b c₁) (hop : Opcode.ofByte? b = some .lookupswitch)
    (h : Instruction.readOperands .lookupswitch c₁ = .ok (.instruction i) c') :
    ∃ text, instruction pool c = .ok text c' := by
  obtain ⟨t, c₂, htable, hrest⟩ := exists_of_run_bind h
  cases hrest
  rw [instruction, run_listed hbyte, hop]
  dsimp only
  rw [run_bind, htable]
  cases t <;> exact ⟨_, rfl⟩

/-- The decoder looks at the byte behind `wide` before it reads the index, the lister afterwards. -/
theorem listed_of_wide (hbyte : u8 c = .ok b c₁) (hop : Opcode.ofByte? b = some .wide)
    (h : Instruction.readWide c₁ = .ok (.instruction i) c') : ∃ text, instruction pool c = .ok text c' := by
  obtain ⟨inner, c₂, hinner, hrest⟩ := exists_of_run_bind h
  rw [instruction, run_listed hbyte, hop]
  dsimp only
  rw [run_bind, hinner]
  dsimp only at hrest ⊢
  generalize Opcode.ofByte? inner = found at hrest ⊢
  split at hrest
  · obtain ⟨index, c₃, hindex, hnext⟩ := exists_of_run_bind hrest
    obtain ⟨delta, c₄, hdelta, hdone⟩ := exists_of_run_bind hnext
    cases hdone
    rw [run_bind, hindex]
    dsimp only
    rw [if_pos rfl, run_bind, hdelta]
    exact ⟨_, rfl⟩
  · next op hnot =>
    split at hrest
    · obtain ⟨index, c₃, hindex, hdone⟩ := exists_of_run_bind hrest
      have hc : c₃ = c' := congrArg left hdone
      rw [run_bind, hindex]
      dsimp only
      rw [if_neg fun hiinc => hnot (Option.some.inj hiinc), hc]
      exact ⟨_, rfl⟩
    · cases hrest
  · cases hrest

/-- Only the operands of switches and of `wide` have no fixed length. -/
theorem fixed_or_variable (op : Opcode) :
    (∃ n, op.operandLength = .fixed n) ∨ op = .tableswitch ∨ op = .lookupswitch ∨ op = .wide := by
  cases op <;>
    first
      | exact .inl ⟨_, rfl⟩
      | exact .inr (.inl rfl)
      | exact .inr (.inr (.inl rfl))
      | exact .inr (.inr (.inr rfl))

/-- What the decoder finds is listed, and both go on at one position. -/
theorem listed_of_read (hsize : c.code.size < 2 ^ 63) (h : Instruction.read c = .ok (.instruction i) c')
    (pool : Option ConstantPool) :
    ∃ text, instruction pool c = .ok text c' := by
  rw [Instruction.read_eq] at h
  obtain ⟨b, c₁, hbyte, hrest⟩ := exists_of_run_bind h
  obtain ⟨-, hnonneg, hfirst, -, rfl⟩ := inside_of_run_fixed hbyte
  cases hop : Opcode.ofByte? b with
  | none =>
    rw [Instruction.readRest, hop] at hrest
    cases hrest
  | some op =>
    rcases fixed_or_variable op with ⟨n, hn⟩ | rfl | rfl | rfl
    · cases Instruction.decodes_readRest hop hn _ _ _ hrest
      have hforward := ((Instruction.confined_readRest b).passes _ _ _ hrest).1.forward
      dsimp only at hforward
      exact listed_of_fixed hbyte hop hn hsize (by dsimp only; omega) (by dsimp only; omega)
    · rw [Instruction.readRest, hop] at hrest
      exact listed_of_tableSwitch hbyte hop hrest
    · rw [Instruction.readRest, hop] at hrest
      exact listed_of_lookupSwitch hbyte hop hrest
    · rw [Instruction.readRest, hop] at hrest
      exact listed_of_wide hbyte hop hrest

end Disassembly

open CodeReader in
/-- Where the decoder finds an instruction, the lister lists it and stops at the same position, which lies behind the
first byte and not behind the end of the code; if the operands have a fixed length, it lies just behind those. -/
theorem lists_where_decoded (code : Array UInt8) (pc : Int) (hsize : code.size < 2 ^ 63) (i : Instruction)
    (c : CodeCursor) (h : Instruction.read ⟨code, pc⟩ = .ok (.instruction i) c) :
    (∀ pool, ∃ text, Disassembly.instruction pool ⟨code, pc⟩ = .ok text c) ∧
      c.code = code ∧ pc < c.pos ∧ c.pos ≤ code.size ∧
      ∃ b op, code[pc.toNat]? = some b ∧ Opcode.ofByte? b = some op ∧
        ∀ n, op.operandLength = .fixed n → c.pos = pc + 1 + n := by
  have hlisted := Disassembly.listed_of_read hsize h
  rw [Instruction.read_eq] at h
  obtain ⟨b, c₁, hbyte, hrest⟩ := exists_of_run_bind h
  obtain ⟨-, hnonneg, hfirst, rfl, rfl⟩ := inside_of_run_fixed hbyte
  have honward := ((Instruction.confined_readRest _).passes _ _ _ hrest).1
  have hforward := honward.forward
  dsimp only at hnonneg hfirst hforward
  refine ⟨hlisted, honward.code, by omega, by omega, byteAt ⟨code, pc⟩ 0, ?_⟩
  have hb : code[pc.toNat]? = some (byteAt ⟨code, pc⟩ 0) := by
    rw [byteAt, Nat.add_zero, Array.getD_eq_getD_getElem?, Array.getElem?_eq_getElem (by omega)]
    rfl
  cases hop : Opcode.ofByte? (byteAt ⟨code, pc⟩ 0) with
  | none =>
    rw [Instruction.readRest, hop] at hrest
    cases hrest
  | some op =>
    exact ⟨op, hb, rfl, fun n hn => congrArg CodeCursor.pos (Instruction.decodes_readRest hop hn _ _ _ hrest)⟩

/-- A `nop` and a `lookupswitch` with two bytes of padding and a row. -/
def Samples.padded : Array UInt8 := #[0, 0xab, 0, 0, 0, 0, 0, 19, 0, 0, 0, 1, 0, 0, 0, 7, 0, 0, 0, 19]

set_option maxRecDepth 4000 in
open Samples in
/-- The switch takes nineteen bytes, two of them because of its place. -/
theorem lists_where_decoded_padded :
    padded.size < 2 ^ 63 ∧
      Instruction.read ⟨padded, 1⟩ = .ok (.instruction (.select (.pairs 19 [(7, 19)]))) ⟨padded, 20⟩ ∧
      ∀ pool, ∃ text, Disassembly.instruction pool ⟨padded, 1⟩ = .ok text ⟨padded, 20⟩ := by
  have hsize : padded.size < 2 ^ 63 := by decide
  have hread : Instruction.read ⟨padded, 1⟩ =
      .ok (.instruction (.select (.pairs 19 [(7, 19)]))) ⟨padded, 20⟩ := rfl
  exact ⟨hsize, hread, (lists_where_decoded padded 1 hsize _ _ hread).1⟩

end JavaMachine
