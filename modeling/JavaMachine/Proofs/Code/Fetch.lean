import JavaMachine.Machine.Interpreter
import JavaMachine.Proofs.Code.Cursor
import JavaMachine.Proofs.Fields.Operands

/-!
Where the interpreter reads. An instruction is read by a confined reader that begins with a byte, so a step at any
position decodes something that lies in the code, or finds that the code ends too early, or is astray from its first
byte on. Branches, subroutines and switches lead to positions near the code, where only a negative one is astray. Main
results: `fetches_step`, and `reads_in_code` for calls of a reader and for steps.
-/

namespace JavaMachine

namespace Instruction

open CodeReader

theorem confined_instruction {α : Type} {act : CodeReader α} (h : Confined act) (f : α → Instruction) :
    Confined (do return Decoded.instruction (f (← act))) := confined_bind h fun _ => confined_pure _

theorem confined_readWide : Confined readWide := by
  refine confined_bind confined_u8 fun b => ?_
  split
  · exact confined_bind confined_u16 fun _ => confined_bind confined_i16 fun _ => confined_pure _
  · split
    · exact confined_bind confined_u16 fun _ => confined_pure _
    · exact confined_pure _
  · exact confined_pure _

theorem confined_readOperands (op : Opcode) : Confined (readOperands op) := by
  unfold readOperands
  split
  · exact confined_instruction confined_i8 _
  · exact confined_instruction confined_i16 _
  · exact confined_instruction confined_u8 _
  · exact confined_bind confined_u8 fun _ => confined_instruction confined_i8 _
  · exact confined_instruction confined_i32 _
  · exact confined_instruction confined_i16 _
  · exact confined_instruction confined_i32 _
  · exact confined_instruction confined_tableSwitch _
  · exact confined_instruction confined_lookupSwitch _
  · exact confined_bind confined_u16 fun _ => confined_bind confined_u8 fun _ => confined_instruction confined_u8 _
  · exact confined_bind confined_u16 fun _ => confined_instruction confined_u16 _
  · exact confined_instruction confined_u8 _
  · exact confined_bind confined_u16 fun _ => confined_instruction confined_u8 _
  · exact confined_readWide
  · split
    · exact confined_instruction confined_i16 _
    · split
      · exact confined_bind confined_u8 fun _ => confined_pure _
      · split
        · exact confined_bind confined_u16 fun _ => confined_pure _
        · exact confined_pure _

/-- What is read behind the first byte of an instruction. -/
def readRest (b : UInt8) : CodeReader Decoded :=
  match Opcode.ofByte? b with
  | none => return .undefined b
  | some op =>
    match ofPlain? op with
    | some i => return .instruction i
    | none => readOperands op

theorem read_eq : read = u8 >>= readRest := rfl

theorem confined_readRest (b : UInt8) : Confined (readRest b) := by
  unfold readRest
  split
  · exact confined_pure _
  · split
    · exact confined_pure _
    · exact confined_readOperands _

theorem confined_read : Confined read := confined_bind confined_u8 confined_readRest

theorem guarded_read {c : CodeCursor} (hsize : c.code.size + 4 < 2 ^ 63) : Guarded read 1 c :=
  guarded_of_begins hsize confined_read (by decide) (by decide) ((begins_fixed 1 _ c).bind confined_readRest)

/-- The instructions that choose where their method goes on. -/
def Redirects : Instruction → Prop
  | .branch .. | .callSubroutine _ | .endSubroutine _ | .select _ => True
  | _ => False

end Instruction

/-- Where an activation reads its next instruction. -/
def Activation.cursor (a : Activation) : CodeCursor := ⟨a.method.code, a.nextPc⟩

/-- The machine in which a method is noted to run, if it is an initializer. -/
def Machine.ran (m : Machine) (method : Method) : Machine :=
  if method.isClinit && m.journal.head? != some (.ran method.owner) then m.note (.ran method.owner) else m

theorem Machine.frames_ran (m : Machine) (method : Method) : (m.ran method).frames = m.frames := by
  unfold ran
  split <;> rfl

/-- The machine in which an activation has begun its next instruction. -/
def Machine.beginning (m : Machine) (a : Activation) (rest : List Frame) : Machine :=
  (m.ran a.method).withFrames (.active { a with pc := a.nextPc } :: rest)

namespace Interpreter

open M Execute

variable {natives : Natives} {s : Services} {m m' : Machine} {a : Activation} {rest : List Frame}

/-- A step carries out the instruction that it has decoded, with the next one behind it; what is none stops it. -/
def Obeys (natives : Natives) (s : Services) (m : Machine) (a : Activation) (rest : List Frame) (stop : Int) :
    Decoded → Prop
  | .instruction i =>
    step natives s m =
      execute natives s i
        ((m.beginning a rest).withFrames (.active { a with pc := a.nextPc, nextPc := stop } :: rest))
  | .undefined _ | .noWideForm _ => ∃ message, step natives s m = .error (.fatal message) (m.beginning a rest)

/-- What a step comes to: the code ends too early, a byte outside of the code is asked for, or what is decoded lies in
the code and is obeyed. -/
inductive Fetches (natives : Natives) (s : Services) (m : Machine) (a : Activation) (rest : List Frame) : Prop
  | overrun (f : CodeFault) (overrun : f.IsOverrun) (sound : ¬ a.cursor.Astray 1)
      (stops : step natives s m = .error (.code f) (m.beginning a rest))
  | outside (astray : a.cursor.Astray 1)
      (stops : step natives s m = .error (.index a.nextPc a.method.code.size) (m.beginning a rest))
  | decodes (d : Decoded) (stop : Int) (begins : 0 ≤ a.nextPc) (forward : a.nextPc < stop)
      (inside : stop ≤ a.method.code.size)
      (reads : ∀ code, a.cursor.Agrees stop code → Instruction.read ⟨code, a.nextPc⟩ = .ok d ⟨code, stop⟩)
      (obeys : Obeys natives s m a rest stop d)

theorem run_updateActivation (hframes : m.frames = .active a :: rest) (f : Activation → Activation) :
    updateActivation f m = .ok () (m.withFrames (.active (f a) :: rest)) := by
  have hmodify (g : Machine → Machine) : (modify g : M Unit) m = .ok () (g m) := rfl
  rw [updateActivation, hmodify, hframes]
  rfl

theorem run_advance (hframes : m.frames = .active a :: rest) : advance m = .ok a (m.beginning a rest) := by
  have hactivation : activation m = .ok a m := by rw [activation, hframes]
  have hran : recordRun a.method m = .ok () (m.ran a.method) := rfl
  have hupdate := run_updateActivation ((m.frames_ran a.method).trans hframes) fun a => { a with pc := a.nextPc }
  rw [advance, bind_apply, hactivation]
  dsimp only
  rw [bind_apply, hran]
  dsimp only
  rw [bind_apply, hupdate]
  rfl

theorem step_eq (natives : Natives) (s : Services) (hframes : m.frames = .active a :: rest) :
    step natives s m =
      (match Instruction.read a.cursor with
        | .error (.outside pc) c => outside pc c.code.size
        | .error fault _ => throw (.code fault)
        | .ok (.undefined byte) _ => do
          let method ← methodText a.method
          let digits := Text.Hex.lower 2 byte.toNat
          fatal s!"{method}: undefined opcode 0x{digits} at pc {a.nextPc}"
        | .ok (.noWideForm byte) _ => fatal s!"wide applied to {Disassembly.nameOf byte}"
        | .ok (.instruction i) c => do
          updateActivation fun a => { a with nextPc := c.pos }
          execute natives s i : M Unit) (m.beginning a rest) := by
  rw [step, bind_apply, run_advance hframes]
  rfl

/-- What a step comes to, wherever its activation goes on. -/
theorem fetches_step (hframes : m.frames = .active a :: rest) (hsize : a.method.code.size + 4 < 2 ^ 63) :
    Fetches natives s m a rest := by
  have hguarded := Instruction.guarded_read (c := a.cursor) hsize
  have hstep := step_eq natives s hframes
  unfold CodeReader.Guarded at hguarded
  cases hread : Instruction.read a.cursor with
  | error f c =>
    rw [hread] at hguarded hstep
    obtain ⟨hoverrun, hsound⟩ | ⟨rfl, hastray, rfl⟩ := hguarded.2
    · refine .overrun f hoverrun hsound ?_
      cases f with
      | outside pc => exact hoverrun.elim
      | overrun pc => exact hstep
      | tableBounds low high => exact hstep
      | pairCount n => exact hstep
    · exact .outside hastray hstep
  | ok d c =>
    rw [hread] at hguarded hstep
    obtain ⟨hcode, hinside, hlocal⟩ := hguarded
    obtain ⟨hnonneg, hforward, hstop⟩ := hinside Nat.one_pos
    refine .decodes d c.pos hnonneg hforward hstop hlocal ?_
    cases d with
    | instruction i => exact hstep
    | undefined b => exact ⟨_, hstep⟩
    | noWideForm b => exact ⟨_, hstep⟩

/-! ## Where methods go on -/

/-- The innermost frame runs a method at some position, and goes on near its code. -/
def Near (method : Method) (pc : Int) (rest : List Frame) (m : Machine) : Prop :=
  ∃ a, m.frames = .active a :: rest ∧ a.method = method ∧ a.pc = pc ∧ -2 ^ 31 ≤ a.nextPc ∧
    a.nextPc < method.code.size + 2 ^ 31

/-- An action keeps a property of machines, unless it halts. -/
def Stays {α : Type} (P : Machine → Prop) (act : M α) : Prop := ∀ m, P m → After act m (fun _ => P) fun _ => True

section
variable {α β : Type} {P : Machine → Prop} {method : Method} {pc : Int}

theorem stays_pure (v : α) : Stays P (pure v) := fun _ => id

theorem stays_throw (h : Halt) : Stays P (throw h : M α) := fun _ _ => trivial

theorem stays_bind {act : M α} {f : α → M β} (ha : Stays P act) (hf : ∀ v, Stays P (f v)) : Stays P (act >>= f) :=
  fun m hm => (ha m hm).bind fun v m' hm' => hf v m' hm'

theorem stays_onStack (act : OperandStack.Action α) : Stays (Near method pc rest) (onStack act) := by
  rintro m ⟨a, hframes, hmethod, hpc, hnear⟩
  unfold After
  rw [onStack, hframes]
  cases hact : act a.stack with
  | ok v stack =>
    simp only [Frame.stack, hact]
    exact ⟨{ a with stack }, rfl, hmethod, hpc, hnear⟩
  | error e stack =>
    simp only [Frame.stack, hact]

theorem stays_onLocals (act : Slots.Action α) : Stays (Near method pc rest) (onLocals act) := by
  rintro m ⟨a, hframes, hmethod, hpc, hnear⟩
  unfold After
  rw [onLocals, hframes]
  cases hact : act a.locals with
  | ok v locals =>
    simp only [hact]
    exact ⟨{ a with locals }, rfl, hmethod, hpc, hnear⟩
  | error e locals =>
    simp only [hact]

theorem stays_activation : Stays (Near method pc rest) activation := by
  rintro m ⟨a, hframes, hnear⟩
  unfold After
  rw [activation, hframes]
  exact ⟨a, hframes, hnear⟩

/-- To go on at a place that is a 32-bit word, or an offset of 32 bits from an instruction in the code. -/
theorem stays_goOn {target : Activation → Int}
    (h : ∀ a : Activation, a.pc = pc → -2 ^ 31 ≤ target a ∧ target a < method.code.size + 2 ^ 31) :
    Stays (Near method pc rest) (updateActivation fun a => { a with nextPc := target a }) := by
  rintro m ⟨a, hframes, hmethod, hpc, -⟩
  unfold After
  rw [run_updateActivation hframes]
  exact ⟨{ a with nextPc := target a }, rfl, hmethod, hpc, h a hpc⟩

theorem stays_jump (h : 0 ≤ pc) (h' : pc ≤ method.code.size) (offset : Int32) :
    Stays (Near method pc rest) (jump offset) := by
  have hle := offset.le_toInt
  have hlt := offset.toInt_lt
  exact stays_goOn fun a ha => by omega

theorem stays_decideCondition (c : Condition) : Stays (Near method pc rest) (decideCondition c) := by
  cases c with
  | zero c => exact stays_bind (stays_onStack _) fun _ => stays_pure _
  | ints c => exact stays_bind (stays_onStack _) fun _ => stays_bind (stays_onStack _) fun _ => stays_pure _
  | sameRef wanted => exact stays_bind (stays_onStack _) fun _ => stays_bind (stays_onStack _) fun _ => stays_pure _
  | isNull wanted => exact stays_bind (stays_onStack _) fun _ => stays_pure _
  | always => exact stays_pure true

theorem stays_redirects {i : Instruction} (hi : i.Redirects) (h : 0 ≤ pc) (h' : pc ≤ method.code.size) :
    Stays (Near method pc rest) (execute natives s i) := by
  cases i with
  | branch c offset =>
    refine stays_bind (stays_decideCondition c) fun taken => ?_
    split
    · exact stays_jump h h' offset
    · exact stays_pure ()
  | callSubroutine offset =>
    exact stays_bind stays_activation fun _ => stays_bind (stays_onStack _) fun _ => stays_jump h h' offset
  | endSubroutine index =>
    -- whatever the program has stored in the local variable, it is a word
    refine stays_bind (stays_bind (stays_onLocals _) fun _ => stays_pure _) fun address => ?_
    have hle := address.le_toInt
    have hlt := address.toInt_lt
    exact stays_goOn fun a ha => by omega
  | select table =>
    refine stays_bind (stays_onStack _) fun key => ?_
    split
    · exact stays_jump h h' _
    · exact stays_throw _
  | _ => exact hi.elim

end

/-- Where a method goes on behind an instruction that chooses it: near its code. -/
theorem near_of_redirects {i : Instruction} {c : CodeCursor} (hframes : m.frames = .active a :: rest)
    (hsize : a.method.code.size + 4 < 2 ^ 63) (hread : Instruction.read a.cursor = .ok (.instruction i) c)
    (hi : i.Redirects) (hstep : step natives s m = .ok () m') : Near a.method a.nextPc rest m' := by
  have hguarded := Instruction.guarded_read (c := a.cursor) hsize
  unfold CodeReader.Guarded at hguarded
  rw [hread] at hguarded
  obtain ⟨hnonneg, hforward, hstop⟩ := hguarded.2.1 Nat.one_pos
  change 0 ≤ a.nextPc at hnonneg
  change a.nextPc < c.pos at hforward
  change c.pos ≤ a.method.code.size at hstop
  rw [step_eq natives s hframes, hread] at hstep
  let fetched := (m.beginning a rest).withFrames (.active { a with pc := a.nextPc, nextPc := c.pos } :: rest)
  have hnear : Near a.method a.nextPc rest fetched := ⟨_, rfl, rfl, rfl, by dsimp only; omega, by dsimp only; omega⟩
  exact (stays_redirects hi hnonneg (by omega) fetched hnear).of_ok hstep

end Interpreter

/-- Near the code, a byte is asked for outside of it at negative positions only. -/
theorem CodeCursor.astray_iff {c : CodeCursor} (h : -2 ^ 63 ≤ c.pos) (h' : c.pos + 1 < 2 ^ 63) :
    c.Astray 1 ↔ c.pos < 0 := by
  have hafter : c.after 1 = c.pos + 1 := CodeCursor.after_eq (by omega) (by omega)
  constructor
  · intro hastray
    have hpasses := hastray.passes
    have houtside := hastray.outside
    omega
  · exact fun hneg => ⟨by decide, .inl hneg, by omega⟩

open Interpreter in
/-- Calls of a reader, started at any word, read bytes of the code or find that it ends too early, unless a read is
astray. So do steps; behind a branch, a subroutine or a switch only a negative position is astray. -/
theorem reads_in_code (code : Array UInt8) (hsize : code.size < 2 ^ 62) :
    (∀ (start : Int64) (calls : List CodeCall) (call : CodeCall),
      let c := calls.foldl CodeCursor.called ⟨code, start.toInt⟩
      c.code = code ∧ CodeReader.Guarded call.perform (call.width c) c) ∧
    ∀ (natives : Natives) (s : Services) (m : Machine) (a : Activation) (rest : List Frame),
      m.frames = .active a :: rest → a.method.code = code →
        Fetches natives s m a rest ∧
        ∀ i c m', Instruction.read a.cursor = .ok (.instruction i) c → i.Redirects → step natives s m = .ok () m' →
          ∃ a', m'.frames = .active a' :: rest ∧ a'.method = a.method ∧ Fetches natives s m' a' rest ∧
            (a'.cursor.Astray 1 ↔ a'.nextPc < 0) := by
  have hroom : code.size + 4 < 2 ^ 63 := by omega
  refine ⟨fun start calls call => ?_, fun natives s m a rest hframes hcode => ?_⟩
  · have hcode := CodeCursor.code_calls (c := ⟨code, start.toInt⟩) hroom calls
    refine ⟨hcode, call.guarded_call ?_⟩
    rw [hcode]
    exact hroom
  · subst hcode
    refine ⟨fetches_step hframes hroom, fun i c m' hread hi hstep => ?_⟩
    obtain ⟨a', hframes', hmethod, -, hle, hlt⟩ := near_of_redirects hframes hroom hread hi hstep
    refine ⟨a', hframes', hmethod, fetches_step hframes' (by rw [hmethod]; exact hroom), CodeCursor.astray_iff ?_ ?_⟩
    · change -2 ^ 63 ≤ a'.nextPc
      omega
    · change a'.nextPc + 1 < 2 ^ 63
      omega

namespace Samples

/-- An activation of a method that has executed the instruction at one position and goes on at another. -/
def between (code : Array UInt8) (pc nextPc : Int) : Activation :=
  let method : Method := { owner := ⟨0⟩, flags := ⟨0⟩, name := "leap", desc := "()V", code }
  { method, locals := #[], stack := .ofCapacity 0, pc, nextPc }

def running (a : Activation) : Machine := { options := { classPath := .memory 0 "" }, frames := [.active a] }

/-- A jump into its own operand. -/
def inward : Array UInt8 := #[0xa7, 0, 2]

/-- A jump to a place before the code. -/
def backward : Array UInt8 := #[0xa7, 0xff, 0xfb]

end Samples

set_option maxRecDepth 4000 in
open Samples Interpreter in
/-- The step behind a jump into its own operand reads the operand as an instruction. -/
theorem reads_in_code_inward :
    inward.size < 2 ^ 62 ∧ step {} .silent (running (between inward (-1) 0)) = .ok () (running (between inward 0 2)) ∧
      Fetches {} .silent (running (between inward 0 2)) (between inward 0 2) [] := by
  have hsize : inward.size < 2 ^ 62 := by decide
  have hread : Instruction.read (between inward (-1) 0).cursor =
      .ok (.instruction (.branch .always 2)) ⟨inward, 3⟩ := rfl
  have hstep : step {} .silent (running (between inward (-1) 0)) = .ok () (running (between inward 0 2)) := rfl
  have hsteps := (reads_in_code inward hsize).2 {} .silent (running (between inward (-1) 0)) _ _ rfl rfl
  obtain ⟨a, hframes, -, hfetches, -⟩ := hsteps.2 _ _ _ hread trivial hstep
  cases hframes
  exact ⟨hsize, hstep, hfetches⟩

set_option maxRecDepth 4000 in
open Samples Interpreter in
/-- A reader that is put before the code, and a jump there: both ask for a byte that is not there. -/
theorem negative_position_outside :
    CodeCall.u8.perform ⟨backward, -1⟩ = .error (.outside (-1)) ⟨backward, -1⟩ ∧
      ¬ (CodeFault.outside (-1)).IsOverrun ∧
      step {} .silent (running (between backward (-1) 0)) = .ok () (running (between backward 0 (-5))) ∧
      step {} .silent (running (between backward 0 (-5))) =
        .error (.index (-5) 3) (running (between backward (-5) (-5))) :=
  ⟨rfl, id, rfl, rfl⟩

end JavaMachine
