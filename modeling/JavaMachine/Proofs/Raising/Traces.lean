import JavaMachine.Machine.Throwing
import JavaMachine.Proofs.Frames.Runs
import JavaMachine.Proofs.Initialization.Replay
import JavaMachine.Proofs.Raising.Throwables
import Mathlib.Data.List.Induction

/-!
Stack traces. A trace leaves out a longest run of frames that fill it in and then a longest run of constructors of the
throwable, and shows all other frames in order. The line of a frame is that of the first entry with the greatest start that
is not above its instruction. While constructors only chain to others and to what fills the trace in, what is above the
call from outside that runs them is left out of a trace.

Main result: where the constructors of an exception only chain that an instruction raises, its trace starts with the frame
that ran the instruction (`stackTrace_attributed`), unless initializers that have not started are on top of that
(`unstarted_initializer_shown_first`).
-/

namespace JavaMachine

open M Throwing Interpreter

/-! ## Longest runs -/

/-- A list is a longest run of a kind and what follows it. -/
structure Splits {α : Type} (p : α → Bool) (xs run rest : List α) : Prop where
  whole : xs = run ++ rest
  all : ∀ x ∈ run, p x = true
  longest : ∀ x, rest.head? = some x → p x = false

theorem splits_dropWhile {α : Type} (p : α → Bool) (xs : List α) : Splits p xs (xs.takeWhile p) (xs.dropWhile p) where
  whole := List.takeWhile_append_dropWhile.symm
  all x hx := List.all_eq_true.1 List.all_takeWhile x hx
  longest x hx := by
    have hnot := List.head?_dropWhile_not p xs
    rw [hx] at hnot
    simpa using hnot

theorem Splits.dropWhile_eq {α : Type} {p : α → Bool} {xs run rest : List α} (h : Splits p xs run rest) :
    xs.dropWhile p = rest := by
  rw [h.whole, List.dropWhile_append_of_pos h.all]
  cases rest with
  | nil => rfl
  | cons x rest => rw [List.dropWhile_cons_of_neg (by simp [h.longest x rfl])]

/-! ## Lines -/

/-- The first entry of a table of lines with the greatest start that is not above an instruction. -/
def LineRow.Governs (row : LineRow) (rows : List LineRow) (pc : Int) : Prop :=
  ∃ before after, rows = before ++ row :: after ∧ (row.start.toNat : Int) ≤ pc ∧
    (∀ other ∈ before, (other.start.toNat : Int) ≤ pc → other.start < row.start) ∧
    ∀ other ∈ after, (other.start.toNat : Int) ≤ pc → other.start ≤ row.start

namespace Method

theorem line_native {method : Method} (h : method.isNative) (pc : Int) : method.line pc = -2 := if_pos h

/-- Going through a table, the best entry is that which governs the instruction among those seen. -/
theorem best_row (rows : List LineRow) (pc : Int) :
    let best := rows.foldl (fun (best : Int × Int) r =>
      let start : Int := r.start.toNat
      if start ≤ pc ∧ best.1 < start then (start, (r.line.toNat : Int)) else best) (-1, -1)
    (best = (-1, -1) ∧ ∀ row ∈ rows, pc < row.start.toNat) ∨
      ∃ row : LineRow, row.Governs rows pc ∧ best = ((row.start.toNat : Int), (row.line.toNat : Int)) := by
  induction rows using List.reverseRecOn with
  | nil => exact .inl ⟨rfl, by simp⟩
  | append_singleton rows r ih =>
    rw [List.foldl_append, List.foldl_cons, List.foldl_nil]
    rcases ih with ⟨hbest, hnone⟩ | ⟨row, ⟨before, after, rfl, hrow, hbefore, hafter⟩, hbest⟩
    · rw [hbest]
      by_cases hr : (r.start.toNat : Int) ≤ pc
      · refine .inr ⟨r, ⟨rows, [], rfl, hr, fun other hother hle => ?_, by simp⟩, if_pos ⟨hr, by omega⟩⟩
        exact absurd hle (Int.not_le.2 (hnone other hother))
      · refine .inl ⟨if_neg fun h => hr h.1, ?_⟩
        exact List.forall_mem_append.2 ⟨hnone, List.forall_mem_singleton.2 (Int.not_le.1 hr)⟩
    · rw [hbest]
      by_cases hr : (r.start.toNat : Int) ≤ pc ∧ row.start.toNat < r.start.toNat
      · refine .inr ⟨r, ⟨before ++ row :: after, [], rfl, hr.1, fun other hother hle => ?_, by simp⟩,
          if_pos ⟨hr.1, Int.ofNat_lt.2 hr.2⟩⟩
        rw [UInt16.lt_iff_toNat_lt]
        refine Nat.lt_of_le_of_lt ?_ hr.2
        rcases List.mem_append.1 hother with hother | hother
        · exact Nat.le_of_lt (UInt16.lt_iff_toNat_lt.1 (hbefore other hother hle))
        · rcases List.mem_cons.1 hother with rfl | hother
          · exact Nat.le_refl _
          · exact UInt16.le_iff_toNat_le.1 (hafter other hother hle)
      · refine .inr ⟨row, ⟨before, after ++ [r], by simp, hrow, hbefore, ?_⟩,
          if_neg fun h => hr ⟨h.1, Int.ofNat_lt.1 h.2⟩⟩
        refine List.forall_mem_append.2 ⟨hafter, List.forall_mem_singleton.2 fun hle => ?_⟩
        exact UInt16.le_iff_toNat_le.2 (Nat.le_of_not_lt fun hlt => hr ⟨hle, hlt⟩)

theorem line_eq {method : Method} (h : method.isNative = false) (pc : Int) :
    (method.line pc = -1 ∧ ∀ row ∈ method.lines, pc < row.start.toNat) ∨
      ∃ row : LineRow, row.Governs method.lines pc ∧ method.line pc = row.line.toNat := by
  rw [line, if_neg (by simp [h])]
  rcases best_row method.lines pc with ⟨hbest, hnone⟩ | ⟨row, hgoverns, hbest⟩
  · exact .inl ⟨congrArg Prod.snd hbest, hnone⟩
  · exact .inr ⟨row, hgoverns, congrArg Prod.snd hbest⟩

end Method

namespace Throwing

/-! ## Traces -/

/-- Whether an activation runs a constructor of an object. -/
def constructing (ex : Ref) (a : Activation) : Bool := a.method.isInit && (a.locals[0]?.bind Slot.ref?) == some ex

/-- Whether an activation runs a method that fills in a stack trace. -/
def filling (a : Activation) : Bool := a.method.name == "fillInStackTrace"

/-- A frame does not construct an object that is not there. -/
theorem constructing_eq_false {m : Machine} {a : Activation} (hnew : m.heap.size ≤ ex.index)
    (hlocal : ∀ r, a.locals[0]?.bind Slot.ref? = some r → r.index < m.heap.size) : constructing ex a = false := by
  rw [constructing, Bool.and_eq_false_iff]
  refine .inr (beq_eq_false_iff_ne.2 fun h => ?_)
  exact absurd (hlocal ex h) (Nat.not_lt.2 hnew)

theorem constructing_of_isClinit {method : Method} (h : method.isClinit) (a : Activation) (ha : a.method = method) :
    constructing ex a = false := by
  rw [Method.isClinit, beq_iff_eq] at h
  rw [constructing, Method.isInit, ha, h]
  rfl

theorem stackTrace_of_splits {m : Machine} {ex : Ref} {fills inits rest : List Activation}
    (hfills : Splits filling (activations m.frames) fills (inits ++ rest))
    (hinits : Splits (constructing ex) (inits ++ rest) inits rest) : stackTrace m ex = rest.map (traceElement m) := by
  change (((activations m.frames).dropWhile filling).dropWhile (constructing ex)).map (traceElement m) = _
  rw [hfills.dropWhile_eq, hinits.dropWhile_eq]

/-- A trace shows what is left of the activations when a longest run of those that fill it in and then a longest run of
constructors of the throwable are left out. -/
theorem stackTrace_splits (m : Machine) (ex : Ref) : ∃ fills inits rest,
    Splits filling (activations m.frames) fills (inits ++ rest) ∧ Splits (constructing ex) (inits ++ rest) inits rest ∧
      stackTrace m ex = rest.map (traceElement m) := by
  obtain ⟨fills, outer, hfills⟩ : ∃ fills outer, Splits filling (activations m.frames) fills outer :=
    ⟨_, _, splits_dropWhile _ _⟩
  obtain ⟨inits, rest, hinits⟩ : ∃ inits rest, Splits (constructing ex) outer inits rest := ⟨_, _, splits_dropWhile _ _⟩
  obtain rfl := hinits.whole
  exact ⟨fills, inits, rest, hfills, hinits, stackTrace_of_splits hfills hinits⟩

/-! ## Constructors that only chain -/

/-- The innermost activation goes on, and its method and its first local variable stay. -/
inductive Continues : List Frame → List Frame → Prop
  | intro {a b : Activation} (rest : List Frame) : b.method = a.method → b.locals[0]? = a.locals[0]? →
      Continues (.active a :: rest) (.active b :: rest)

/-- What becomes of the frames in a step while the constructors of an object only chain to others of its constructors and
to methods that fill in its trace. -/
inductive Chains (ex : Ref) : List Frame → List Frame → Prop
  | continues {frames frames' : List Frame} : Continues frames frames' → Chains ex frames frames'
  | constructs {a callee : Activation} {rest frames : List Frame} : Continues (.active a :: rest) frames →
      a.method.isInit = true → constructing ex callee = true → Chains ex (.active a :: rest) (.active callee :: frames)
  | fillsIn {frames frames' : List Frame} {callee : Activation} : Continues frames frames' → filling callee = true →
      Chains ex frames (.active callee :: frames')
  | returns {a : Activation} {frames frames' : List Frame} : Continues frames frames' →
      Chains ex (.active a :: frames) frames'
  | ends {a : Activation} {stack stack' : OperandStack} (rest : List Frame) :
      Chains ex (.active a :: .shim stack :: rest) (.shim stack' :: rest)

/-- Constructors of an object above a call from outside. -/
inductive Constructors (ex : Ref) (base : List Frame) : List Frame → Prop
  | none (stack : OperandStack) : Constructors ex base (.shim stack :: base)
  | cons {a : Activation} {frames : List Frame} : constructing ex a = true → Constructors ex base frames →
      Constructors ex base (.active a :: frames)

/-- Constructors of an object above a call from outside, and above one of them methods that fill in its trace. -/
inductive Building (ex : Ref) (base : List Frame) : List Frame → Prop
  | constructors {frames : List Frame} : Constructors ex base frames → Building ex base frames
  | fills {a b : Activation} {frames : List Frame} : filling a = true → Building ex base (.active b :: frames) →
      Building ex base (.active a :: .active b :: frames)

variable {ex : Ref} {base frames frames' : List Frame}

theorem Continues.running (h : Continues frames frames') :
    ∃ a b rest, frames = .active a :: rest ∧ frames' = .active b :: rest := by
  cases h with
  | intro rest => exact ⟨_, _, rest, rfl, rfl⟩

theorem Chains.running (h : Chains ex frames frames') : ∃ a rest, frames = .active a :: rest := by
  cases h with
  | continues h | fillsIn h =>
    obtain ⟨a, -, rest, ha, -⟩ := h.running
    exact ⟨a, rest, ha⟩
  | constructs | returns | ends => exact ⟨_, _, rfl⟩

/-- No constructor fills in a trace. -/
theorem filling_of_isInit {a : Activation} (h : a.method.isInit = true) : filling a = false := by
  rw [Method.isInit, beq_iff_eq] at h
  rw [filling, h]
  decide

theorem Constructors.continues (h : Constructors ex base frames) (hstep : Continues frames frames') :
    Constructors ex base frames' := by
  cases hstep with
  | intro rest hmethod hlocal =>
    cases h with
    | cons ha hrest =>
      refine .cons ?_ hrest
      rw [constructing, hmethod, hlocal]
      exact ha

theorem Building.continues (h : Building ex base frames) (hstep : Continues frames frames') :
    Building ex base frames' := by
  cases h with
  | constructors hinits => exact .constructors (hinits.continues hstep)
  | fills ha hrest =>
    cases hstep with
    | intro rest hmethod hlocal =>
      refine .fills ?_ hrest
      rw [filling, hmethod]
      exact ha

/-- Chaining goes on with the construction. -/
theorem Building.chains (h : Building ex base frames) (hstep : Chains ex frames frames') : Building ex base frames' := by
  cases hstep with
  | continues hcontinues => exact h.continues hcontinues
  | constructs hcontinues ha hcallee =>
    cases h with
    | constructors hinits => exact .constructors (.cons hcallee (hinits.continues hcontinues))
    | fills hfills _ =>
      rw [filling_of_isInit ha] at hfills
      cases hfills
  | fillsIn hcontinues hcallee =>
    have hbelow := h.continues hcontinues
    cases hcontinues with
    | intro rest _ _ => exact .fills hcallee hbelow
  | returns hcontinues =>
    cases h with
    | constructors hinits =>
      cases hinits with
      | cons _ hbelow => exact .constructors (hbelow.continues hcontinues)
    | fills _ hbelow => exact hbelow.continues hcontinues
  | ends rest =>
    cases h with
    | constructors hinits =>
      cases hinits with
      | cons _ hbelow =>
        cases hbelow with
        | none => exact .constructors (.none _)

theorem Constructors.exists_activations (h : Constructors ex base frames) :
    ∃ inits, activations frames = inits ++ activations base ∧ (∀ a ∈ inits, constructing ex a = true) ∧
      ∀ a rest, frames = .active a :: rest → inits ≠ [] := by
  induction h with
  | none stack => exact ⟨[], rfl, by simp, fun a rest heq => by cases heq⟩
  | @cons a frames ha _ ih =>
    obtain ⟨inits, hwhole, hinits, -⟩ := ih
    exact ⟨a :: inits, congrArg (a :: ·) hwhole, List.forall_mem_cons.2 ⟨ha, hinits⟩,
      fun _ _ _ => List.cons_ne_nil a inits⟩

/-- While an object is constructed, a trace for it shows what is below the call from outside. -/
theorem Building.exists_activations (h : Building ex base frames) :
    ∃ fills inits, activations frames = fills ++ (inits ++ activations base) ∧ (∀ a ∈ fills, filling a = true) ∧
      (∀ a ∈ inits, constructing ex a = true) ∧ ∀ a rest, frames = .active a :: rest → inits ≠ [] := by
  induction h with
  | constructors h =>
    obtain ⟨inits, hwhole, hinits, hne⟩ := h.exists_activations
    exact ⟨[], inits, hwhole, by simp, hinits, hne⟩
  | @fills a b frames ha _ ih =>
    obtain ⟨fills, inits, hwhole, hfills, hinits, hne⟩ := ih
    exact ⟨a :: fills, inits, congrArg (a :: ·) hwhole, List.forall_mem_cons.2 ⟨ha, hfills⟩, hinits,
      fun _ _ _ => hne b frames rfl⟩

theorem Building.stackTrace_eq {m : Machine} (h : Building ex base m.frames)
    (hrunning : ∃ a rest, m.frames = .active a :: rest)
    (hbase : ∀ a, (activations base).head? = some a → constructing ex a = false) :
    stackTrace m ex = (activations base).map (traceElement m) := by
  obtain ⟨a, rest, hframes⟩ := hrunning
  obtain ⟨fills, inits, hwhole, hfills, hinits, hne⟩ := h.exists_activations
  refine stackTrace_of_splits ⟨hwhole, hfills, ?_⟩ ⟨rfl, hinits, hbase⟩
  -- a constructor ends the methods that fill in the trace
  cases inits with
  | nil => exact absurd rfl (hne a rest hframes)
  | cons b inits =>
    rintro x ⟨⟩
    exact filling_of_isInit (Bool.and_eq_true_iff.1 (hinits b List.mem_cons_self)).1

end Throwing

variable {s : Services}

namespace Interpreter

/-! ## Calls that begin -/

/-- A call from outside has got to where its method is to run. -/
def Begins (s : Services) (method : Method) (args : List Slot) (m start : Machine) : Prop :=
  args.length = method.argSlots ∧ ∃ called pushed, recordCall method m = .ok () called ∧
    pushCall args called = .ok true pushed ∧ Execute.enter s method pushed = .ok () start

/-- All that a call from outside does once it has begun is to run. -/
theorem Begins.run_invoke {method : Method} {args : List Slot} {m start : Machine} (h : Begins s method args m start)
    (fuel : Nat) :
    (invoke Natives.standard s fuel method args).run m =
      ensuring (do
        run Natives.standard s fuel
        callResult method m.frames.length) (popTo m.frames.length) start := by
  obtain ⟨hargs, called, pushed, hcalled, hpushed, hentered⟩ := h
  have hframes : called.frames = m.frames := ((keeps_recordCall (R := Kept) m).of_ok hcalled).frames
  have hbody : embedded.body Natives.standard s fuel method args called.frames.length called = (do
      run Natives.standard s fuel
      callResult method called.frames.length) start := by
    rw [embedded.body, run_bind hpushed, if_pos rfl, run_bind hentered]
  rw [invoke, Attempt.run_bind, Attempt.run_lift, hcalled]
  dsimp only
  rw [embedded, if_pos hargs, Attempt.run_bind, Attempt.run_lift]
  change ensuring (embedded.body Natives.standard s fuel method args called.frames.length)
    (popTo called.frames.length) called = _
  rw [ensuring, ensuring, hbody, hframes]

/-- A method whose local variables have room for its arguments begins with them, unless something else is thrown. -/
theorem Begins.frames (hkept : Hosted Kept s) {method : Method} {args : List Slot} {m start : Machine}
    (h : Begins s method args m start) (hlocals : method.argSlots ≤ method.maxLocals) {a : Activation} {rest : List Frame}
    (hrunning : start.frames = .active a :: rest) :
    a.method = method ∧ a.locals.toList = args ++ List.replicate (method.maxLocals - args.length) .null ∧
      ∃ stack, rest = .shim stack :: .barrier :: m.frames := by
  obtain ⟨hargs, called, pushed, hcalled, hpushed, hentered⟩ := h
  have hframes : called.frames = m.frames := ((keeps_recordCall (R := Kept) m).of_ok hcalled).frames
  obtain ⟨carrying, hshim, hcarries⟩ := shim_carries args
  have hbelow : pushed.frames = .shim carrying :: .barrier :: m.frames := by
    have hafter : After (pushCall args) called
        (fun fits b => fits = true → b.frames = .shim carrying :: .barrier :: m.frames) fun _ => True := by
      refine (after_pushCall_frames (fun stack hstack _ _ => ?_) fun b _ hfull => ?_).mono (fun _ _ => id) ?_
      · obtain rfl := Frame.shim.inj (hshim.symm.trans hstack)
        change Frame.shim carrying :: .barrier :: called.frames = _
        rw [hframes]
      · cases hfull
      · exact fun _ _ => trivial
    exact hafter.of_ok hpushed rfl
  rcases (after_enter_frames hkept method pushed).of_ok hentered with hstarted | hthrown
  · obtain ⟨⟨caller, below, given, stack, callee, -, hcaller, hgiven, hmethod, -, hfilled, hresult⟩⟩ := hstarted
    rw [hbelow] at hcaller
    cases hcaller
    obtain ⟨hlength, below, hsplit, -⟩ := hcarries.of_popMany hgiven
    -- the shim has the arguments and nothing below
    have hnone : below = [] := List.eq_nil_of_length_eq_zero (by
      have htotal := congrArg List.length hsplit
      rw [List.length_append] at htotal
      omega)
    rw [hnone, List.nil_append] at hsplit
    subst hsplit
    rw [hresult] at hrunning
    cases hrunning
    exact ⟨hmethod, hfilled ▸ Slots.toList_fill (hargs ▸ hlocals), stack, rfl⟩
  · rcases hthrown.unwinds rfl with ⟨hcalled, -⟩ | hover
    · exact absurd (by rw [hbelow]; rfl) hcalled
    · have hended := hover.ended
      rw [hrunning] at hended
      cases hended

end Interpreter

namespace Throwing

variable {ex : Ref}

/-- Steps lead from a machine to another while the constructors of an object only chain. -/
inductive Chaining (s : Services) (ex : Ref) : Machine → Machine → Prop
  | refl (m : Machine) : Chaining s ex m m
  | step {a b c : Machine} : step Natives.standard s a = .ok () b → Chains ex a.frames b.frames → Chaining s ex b c →
      Chaining s ex a c

theorem Building.chaining {base : List Frame} {a b : Machine} (h : Building ex base a.frames) (hab : Chaining s ex a b) :
    Building ex base b.frames := by
  induction hab with
  | refl m => exact h
  | step _ hchains _ ih => exact ih (h.chains hchains)

theorem Chaining.running {a b : Machine} (hab : Chaining s ex a b) {frames : List Frame}
    (hcontinues : Continues b.frames frames) : ∃ top rest, a.frames = .active top :: rest := by
  cases hab with
  | refl =>
    obtain ⟨top, -, rest, htop, -⟩ := hcontinues.running
    exact ⟨top, rest, htop⟩
  | step _ hchains => exact hchains.running

/-- What a constructor of a new object has begun is the construction of that object. -/
theorem Begins.building (hkept : Hosted Kept s) {constructor : Method} {args : List Slot} {m c start : Machine}
    (hconstructs : Constructs m ex constructor args c) (hlocals : constructor.argSlots ≤ constructor.maxLocals)
    (hbegins : Begins s constructor args c start) {a : Activation} {rest : List Frame}
    (hrunning : start.frames = .active a :: rest) : Building ex (.barrier :: m.frames) start.frames := by
  obtain ⟨hmethod, hlocal, stack, rfl⟩ := hbegins.frames hkept hlocals hrunning
  rw [hrunning, hconstructs.frames]
  refine .constructors (.cons ?_ (.none stack))
  obtain ⟨others, rfl⟩ := List.head?_eq_some_iff.1 hconstructs.receiver
  have hfirst : a.locals[0]? = some (.ref ex) := by
    rw [← Array.getElem?_toList, hlocal]
    rfl
  rw [constructing, hmethod, hconstructs.isInit, hfirst]
  exact beq_self_eq_true _

/-- While the constructors of a new throwable only chain, its trace shows the frames on which it is made. -/
theorem stackTrace_of_chaining (hkept : Hosted Kept s) {constructor : Method} {args : List Slot}
    {m c start m₂ m₃ : Machine} (hconstructs : Constructs m ex constructor args c)
    (hlocals : constructor.argSlots ≤ constructor.maxLocals) (hbegins : Begins s constructor args c start)
    (hchaining : Chaining s ex start m₂) (hcontinues : Continues m₂.frames m₃.frames)
    (htop : ∀ a, (activations m.frames).head? = some a → constructing ex a = false) :
    stackTrace m₃ ex = (activations m.frames).map (traceElement m₃) := by
  obtain ⟨a, rest, hrunning⟩ := hchaining.running hcontinues
  have hbuilding := ((Begins.building hkept hconstructs hlocals hbegins hrunning).chaining hchaining).continues hcontinues
  obtain ⟨-, top, below, -, htopmost⟩ := hcontinues.running
  exact hbuilding.stackTrace_eq ⟨top, below, htopmost⟩ htop

/-- A stack trace leaves out a longest run of frames that fill it in and then a longest run of constructors of the
throwable, and shows all others with their classes, methods, files and lines. The line is that of the entry with the
greatest start that is not above the instruction. While the constructors of an exception only chain that an instruction
raises, its trace starts with the frame that ran the instruction, but for initializers that have not started: they are
there where one did not fit, and then a `StackOverflowError` is raised. Whatever else makes an exception, a native method
among others, its trace starts with the frame that is innermost then. -/
theorem stackTrace_attributed :
    (∀ (m : Machine) (ex : Ref), ∃ fills inits rest,
      Splits filling (activations m.frames) fills (inits ++ rest) ∧ Splits (constructing ex) (inits ++ rest) inits rest ∧
        stackTrace m ex = rest.map fun a => ⟨(m.classAt a.method.owner).javaName, a.method.name,
          (m.classAt a.method.owner).sourceFile, a.method.line a.pc⟩) ∧
    (∀ (method : Method) (pc : Int), if method.isNative then method.line pc = -2 else
      (method.line pc = -1 ∧ ∀ row ∈ method.lines, pc < row.start.toNat) ∨
        ∃ row : LineRow, row.Governs method.lines pc ∧ method.line pc = row.line.toNat) ∧
    (∀ (n : Nat) (i : Instruction) (m : Machine) (a : Activation) (rest : List Frame), i ≠ .native →
      m.frames = .active a :: rest → (∀ r, a.locals[0]?.bind Slot.ref? = some r → r.index < m.heap.size) →
      Raises Natives.standard (services Natives.standard (n + 1)) i m →
      ∃ r c above, (∀ raise, execute Natives.standard ⟨services Natives.standard (n + 1), raise⟩ i m = raise r c) ∧
        Unstarted above ∧ (above ≠ [] → r = .new Throwables.stackOverflow "") ∧
        (∀ name message cause, CallsOnly (services Natives.standard (n + 1))
          (fun s => newThrowable s name message cause) c fun constructor args called =>
            ∃ ex, Constructs c ex constructor args called) ∧
        ∀ ex constructor args called start m₂ m₃, Constructs c ex constructor args called →
          constructor.argSlots ≤ constructor.maxLocals →
          Begins (services Natives.standard n) constructor args called start →
          Chaining (services Natives.standard n) ex start m₂ → Continues m₂.frames m₃.frames →
          stackTrace m₃ ex = (activations above ++ a :: activations rest).map (traceElement m₃)) ∧
    ∀ (n : Nat) (name message : String) (cause : Option Ref) (m : Machine) (a : Activation) (rest : List Frame),
      m.frames = .active a :: rest → (∀ r, a.locals[0]?.bind Slot.ref? = some r → r.index < m.heap.size) →
      CallsOnly (services Natives.standard (n + 1)) (fun s => newThrowable s name message cause) m
        fun constructor args called => ∃ ex, Constructs m ex constructor args called ∧
          (constructor.argSlots ≤ constructor.maxLocals → ∀ start m₂ m₃,
            Begins (services Natives.standard n) constructor args called start →
            Chaining (services Natives.standard n) ex start m₂ → Continues m₂.frames m₃.frames →
            stackTrace m₃ ex = (a :: activations rest).map (traceElement m₃)) := by
  refine ⟨stackTrace_splits, fun method pc => ?_, fun n i m a rest hi hframes hlocal hraises => ?_,
    fun n name message cause m a rest hframes hlocal => ?_⟩
  · split
    · next h => exact method.line_native h pc
    · next h => exact method.line_eq (Bool.not_eq_true _ ▸ h) pc
  · have hkept := (serving_standard (n + 1)).toHosted
    have hheap := (serving_hoarding (n + 1)).toHosted
    obtain ⟨r, c, hprepared, hraised⟩ := prepared_for_raised Natives.standard _ hi hraises
    obtain ⟨above, b, hc, hmethod, hlocals, hpc, habove, hoverflow⟩ := hprepared.frames hkept hframes
    refine ⟨r, c, above, hraised, habove, hoverflow, fun name message cause => ?_, ?_⟩
    · exact callsOnly_newThrowable hkept hheap name message cause c
    · intro ex constructor args called start m₂ m₃ hconstructs hroom hbegins hchaining hcontinues
      have hshown : activations c.frames = activations above ++ b :: activations rest := by
        rw [hc, activations, List.filterMap_append]
        rfl
      have helement (m : Machine) : traceElement m b = traceElement m a := by
        rw [traceElement, traceElement, hmethod, hpc]
      rw [stackTrace_of_chaining (serving_standard n).toHosted hconstructs hroom hbegins hchaining hcontinues ?_, hshown,
        List.map_append, List.map_append, List.map_cons, List.map_cons, helement]
      intro top htop
      rw [hshown] at htop
      cases above with
      | nil =>
        cases htop
        refine constructing_eq_false (m := m) (Nat.le_trans (hprepared.heap hheap) hconstructs.new) ?_
        rw [hlocals]
        exact hlocal
      | cons f above =>
        obtain ⟨method, hclinit, rfl⟩ := habove f List.mem_cons_self
        cases htop
        exact constructing_of_isClinit hclinit _ rfl
  · have hkept := (serving_standard (n + 1)).toHosted
    have hheap := (serving_hoarding (n + 1)).toHosted
    refine (callsOnly_newThrowable hkept hheap name message cause m).mono ?_
    rintro constructor args called ⟨ex, hconstructs⟩
    refine ⟨ex, hconstructs, fun hroom start m₂ m₃ hbegins hchaining hcontinues => ?_⟩
    have hshown : activations m.frames = a :: activations rest := by
      rw [hframes]
      rfl
    rw [stackTrace_of_chaining (serving_standard n).toHosted hconstructs hroom hbegins hchaining hcontinues ?_, hshown]
    rintro top htop
    rw [hshown] at htop
    cases htop
    exact constructing_eq_false hconstructs.new hlocal

end Throwing

/-! ## Programs that fail -/

deriving instance DecidableEq for Activation, Frame

namespace Samples

variable {ex : Ref}

/-- Whether the innermost activation goes on. -/
def continues? : List Frame → List Frame → Bool
  | .active a :: rest, .active b :: rest' => b.method = a.method && b.locals[0]? = a.locals[0]? && rest' = rest
  | _, _ => false

/-- Whether another activation is put on the innermost one while that goes on. -/
def calls? (ex : Ref) : List Frame → List Frame → Bool
  | .active a :: rest, .active callee :: below =>
    continues? (.active a :: rest) below && (filling callee || a.method.isInit && constructing ex callee)
  | _, _ => false

/-- The machine after so many steps, if the constructors of an object only chain in them. -/
def chained? (s : Services) (ex : Ref) : Nat → Machine → Option Machine
  | 0, m => some m
  | n + 1, m =>
    match step Natives.standard s m with
    | .ok () b => if continues? m.frames b.frames || calls? ex m.frames b.frames then chained? s ex n b else none
    | .error .. => none

theorem continues_of_continues? {frames frames' : List Frame} (h : continues? frames frames' = true) :
    Continues frames frames' := by
  unfold continues? at h
  split at h
  · simp only [Bool.and_eq_true, decide_eq_true_eq] at h
    obtain ⟨⟨hmethod, hlocal⟩, rfl⟩ := h
    exact .intro _ hmethod hlocal
  · cases h

theorem chains_of_calls? {frames frames' : List Frame} (h : calls? ex frames frames' = true) :
    Chains ex frames frames' := by
  unfold calls? at h
  split at h
  · rw [Bool.and_eq_true, Bool.or_eq_true, Bool.and_eq_true] at h
    obtain ⟨hcontinues, hfills | ⟨hinit, hconstructs⟩⟩ := h
    · exact .fillsIn (continues_of_continues? hcontinues) hfills
    · exact .constructs (continues_of_continues? hcontinues) hinit hconstructs
  · cases h

theorem chaining_of_chained? {n : Nat} {a b : Machine} (h : chained? s ex n a = some b) : Chaining s ex a b := by
  induction n generalizing a with
  | zero =>
    cases h
    exact .refl _
  | succ n ih =>
    unfold chained? at h
    split at h
    · next c hstep =>
      split at h
      · next hchains =>
        rw [Bool.or_eq_true] at hchains
        refine .step hstep ?_ (ih h)
        rcases hchains with hcontinues | hcalls
        · exact .continues (continues_of_continues? hcontinues)
        · exact chains_of_calls? hcalls
      · cases h
    · cases h

/-- A method has begun where its arguments fit. -/
theorem begins_of_ok {method : Method} {args : List Slot} {m start : Machine} (hargs : args.length = method.argSlots)
    (h : (do
      recordCall method
      if ← pushCall args then Execute.enter s method else throw .stuck : M Unit) m = .ok () start) :
    Begins s method args m start := by
  refine ⟨hargs, ?_⟩
  rw [bind_apply] at h
  split at h
  · next called hcalled =>
    rw [bind_apply] at h
    split at h
    · next fits pushed hpushed =>
      cases fits with
      | true => exact ⟨called, pushed, hcalled, hpushed, h⟩
      | false => cases h
    · cases h
  · cases h

/-- What can be thrown. Its constructor fills in the stack trace. -/
def throwable : ClassSource := {
  name := "java/lang/Throwable"
  methods := [
    { flags := 1, name := Method.initName, desc := "()V", maxLocals := some 1, maxStack := some 1
      body := some [.plain .aload_0,
        .invoke .invokevirtual "java/lang/Throwable" "fillInStackTrace" "()Ljava/lang/Throwable;", .plain .pop,
        .plain .vreturn] },
    { flags := 257, name := "fillInStackTrace", desc := "()Ljava/lang/Throwable;" }] }

/-- An exception, whose constructor calls that of what can be thrown. -/
def exception (name : String) : ClassSource := {
  name, super := "java/lang/Throwable"
  methods := [
    { flags := 1, name := Method.initName, desc := "()V", maxLocals := some 1, maxStack := some 1
      body := some [.plain .aload_0, .invoke .invokespecial "java/lang/Throwable" Method.initName "()V",
        .plain .vreturn] }] }

/-- A method takes the length of an array that is not there. -/
def measuring : Activation where
  method := { owner := sample 2, flags := ⟨9⟩, name := "measure", desc := "()V", maxStack := 1 }
  locals := #[]
  stack := ⟨#[.null], 1⟩
  pc := 0

/-- The machine that runs it, with the exception that it raises among its classes. -/
def lacking : Machine :=
  (run 8 [throwable, exception Throwables.nullPointer, idle "User" Machine.objectName] []).withFrames [.active measuring]

/-- A method makes an object of a class that has to be initialized. -/
def needy : Activation := { creator (sample 4) with pc := 0, nextPc := 3 }

/-- There is room for the initializer of the class, but not for that of its superclass. -/
def cramped : Machine :=
  (run 2 [throwable, exception Throwables.stackOverflow, idle "Parent" Machine.objectName, idle "Child" "Parent",
    making "User" Machine.objectName "Child"] []).withFrames [.active needy]

/-- The machine in which an instruction raises something. -/
def raisedIn (i : Instruction) (m : Machine) : Machine :=
  match execute Natives.standard ⟨services Natives.standard 12, fun _ => throw .stuck⟩ i m with
  | .ok _ b => b
  | .error _ b => b

/-- The name of the class of which something new is raised. -/
def naming : Raise → M Unit
  | .new name message => fatal (name ++ message)
  | _ => throw .stuck

/-- The machine in which a constructor of a new exception without a message is called. -/
def calledIn (name : String) (c : Machine) : Machine :=
  match newThrowable.build { services Natives.standard 12 with invoke := fun _ _ => throw (m := M) Halt.stuck } name "" none
    { c with overflowing := true } with
  | .ok _ b => b
  | .error _ b => b

/-- The constructor without arguments of a class. -/
def plainConstructor (m : Machine) (k : ClassId) : Method := ((m.classAt k).findMethod Method.initName "()V").getD default

/-- What a function finds when so many steps of a constructor were made, and constructors only chain in them. -/
def built? {β : Type} (s : Services) (constructor : Method) (ex : Ref) (n : Nat) (called : Machine) (f : Machine → β) :
    Option β :=
  match (do
      recordCall constructor
      if ← pushCall [.ref ex] then Execute.enter s constructor else throw .stuck : M Unit) called with
  | .ok () start => (chained? s ex n start).map f
  | .error .. => none

theorem exists_of_built? {β : Type} {constructor : Method} {n : Nat} {called : Machine} {f : Machine → β} {v : β}
    (hargs : [Slot.ref ex].length = constructor.argSlots) (h : built? s constructor ex n called f = some v) :
    ∃ start m₂, Begins s constructor [.ref ex] called start ∧ Chaining s ex start m₂ ∧ f m₂ = v := by
  unfold built? at h
  split at h
  · next start hbegun =>
    obtain ⟨m₂, hchained, hv⟩ := Option.map_eq_some_iff.1 h
    exact ⟨start, m₂, begins_of_ok hargs hbegun, chaining_of_chained? hchained, hv⟩
  · cases h

theorem constructs_next {c called : Machine} {constructor : Method} (hinit : constructor.isInit)
    (hframes : called.frames = c.frames) : Constructs c ⟨c.heap.size⟩ constructor [.ref ⟨c.heap.size⟩] called :=
  ⟨hinit, rfl, Nat.le_refl _, hframes⟩

/-- Something is raised where it makes a difference. -/
theorem raises_of_lastWords {i : Instruction} {m : Machine} {text : String}
    (h : lastWords? (execute Natives.standard ⟨services Natives.standard 12, naming⟩ i) m = some text)
    (h' : lastWords? (execute Natives.standard ⟨services Natives.standard 12, fun _ => throw .stuck⟩ i) m = none) :
    Raises Natives.standard (services Natives.standard 12) i m := by
  rintro ⟨result, hresult⟩
  rw [lastWords?, hresult] at h h'
  cases h.symm.trans h'

end Samples

open Samples in
/-- The array that is not there is blamed on the method that takes its length. -/
theorem Throwing.stackTrace_attributed_lacking :
    let c := raisedIn .arrayLength lacking
    let called := calledIn Throwables.nullPointer c
    let constructor := plainConstructor called (sample 1)
    let ex : Ref := ⟨c.heap.size⟩
    Raises Natives.standard (services Natives.standard 12) .arrayLength lacking ∧
      Constructs c ex constructor [.ref ex] called ∧
      ∃ start m₂, Begins (services Natives.standard 11) constructor [.ref ex] called start ∧
        Chaining (services Natives.standard 11) ex start m₂ ∧
        (activations m₂.frames).map (fun a => a.method.name) = ["fillInStackTrace", "<init>", "<init>", "measure"] ∧
        stackTrace m₂ ex = [traceElement m₂ measuring] := by
  intro c called constructor ex
  have hfound : lastWords? (execute Natives.standard ⟨services Natives.standard 12, naming⟩ .arrayLength) lacking =
        some Throwables.nullPointer ∧
      lastWords? (execute Natives.standard ⟨services Natives.standard 12, fun _ => throw .stuck⟩ .arrayLength) lacking =
        none ∧
      constructor.isInit = true ∧ [Slot.ref ex].length = constructor.argSlots ∧
      constructor.argSlots ≤ constructor.maxLocals ∧ called.frames = c.frames ∧
      built? (services Natives.standard 11) constructor ex 4 called
        (fun m => ((activations m.frames).map fun a => a.method.name, continues? m.frames m.frames)) =
        some (["fillInStackTrace", "<init>", "<init>", "measure"], true) := by decide +kernel
  obtain ⟨hname, hhalted, hinit, hargs, hroom, hframes, hbuilt⟩ := hfound
  have hraises : Raises Natives.standard (services Natives.standard 12) .arrayLength lacking :=
    raises_of_lastWords hname hhalted
  obtain ⟨start, m₂, hbegins, hchaining, hfound⟩ := exists_of_built? hargs hbuilt
  obtain ⟨hmethods, hcontinues⟩ := Prod.mk.inj hfound
  have hconstructs : Constructs c ex constructor [.ref ex] called := constructs_next hinit hframes
  obtain ⟨r, c', above, hraised, -, hoverflow, -, htrace⟩ :=
    stackTrace_attributed.2.2.1 11 .arrayLength lacking measuring [] (by simp) rfl (by simp [measuring]) hraises
  have hc : c = c' := by
    change raisedIn .arrayLength lacking = c'
    rw [raisedIn, hraised]
    rfl
  have hnone : above = [] := by
    by_contra hne
    rw [lastWords?, hraised, hoverflow hne] at hname
    change some (Throwables.stackOverflow ++ "") = some Throwables.nullPointer at hname
    exact absurd hname (by decide)
  subst hnone
  refine ⟨hraises, hconstructs, start, m₂, hbegins, hchaining, hmethods, ?_⟩
  rw [hc] at hconstructs
  exact htrace ex constructor _ called start m₂ m₂ hconstructs hroom hbegins hchaining (continues_of_continues? hcontinues)

open Samples in
/-- An initializer that has not started comes before the frame that ran the instruction. -/
theorem Throwing.unstarted_initializer_shown_first :
    let c := raisedIn (.new 6) cramped
    let called := calledIn Throwables.stackOverflow c
    let constructor := plainConstructor called (sample 1)
    let ex : Ref := ⟨c.heap.size⟩
    cramped.frames = [.active needy] ∧
      (∀ raise, execute Natives.standard ⟨services Natives.standard 12, raise⟩ (.new 6) cramped =
        raise (.new Throwables.stackOverflow "") c) ∧
      Constructs c ex constructor [.ref ex] called ∧
      ∃ start m₂, Begins (services Natives.standard 11) constructor [.ref ex] called start ∧
        Chaining (services Natives.standard 11) ex start m₂ ∧
        (activations m₂.frames).map (fun a => a.method.name) =
          ["fillInStackTrace", "<init>", "<init>", "<clinit>", "create"] ∧
        stackTrace m₂ ex = [⟨"Child", "<clinit>", "", -1⟩, ⟨"User", "create", "", -1⟩] ∧
        (stackTrace m₂ ex).head? ≠ some (traceElement m₂ needy) := by
  have hfound :
      let c := raisedIn (.new 6) cramped
      let called := calledIn Throwables.stackOverflow c
      let constructor := plainConstructor called (sample 1)
      let ex : Ref := ⟨c.heap.size⟩
      lastWords? (execute Natives.standard ⟨services Natives.standard 12, naming⟩ (.new 6)) cramped =
        some Throwables.stackOverflow ∧
      lastWords? (execute Natives.standard ⟨services Natives.standard 12, fun _ => throw .stuck⟩ (.new 6)) cramped =
        none ∧
      c.frames.length = 2 ∧ constructor.isInit = true ∧ [Slot.ref ex].length = constructor.argSlots ∧
      called.frames = c.frames ∧
      built? (services Natives.standard 11) constructor ex 4 called (fun m =>
        ((activations m.frames).map (fun a => a.method.name), stackTrace m ex, traceElement m needy)) =
        some (["fillInStackTrace", "<init>", "<init>", "<clinit>", "create"],
          [⟨"Child", "<clinit>", "", -1⟩, ⟨"User", "create", "", -1⟩], ⟨"User", "create", "", -1⟩) := by decide +kernel
  intro c called constructor ex
  obtain ⟨hname, hhalted, hlength, hinit, hargs, hsame, hbuilt⟩ := hfound
  have hraises : Raises Natives.standard (services Natives.standard 12) (.new 6) cramped :=
    raises_of_lastWords hname hhalted
  obtain ⟨r, c', hprepared, hraised⟩ := prepared_for_raised Natives.standard _ (by simp) hraises
  have hc : c' = c := by
    change c' = raisedIn (.new 6) cramped
    rw [raisedIn, hraised]
    rfl
  rw [hc] at hraised hprepared
  obtain ⟨above, b, hframes, -, -, -, -, hoverflow⟩ :=
    hprepared.frames (serving_standard 12).toHosted (show cramped.frames = [.active needy] from rfl)
  have hr := hoverflow (by
    rintro rfl
    rw [hframes] at hlength
    cases hlength)
  subst hr
  obtain ⟨start, m₂, hbegins, hchaining, hfound⟩ := exists_of_built? hargs hbuilt
  simp only [Prod.mk.injEq] at hfound
  obtain ⟨hmethods, htrace, helement⟩ := hfound
  have hconstructs : Constructs c ex constructor [.ref ex] called := constructs_next hinit hsame
  refine ⟨rfl, hraised, hconstructs, start, m₂, hbegins, hchaining, hmethods, htrace, ?_⟩
  rw [htrace, helement]
  decide

end JavaMachine
