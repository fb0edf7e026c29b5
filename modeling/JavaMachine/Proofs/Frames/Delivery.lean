import JavaMachine.Proofs.Fields.Operands
import JavaMachine.Proofs.Frames.Answers

/-!
Where an exception goes that is thrown. The frames of the machine are walked from the innermost on. A frame `Declines`
the exception if it has not started or no row of its handlers matches, and is taken away then; if the running thread
was initializing the class of its method by it, the class is erroneous and the exception may be replaced (`Escapes`).
A frame `Catches` it by the first row that matches. Main result: if the operations that the walk starts end, the
throw ends with the exception at the first frame that catches it, or pending where no frame runs code
(`throwObject_arrives`).
-/

namespace JavaMachine

open M Throwing

variable {s : Services} {m x : Machine}

/-! ## Actions that end -/

/-- An action ends with a value. -/
def M.Finishes {α : Type} (act : M α) (m : Machine) : Prop := ∃ a m', act m = .ok a m'

theorem M.Finishes.after {α : Type} {act : M α} {Q : α → Machine → Prop} {H : Machine → Prop} (h : Finishes act m)
    (hq : ∀ a m', act m = .ok a m' → Q a m') : After act m Q H := by
  obtain ⟨a, m', hok⟩ := h
  rw [After, hok]
  exact hq a m' hok

theorem M.after_any {α : Type} (act : M α) (m : Machine) : After act m (fun _ _ => True) fun _ => True := by
  unfold After
  split <;> trivial

/-- What holds after an action that cannot halt. -/
theorem M.After.exists_ok {α : Type} {act : M α} {Q : α → Machine → Prop} (h : After act m Q fun _ => False) :
    ∃ a m', act m = .ok a m' ∧ Q a m' := by
  unfold After at h
  split at h
  · next a m' hok => exact ⟨a, m', hok, h⟩
  · exact h.elim

/-! ## Rows of handlers -/

/-- The class of a row is looked for from the class of the method. -/
abbrev Activation.catchClass (s : Services) (a : Activation) (h : Handler) : Attempt ClassId :=
  Resolution.classEntry s a.method.owner h.catchType.toNat

/-- A row does not match an exception: it does not cover the instruction, its class does not resolve, or the exception
is not of that class. -/
inductive Mismatches (s : Services) (a : Activation) (exception : Ref) (h : Handler) : Machine → Machine → Prop
  | apart {m : Machine} : ¬ h.covers a.pc → Mismatches s a exception h m m
  | unresolved {m m' : Machine} {f : Failure} : h.covers a.pc → h.catchType ≠ 0 →
      (a.catchClass s h).run m = .ok (.error f) m' → Mismatches s a exception h m m'
  | other {m m' : Machine} {c : ClassId} : h.covers a.pc → h.catchType ≠ 0 →
      (a.catchClass s h).run m = .ok (.ok c) m' → ¬ m'.isAssignable c (m'.classOf exception) →
      Mismatches s a exception h m m'

/-- A row matches an exception: it covers the instruction, and takes any exception or has resolved to a class that the
exception is of. -/
inductive Matches (s : Services) (a : Activation) (exception : Ref) (h : Handler) : Machine → Machine → Prop
  | any {m : Machine} : h.covers a.pc → h.catchType = 0 → Matches s a exception h m m
  | resolved {m m' : Machine} {c : ClassId} : h.covers a.pc → h.catchType ≠ 0 →
      (a.catchClass s h).run m = .ok (.ok c) m' → m'.isAssignable c (m'.classOf exception) →
      Matches s a exception h m m'

/-- Rows that do not match, one after the other. -/
inductive MismatchAll (s : Services) (a : Activation) (exception : Ref) : List Handler → Machine → Machine → Prop
  | nil {m : Machine} : MismatchAll s a exception [] m m
  | cons {h : Handler} {rest : List Handler} {m m' m'' : Machine} : Mismatches s a exception h m m' →
      MismatchAll s a exception rest m' m'' → MismatchAll s a exception (h :: rest) m m''

/-- A frame that has started catches an exception: a row matches after those that do not. -/
def Catches (s : Services) (a : Activation) (exception : Ref) (entry : Nat) (m m' : Machine) : Prop :=
  0 ≤ a.pc ∧ ∃ before h after x, a.method.handlers = before ++ h :: after ∧
    MismatchAll s a exception before m x ∧ Matches s a exception h x m' ∧ h.entry = entry

/-- A frame has no handler for an exception, or has not started. -/
def Declines (s : Services) (a : Activation) (exception : Ref) (m m' : Machine) : Prop :=
  a.pc < 0 ∧ m' = m ∨ 0 ≤ a.pc ∧ MismatchAll s a exception a.method.handlers m m'

/-! ## Failed initializations -/

/-- The exception is not of the class `Error`, which is loaded for that. -/
def IsNoError (s : Services) (exception : Ref) (m x : Machine) : Prop :=
  ∃ c, (s.loadBoot "java/lang/Error").run m = .ok (.ok c) x ∧ ¬ x.isAssignable c (x.classOf exception)

/-- The class to wrap an exception with is loaded, and has a constructor for it. -/
def HasWrapper (s : Services) (exception : Ref) (m : Machine) (wrapper : ClassId) (constructor : Method)
    (y : Machine) : Prop :=
  ∃ x, IsNoError s exception m x ∧ (s.loadBoot Throwables.inInitializer).run x = .ok (.ok wrapper) y ∧
    (y.classAt wrapper).findMethod Method.initName "(Ljava/lang/Throwable;)V" = some constructor

/-- The class to wrap an exception with is ready. -/
def ReadyWrapper (s : Services) (exception : Ref) (m : Machine) (wrapper : ClassId) (constructor : Method)
    (y : Machine) : Prop :=
  ∃ x, HasWrapper s exception m wrapper constructor x ∧ (s.initClass wrapper).run x = .ok (.ok ()) y

/-- The object to wrap an exception with is there, and its constructor is to be called. -/
def NewWrapper (s : Services) (exception : Ref) (m : Machine) (constructor : Method) (object : Ref)
    (y : Machine) : Prop :=
  ∃ wrapper x, ReadyWrapper s exception m wrapper constructor x ∧ newObject wrapper x = .ok object y

/-- What becomes of an exception that escapes from an initializer. One that is no `Error` is wrapped, where that can be
done, and the exception of the constructor that wraps it comes in its place. -/
inductive Escapes (s : Services) (exception : Ref) (m : Machine) : Ref → Machine → Prop
  | unknown {f : Failure} {x : Machine} : (s.loadBoot "java/lang/Error").run m = .ok (.error f) x →
      Escapes s exception m exception x
  | error {c : ClassId} {x : Machine} : (s.loadBoot "java/lang/Error").run m = .ok (.ok c) x →
      x.isAssignable c (x.classOf exception) → Escapes s exception m exception x
  | missing {f : Failure} {x y : Machine} : IsNoError s exception m x →
      (s.loadBoot Throwables.inInitializer).run x = .ok (.error f) y → Escapes s exception m exception y
  | bare {wrapper : ClassId} {x y : Machine} : IsNoError s exception m x →
      (s.loadBoot Throwables.inInitializer).run x = .ok (.ok wrapper) y →
      (y.classAt wrapper).findMethod Method.initName "(Ljava/lang/Throwable;)V" = none →
      Escapes s exception m exception y
  | unready {wrapper : ClassId} {constructor : Method} {f : Failure} {x y : Machine} :
      HasWrapper s exception m wrapper constructor x → (s.initClass wrapper).run x = .ok (.error f) y →
      Escapes s exception m exception y
  | wrapped {constructor : Method} {object : Ref} {slots : List Slot} {x y : Machine} :
      NewWrapper s exception m constructor object x →
      (s.invoke constructor [.ref object, .ref exception]).run x = .ok (.ok slots) y → Escapes s exception m object y
  | replaced {constructor : Method} {object thrown : Ref} {f : Failure} {x y : Machine} :
      NewWrapper s exception m constructor object x →
      (s.invoke constructor [.ref object, .ref exception]).run x = .ok (.error f) y →
      f.thrown? = some (some thrown) → Escapes s exception m thrown y
  | unwrapped {constructor : Method} {object : Ref} {f : Failure} {x y : Machine} :
      NewWrapper s exception m constructor object x →
      (s.invoke constructor [.ref object, .ref exception]).run x = .ok (.error f) y →
      f.thrown? = none → Escapes s exception m exception y

/-- The running thread is initializing a class by a method. -/
def Machine.IsInitializingBy (m : Machine) (method : Method) : Prop :=
  method.isClinit ∧ (m.classAt method.owner).state = .initializing m.current

/-- The machine after an initialization has failed. -/
def Machine.failed (m : Machine) (c : ClassId) : Machine := m.enter c .erroneous (.state c .erroneous)

/-- What goes on when the frame of a method is taken away for an exception: the exception, unless it escapes from an
initialization, which fails with it. -/
inductive Leaves (s : Services) (method : Method) (exception : Ref) (m : Machine) : Ref → Machine → Prop
  | plain : ¬ m.IsInitializingBy method → Leaves s method exception m exception m
  | failed {exception' : Ref} {m' : Machine} : m.IsInitializingBy method →
      Escapes s exception (m.failed method.owner) exception' m' → Leaves s method exception m exception' m'

/-! ## The walk -/

/-- The innermost frames are taken away for an exception, since each declines what has come to it. -/
inductive Passes (s : Services) : List Activation → Ref → Machine → Ref → Machine → Prop
  | nil {exception : Ref} {m : Machine} : Passes s [] exception m exception m
  | cons {a : Activation} {above : List Activation} {rest : List Frame} {exception exception' last : Ref}
      {m x y z : Machine} : m.frames = .active a :: rest → Declines s a exception m x →
      Leaves s a.method exception { x with frames := rest } exception' y →
      Passes s above exception' y last z → Passes s (a :: above) exception m last z

/-- The operations that wrapping an exception starts, with the machines they start on. -/
inductive Wraps (s : Services) (exception : Ref) (m : Machine) : {β : Type} → M β → Machine → Prop
  | error : Wraps s exception m (s.loadBoot "java/lang/Error").run m
  | test {c : ClassId} {x : Machine} : (s.loadBoot "java/lang/Error").run m = .ok (.ok c) x →
      Wraps s exception m (isInstance exception c) x
  | wrapper {x : Machine} : IsNoError s exception m x →
      Wraps s exception m (s.loadBoot Throwables.inInitializer).run x
  | initialization {wrapper : ClassId} {constructor : Method} {x : Machine} :
      HasWrapper s exception m wrapper constructor x → Wraps s exception m (s.initClass wrapper).run x
  | creation {wrapper : ClassId} {constructor : Method} {x : Machine} :
      ReadyWrapper s exception m wrapper constructor x → Wraps s exception m (newObject wrapper) x
  | construction {constructor : Method} {object : Ref} {x : Machine} : NewWrapper s exception m constructor object x →
      Wraps s exception m (s.invoke constructor [.ref object, .ref exception]).run x

/-- The operations that an exception starts at the innermost frame, with the machines they start on: the class of a row
is resolved, the exception is tested for that class, or it is wrapped as it leaves an initializer. -/
inductive Asks (s : Services) (exception : Ref) (m : Machine) : {β : Type} → M β → Machine → Prop
  | resolution {a : Activation} {rest : List Frame} {before after : List Handler} {h : Handler} {x : Machine} :
      m.frames = .active a :: rest → 0 ≤ a.pc → a.method.handlers = before ++ h :: after →
      MismatchAll s a exception before m x → h.covers a.pc → h.catchType ≠ 0 →
      Asks s exception m (a.catchClass s h).run x
  | test {a : Activation} {rest : List Frame} {before after : List Handler} {h : Handler} {c : ClassId} {x y : Machine} :
      m.frames = .active a :: rest → 0 ≤ a.pc → a.method.handlers = before ++ h :: after →
      MismatchAll s a exception before m x → h.covers a.pc → h.catchType ≠ 0 →
      (a.catchClass s h).run x = .ok (.ok c) y → Asks s exception m (isInstance exception c) y
  | wrapping {a : Activation} {rest : List Frame} {x y : Machine} {β : Type} {act : M β} :
      m.frames = .active a :: rest → Declines s a exception m x →
      ({ x with frames := rest } : Machine).IsInitializingBy a.method →
      Wraps s exception ({ x with frames := rest }.failed a.method.owner) act y → Asks s exception m act y

/-- All operations end that an exception starts on its way through the frames. Tests do so unless the class of the exception
is one of arrays or has no name (`finishes_isInstance`). -/
def Unhindered (s : Services) (exception : Ref) (m : Machine) : Prop :=
  ∀ above exception' x, Passes s above exception m exception' x →
    ∀ {β : Type} (act : M β) y, Asks s exception' x act y → Finishes act y

/-- How the walk ends: the frame that catches the exception goes on at its handler with nothing else on its stack, or
the exception is pending since the innermost frame runs no code. -/
inductive Arrives (s : Services) (exception : Ref) (m : Machine) : Machine → Prop
  | caught {a : Activation} {rest : List Frame} {entry : Nat} {x : Machine} {stack : OperandStack} :
      m.frames = .active a :: rest → Catches s a exception entry m x → stack.Carries [.ref exception] →
      stack.slots.size = a.stack.slots.size →
      Arrives s exception m { x with frames := .active { a with stack, nextPc := entry } :: rest }
  | pending : (∀ a rest, m.frames ≠ .active a :: rest) → Arrives s exception m { m with pending := some exception }

/-! ## Search -/

/-- A test whether an object is of a class ends if the class of the object has a name and is not one of arrays. -/
theorem finishes_isInstance {r : Ref} (hname : (m.classAt (m.classOf r)).name ≠ "")
    (hplain : (m.classAt (m.classOf r)).isArray = false) (c : ClassId) : Finishes (isInstance r c) m := by
  have hhalt : m.testHalt? c (m.classOf r) = none := Machine.testHalt?_of_plain hname hplain c
  have hrun : isInstance r c m = (do haltFor (m.testHalt? c (m.classOf r)); pure (m.isAssignable c (m.classOf r))) m := rfl
  rw [Finishes, hrun, hhalt]
  exact ⟨_, _, rfl⟩

/-- What holds after a test that ends. -/
theorem after_isInstance_of_finishes {r : Ref} {c : ClassId} {Q : Bool → Machine → Prop} {H : Machine → Prop}
    (h : Finishes (isInstance r c) m) (hq : Q (m.isAssignable c (m.classOf r)) m) : After (isInstance r c) m Q H :=
  h.after fun fits m' hok => by
    obtain ⟨rfl, -, rfl⟩ := After.of_ok (after_isInstance r c m) hok
    exact hq

theorem MismatchAll.frames (hs : Hosted Kept s) {a : Activation} {exception : Ref} {rows : List Handler}
    (h : MismatchAll s a exception rows m x) : x.frames = m.frames := by
  induction h with
  | nil => rfl
  | cons hrow _ ih =>
    refine ih.trans ?_
    cases hrow with
    | apart => rfl
    | unresolved _ _ hclass => exact (After.of_ok (hs.classEntry _ _ _) hclass).frames
    | other _ _ hclass => exact (After.of_ok (hs.classEntry _ _ _) hclass).frames

theorem Catches.frames (hs : Hosted Kept s) {a : Activation} {exception : Ref} {entry : Nat}
    (h : Catches s a exception entry m x) : x.frames = m.frames := by
  obtain ⟨-, before, row, after, y, -, hbefore, hmatches, -⟩ := h
  refine Eq.trans ?_ (hbefore.frames hs)
  cases hmatches with
  | any => rfl
  | resolved _ _ hclass => exact (After.of_ok (hs.classEntry _ _ _) hclass).frames

/-- The search ends with the entry of the first row that matches. -/
theorem after_findHandler {a : Activation} {exception : Ref} (rows : List Handler)
    (hends : ∀ before h after y, rows = before ++ h :: after → MismatchAll s a exception before m y →
      h.covers a.pc → h.catchType ≠ 0 → Finishes (a.catchClass s h).run y)
    (htests : ∀ before h after y c z, rows = before ++ h :: after → MismatchAll s a exception before m y →
      h.covers a.pc → h.catchType ≠ 0 → (a.catchClass s h).run y = .ok (.ok c) z → Finishes (isInstance exception c) z) :
    After (findHandler s a exception rows) m
      (fun r y => match r with
        | none => MismatchAll s a exception rows m y
        | some entry => ∃ before h after x, rows = before ++ h :: after ∧ MismatchAll s a exception before m x ∧
            Matches s a exception h x y ∧ h.entry = entry)
      fun _ => False := by
  induction rows generalizing m with
  | nil => exact .nil
  | cons row rest ih =>
    -- a row that does not match comes before those that the rest of the search passes
    have hskip (x : Machine) (hrow : Mismatches s a exception row m x) :
        After (findHandler s a exception rest) x
          (fun r y => match r with
            | none => MismatchAll s a exception (row :: rest) m y
            | some entry => ∃ before h after x, row :: rest = before ++ h :: after ∧
                MismatchAll s a exception before m x ∧ Matches s a exception h x y ∧ h.entry = entry)
          fun _ => False := by
      refine (ih (fun before h after y hrows hbefore => ?_) fun before h after y c z hrows hbefore => ?_).mono
        (fun r y hr => ?_) fun _ => id
      · exact hends (row :: before) h after y (congrArg _ hrows) (.cons hrow hbefore)
      · exact htests (row :: before) h after y c z (congrArg _ hrows) (.cons hrow hbefore)
      · cases r with
        | none => exact .cons hrow hr
        | some entry =>
          obtain ⟨before, h, after, z, hrows, hbefore, hmatches, hentry⟩ := hr
          exact ⟨row :: before, h, after, z, congrArg _ hrows, .cons hrow hbefore, hmatches, hentry⟩
    rw [findHandler]
    split
    · next hcovers => exact hskip m (.apart (by simpa using hcovers))
    · next hcovers =>
      have hcovers : row.covers a.pc := by simpa using hcovers
      split
      · next hany => exact ⟨[], row, rest, m, rfl, .nil, .any hcovers hany, rfl⟩
      · next hcatch =>
        rw [after_bind_iff]
        refine (hends [] row rest m rfl .nil hcovers hcatch).after fun r x hclass => ?_
        cases r with
        | error f => exact hskip x (.unresolved hcovers hcatch hclass)
        | ok c =>
          rw [after_bind_iff]
          refine after_isInstance_of_finishes (htests [] row rest m c x rfl .nil hcovers hcatch hclass) ?_
          split
          · next hinstance => exact ⟨[], row, rest, m, rfl, .nil, .resolved hcovers hcatch hclass hinstance, rfl⟩
          · next hinstance => exact hskip x (.other hcovers hcatch hclass hinstance)

/-! ## Leaving frames -/

/-- A result does not stand for the throw of null. -/
def NonNull {α : Type} (r : Except Failure α) : Prop := ∀ f, r = .error f → f.thrown? ≠ some none

/-- No call fails with the throw of null. -/
def Services.ThrowsObjects (s : Services) : Prop :=
  ∀ method args m r m', (s.invoke method args).run m = .ok r m' → NonNull r

/-- An exception that escapes from an initializer goes on, or another in its place. -/
theorem after_escaping (hs : s.ThrowsObjects) {exception : Ref}
    (hends : ∀ {β : Type} (act : M β) y, Wraps s exception m act y → Finishes act y) :
    After (escaping s exception) m (Escapes s exception m) fun _ => False := by
  rw [escaping, after_bind_iff]
  refine (hends _ _ .error).after fun r x herror => ?_
  cases r with
  | error f => exact .unknown herror
  | ok c =>
    rw [after_bind_iff]
    refine after_isInstance_of_finishes (hends _ _ (.test herror)) ?_
    split
    · next hinstance => exact .error herror hinstance
    · next hinstance =>
      have hno : IsNoError s exception m x := ⟨c, herror, hinstance⟩
      rw [after_bind_iff]
      refine (hends _ _ (.wrapper hno)).after fun r y hwrapper => ?_
      cases r with
      | error f => exact .missing hno hwrapper
      | ok wrapper =>
        rw [after_bind_iff, after_classAt]
        cases hfind : (y.classAt wrapper).findMethod Method.initName "(Ljava/lang/Throwable;)V" with
        | none => exact .bare hno hwrapper hfind
        | some constructor =>
          have hhas : HasWrapper s exception m wrapper constructor y := ⟨x, hno, hwrapper, hfind⟩
          rw [after_bind_iff]
          refine (hends _ _ (.initialization hhas)).after fun r z hinit => ?_
          cases r with
          | error f => exact .unready hhas hinit
          | ok _ =>
            have hready : ReadyWrapper s exception m wrapper constructor z := ⟨y, hhas, hinit⟩
            rw [after_bind_iff]
            refine (hends _ _ (.creation hready)).after fun object u hobject => ?_
            have hnew : NewWrapper s exception m constructor object u := ⟨wrapper, z, hready, hobject⟩
            rw [after_bind_iff]
            refine (hends _ _ (.construction hnew)).after fun r v hinvoke => ?_
            cases r with
            | ok slots => exact .wrapped hnew hinvoke
            | error f =>
              dsimp only
              cases hthrown : f.thrown? with
              | none => exact .unwrapped hnew hinvoke hthrown
              | some thrown =>
                cases thrown with
                | none => exact absurd hthrown (hs _ _ _ _ _ hinvoke f rfl)
                | some r => exact .replaced hnew hinvoke hthrown

/-- The frame is taken away, and the exception goes on from an initialization that fails with it. -/
theorem leaves_leave (hs : Hosted Kept s) (hthrows : s.ThrowsObjects) {method : Method} {exception : Ref} {f : Frame}
    {rest : List Frame} (hm : m.frames = f :: rest)
    (hends : ({ m with frames := rest } : Machine).IsInitializingBy method → ∀ {β : Type} (act : M β) y,
      Wraps s exception ({ m with frames := rest }.failed method.owner) act y → Finishes act y) :
    After (leave s method exception) m
      (fun r y => Leaves s method exception { m with frames := rest } r y ∧ y.frames = rest) fun _ => False := by
  rw [leave, after_bind_iff]
  refine after_popFrame_of hm ?_
  simp only [isInitializing, after_bind_iff, after_get, after_pure]
  have hinitializing : (method.isClinit && ({ m with frames := rest }.classAt method.owner).state ==
      .initializing m.current) ↔ ({ m with frames := rest } : Machine).IsInitializingBy method := by
    simp [Machine.IsInitializingBy]
  split
  · next hfails =>
    have hby := hinitializing.1 hfails
    rw [failInitialization, finishInit, setState, after_bind_iff, after_modify]
    obtain ⟨r, y, hok, hescapes⟩ := (after_escaping hthrows (hends hby)).exists_ok
    have hframes := (After.of_ok (kept_escaping hs exception _) hok).frames
    change escaping s exception _ = _ at hok
    exact Finishes.after ⟨r, y, hok⟩ fun r' y' hok' => by
      cases hok.symm.trans hok'
      exact ⟨.failed hby hescapes, hframes⟩
  · next hfails => exact ⟨.plain fun hby => hfails (hinitializing.2 hby), rfl⟩

/-! ## Delivery -/

/-- A frame that catches the exception goes on at the handler. -/
theorem after_deliver {a : Activation} {rest : List Frame} (hm : m.frames = .active a :: rest)
    (hroom : 1 ≤ a.stack.slots.size) (exception : Ref) (entry : Nat) :
    After (do
        onStack do
          OperandStack.clear
          OperandStack.pushRef (some exception)
        updateActivation fun a => { a with nextPc := entry }) m
      (fun _ y => ∃ stack : OperandStack, stack.Carries [.ref exception] ∧ stack.slots.size = a.stack.slots.size ∧
        y = { m with frames := .active { a with stack, nextPc := entry } :: rest })
      fun _ => False := by
  have hsize : (OperandStack.clearFrom a.stack.slots 0 a.stack.size).size = a.stack.slots.size :=
    OperandStack.size_clearFrom ..
  have hempty : OperandStack.Carries ⟨OperandStack.clearFrom a.stack.slots 0 a.stack.size, 0⟩ [] :=
    ⟨Nat.zero_le _, by simp [OperandStack.toList]⟩
  obtain ⟨stack, hpush, hcarries, hstack⟩ := hempty.push (by rw [hsize]; exact hroom) (.ref exception)
  have hact : (do OperandStack.clear; OperandStack.pushRef (some exception) : OperandStack.Action Unit) a.stack =
      .ok () stack := hpush
  have hon : onStack (do OperandStack.clear; OperandStack.pushRef (some exception)) m =
      .ok () { m with frames := .active { a with stack } :: rest } := by
    simp only [onStack, hm, Frame.stack, hact]
    rfl
  rw [after_bind_iff, After, hon]
  exact ⟨stack, hcarries, hstack.trans hsize, rfl⟩

/-- The room for an exception on the stacks of the frames that have handlers. -/
def HasRoom (frames : List Frame) : Prop :=
  ∀ a, .active a ∈ frames → a.method.handlers ≠ [] → 1 ≤ a.stack.slots.size

/-- The walk ends where the exception arrives. -/
theorem after_unwind (hs : Hosted Kept s) (hthrows : s.ThrowsObjects) {n : Nat} {exception : Ref}
    (hn : m.frames.length < n) (hroom : HasRoom m.frames) (hfree : Unhindered s exception m) :
    After (unwind s n exception) m
      (fun _ m' => ∃ above exception' x, m.frames = above.map .active ++ x.frames ∧
        Passes s above exception m exception' x ∧ Arrives s exception' x m')
      fun _ => False := by
  -- every step takes a frame away, and what it starts is what the walk starts
  induction n generalizing m exception with
  | zero => omega
  | succ n ih =>
    rw [unwind, after_bind_iff, after_topFrame]
    have hidle {frames : List Frame} (hm : m.frames = frames) (h : ∀ a rest, frames ≠ .active a :: rest) :
        ∃ above exception' x, frames = above.map .active ++ x.frames ∧
          Passes s above exception m exception' x ∧ Arrives s exception' x { m with pending := some exception } :=
      ⟨[], exception, m, hm.symm, .nil, .pending (hm ▸ h)⟩
    cases hm : m.frames with
    | nil => exact hidle hm (by simp)
    | cons f rest =>
      cases f with
      | barrier => exact hidle hm (by simp)
      | shim stack => exact hidle hm (by simp)
      | active a =>
        have hdeclined (x : Machine) (hframes : x.frames = m.frames) (hdeclines : Declines s a exception m x) :
            After (do
                let exception ← leave s a.method exception
                unwind s n exception) x
              (fun _ m' => ∃ above exception' x, Frame.active a :: rest = above.map .active ++ x.frames ∧
                Passes s above exception m exception' x ∧ Arrives s exception' x m')
              fun _ => False := by
          have hends (hby : ({ x with frames := rest } : Machine).IsInitializingBy a.method) {β : Type} (act : M β) y
              (hwraps : Wraps s exception ({ x with frames := rest }.failed a.method.owner) act y) : Finishes act y :=
            hfree [] exception m .nil act y (.wrapping hm hdeclines hby hwraps)
          refine After.bind (leaves_leave hs hthrows (hframes.trans hm) hends) fun exception' y hleft => ?_
          obtain ⟨hleaves, hrest⟩ := hleft
          refine (ih (by rw [hrest]; simp [hm] at hn; omega) ?_ fun above e z hpasses => ?_).mono ?_ fun _ => id
          · rw [hrest]
            exact fun b hb => hroom b (hm ▸ List.mem_cons_of_mem _ hb)
          · exact hfree (a :: above) e z (.cons hm hdeclines hleaves hpasses)
          · rintro _ m' ⟨above, last, z, hz, hpasses, harrives⟩
            refine ⟨a :: above, last, z, ?_, .cons hm hdeclines hleaves hpasses, harrives⟩
            rw [List.map_cons, List.cons_append, ← hz, hrest]
        dsimp only [List.head?_cons]
        split
        · next hstarted =>
          refine After.bind (after_findHandler a.method.handlers (fun before h after y hrows hbefore hcovers hcatch =>
            hfree [] exception m .nil _ y (.resolution hm hstarted hrows hbefore hcovers hcatch))
            fun before h after y c z hrows hbefore hcovers hcatch hclass =>
              hfree [] exception m .nil _ z (.test hm hstarted hrows hbefore hcovers hcatch hclass)) fun r x hr => ?_
          cases r with
          | none => exact hdeclined x (MismatchAll.frames hs hr) (.inr ⟨hstarted, hr⟩)
          | some entry =>
            obtain ⟨before, h, after, y, hrows, hbefore, hmatches, hentry⟩ := hr
            have hcatches : Catches s a exception entry m x :=
              ⟨hstarted, before, h, after, y, hrows, hbefore, hmatches, hentry⟩
            have hframes : x.frames = m.frames := hcatches.frames hs
            have hcapacity : 1 ≤ a.stack.slots.size := hroom a (hm ▸ List.mem_cons_self) (by simp [hrows])
            refine (after_deliver (hframes.trans hm) hcapacity exception entry).mono ?_ fun _ => id
            rintro _ _ ⟨stack, hcarries, hsize, rfl⟩
            exact ⟨[], exception, m, hm.symm, .nil, .caught hm hcatches hcarries hsize⟩
        · next hunstarted => exact hdeclined m rfl (.inl ⟨by omega, rfl⟩)

/-! ## The operations of the machine -/

namespace Interpreter

/-- A call fails with an exception that was left pending, or with a failure of the machine's own. -/
theorem nonNull_callResult (method : Method) (depth : Nat) (m : Machine) :
    After (callResult method depth) m (fun r _ => NonNull r) fun _ => True := by
  rw [callResult, after_bind_iff, after_get]
  split
  · rw [after_bind_iff, after_modify]
    rintro f ⟨⟩ hnull
    cases hnull
  · rw [after_bind_iff, after_get]
    split
    · split
      · rintro f ⟨⟩
      · exact after_lost trivial
    · exact after_lost trivial

theorem nonNull_embedded (natives : Natives) (s : Services) (fuel : Nat) (method : Method) (args : List Slot)
    (m : Machine) : After (embedded natives s fuel method args).run m (fun r _ => NonNull r) fun _ => True := by
  unfold embedded
  split
  · rw [Attempt.after_bind_iff, Attempt.after_lift_iff]
    refine after_ensuring_iff.2 ?_
    rw [embedded.body, after_bind_iff]
    refine (after_any _ _).mono (fun pushed _ _ => ?_) fun _ => id
    cases pushed with
    | true =>
      rw [if_pos rfl, after_bind_iff]
      refine (after_any _ _).mono (fun _ entered _ => ?_) fun _ => id
      rw [after_bind_iff]
      exact (after_any _ _).mono (fun _ ended _ => nonNull_callResult method _ ended) fun _ => id
    | false =>
      rintro f ⟨⟩ hnull
      cases hnull
  · rw [Attempt.after_bind_iff, Attempt.after_lift_iff]
    rintro f ⟨⟩ hnull
    cases hnull

theorem throwsObjects_services (natives : Natives) (n : Nat) : (services natives n).ThrowsObjects := by
  intro method args m r m' h
  cases n with
  | zero => nomatch h
  | succ n =>
    have hcall : After (invoke natives (services natives n) n method args).run m (fun r _ => NonNull r) fun _ => True := by
      rw [invoke, Attempt.after_bind_iff, Attempt.after_lift_iff]
      exact (after_any _ _).mono (fun _ called _ => nonNull_embedded natives _ n method args called) fun _ => id
    exact After.of_ok hcall h

end Interpreter

/-! ## Throws that start nothing -/

/-- Frames at which an exception starts no operation: each row of their handlers takes any exception, and no method is
an initializer. -/
def AsksNothing (frames : List Frame) : Prop :=
  ∀ a, .active a ∈ frames → ¬ a.method.isClinit ∧ ∀ h ∈ a.method.handlers, h.catchType = 0

theorem Passes.asksNothing {above : List Activation} {exception exception' : Ref}
    (h : Passes s above exception m exception' x) (hm : AsksNothing m.frames) : AsksNothing x.frames := by
  induction h with
  | nil => exact hm
  | cons hframes _ hleaves _ ih =>
    rw [hframes] at hm
    cases hleaves with
    | plain => exact ih fun b hb => hm b (List.mem_cons_of_mem _ hb)
    | failed hby => exact absurd hby.1 (hm _ List.mem_cons_self).1

/-- Nothing hinders an exception that starts nothing on its way. -/
theorem unhindered_of_asksNothing (hm : AsksNothing m.frames) (exception : Ref) : Unhindered s exception m := by
  intro above exception' x hpasses β act y hasks
  have hx := hpasses.asksNothing hm
  have hany {a : Activation} {rest : List Frame} {before after : List Handler} {h : Handler}
      (hframes : x.frames = .active a :: rest) (hrows : a.method.handlers = before ++ h :: after) : h.catchType = 0 := by
    refine (hx _ (hframes ▸ List.mem_cons_self)).2 _ ?_
    rw [hrows]
    exact List.mem_append_right _ List.mem_cons_self
  cases hasks with
  | resolution hframes _ hrows _ _ hcatch => exact absurd (hany hframes hrows) hcatch
  | test hframes _ hrows _ _ hcatch => exact absurd (hany hframes hrows) hcatch
  | wrapping hframes _ hby => exact absurd hby.1 (hx _ (hframes ▸ List.mem_cons_self)).1

open Interpreter

/-- A throw of an exception, whose way nothing hinders, ends with the exception at the first frame that catches it, or
pending where no frame runs code. -/
theorem throwObject_arrives {n : Nat} {exception : Ref} {m : Machine} (hfits : ∀ f ∈ m.frames, f.Fits)
    (hroom : ∀ a, .active a ∈ m.frames → a.method.handlers ≠ [] → 1 ≤ a.method.maxStack)
    (hfree : Unhindered (services Natives.standard n) exception m) :
    ∃ m' above exception' x, throwObject (services Natives.standard n) (some exception) m = .ok () m' ∧
      m.frames = above.map .active ++ x.frames ∧ Passes (services Natives.standard n) above exception m exception' x ∧
      Arrives (services Natives.standard n) exception' x m' := by
  have hcapacity : HasRoom m.frames := fun a ha hhandlers => (hfits _ ha a rfl).capacity ▸ hroom a ha hhandlers
  obtain ⟨_, m', hok, above, exception', x, hframes, hpasses, harrives⟩ :=
    (after_unwind (serving_standard n).toHosted (throwsObjects_services _ n) (Nat.lt_succ_self _) hcapacity hfree).exists_ok
  exact ⟨m', above, exception', x, hok, hframes, hpasses, harrives⟩

namespace Samples

/-- The method of the sample frames with a row for an instruction that it has left, and two for all of its code. -/
def guarded : Method := { pushing with handlers := [⟨1, 2, 0, 0⟩, ⟨0, 2, 1, 0⟩, ⟨0, 2, 0, 0⟩] }

/-- A frame without handlers above one that has some. -/
def guarding : Machine := called [.active pushed, .active { pushed with method := guarded }]

end Samples

open Samples in
/-- An exception passes the frame without handlers, and the frame below it goes on at the handler of its second row. -/
theorem throwObject_arrives_guarding :
    ∃ m' above exception' x, throwObject (services Natives.standard 0) (some ⟨0⟩) guarding = .ok () m' ∧
      guarding.frames = above.map .active ++ x.frames ∧
      Passes (services Natives.standard 0) above ⟨0⟩ guarding exception' x ∧
      Arrives (services Natives.standard 0) exception' x m' ∧
      m'.frames = (called [.active { pushed with
        method := guarded, stack := ⟨#[.ref ⟨0⟩, .null], 1⟩, nextPc := 1 }]).frames := by
  have htidy : pushed.stack.Tidy := by
    refine ⟨by decide, fun i hi hsize => ?_⟩
    obtain rfl : i = 1 := Nat.le_antisymm (Nat.le_of_lt_succ hsize) hi
    rfl
  have hpushed : pushed.Fits := ⟨rfl, htidy, rfl⟩
  have hguarding (a : Activation) (ha : Frame.active a ∈ guarding.frames) :
      a = pushed ∨ a = { pushed with method := guarded } := by
    rw [show guarding.frames = [.active pushed, .active { pushed with method := guarded }, shim [], .barrier] from rfl,
      show shim [] = .shim (OperandStack.ofCapacity 2) from rfl] at ha
    simpa using ha
  have hfits : ∀ f ∈ guarding.frames, f.Fits := by
    rintro f hf a rfl
    rcases hguarding a hf with rfl | rfl
    · exact hpushed
    · exact ⟨hpushed.capacity, hpushed.tidy, hpushed.locals⟩
  have hroom (a : Activation) (ha : Frame.active a ∈ guarding.frames) (_ : a.method.handlers ≠ []) :
      1 ≤ a.method.maxStack := by
    rcases hguarding a ha with rfl | rfl <;> decide
  have hasks : AsksNothing guarding.frames := fun a ha => by
    rcases hguarding a ha with rfl | rfl <;> decide
  obtain ⟨m', above, exception', x, hok, hframes, hpasses, harrives⟩ :=
    throwObject_arrives hfits hroom (unhindered_of_asksNothing hasks ⟨0⟩)
  refine ⟨m', above, exception', x, hok, hframes, hpasses, harrives, ?_⟩
  have hrun : throwObject (services Natives.standard 0) (some ⟨0⟩) guarding = .ok () _ := rfl
  cases hrun.symm.trans hok
  rfl

end JavaMachine
