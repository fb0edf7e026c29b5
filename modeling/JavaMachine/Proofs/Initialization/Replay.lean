import JavaMachine.Proofs.Frames.Answers
import JavaMachine.Proofs.Frames.Standing
import JavaMachine.Proofs.Initialization.Deferral

/-!
Instructions that run again. An instruction that was put back starts anew when the initializers above it have returned, in
the frame that it had. In every machine that occurs the journal tells the states of all classes (`Occurs.tended`), so that its
class is settled then.

Main results: an instruction that needs a linked class is put back and uses the class when it runs again, unless something
was returned to it or the class has failed (`runs_again_after_initializers`), which both can happen
(`not_as_before_after_initializers`).
-/

namespace JavaMachine

open M Throwing Initialization Interpreter Execute

variable {s : Services} {m : Machine} {a : Activation} {rest : List Frame}

/-! ## Fetched instructions -/

/-- The machine in which an activation has fetched the instruction that stops at a position. -/
def Machine.fetchedTo (m : Machine) (a : Activation) (rest : List Frame) (stop : Int) : Machine :=
  (m.beginning a rest).withFrames (.active { a with pc := a.nextPc, nextPc := stop } :: rest)

theorem step_of_read {natives : Natives} {i : Instruction} {cursor : CodeCursor} (hframes : m.frames = .active a :: rest)
    (hread : Instruction.read a.cursor = .ok (.instruction i) cursor) :
    step natives s m = execute natives s i (m.fetchedTo a rest cursor.pos) := by
  rw [step_eq natives s hframes, hread]
  rfl

theorem stepped_fetchedTo (hframes : m.frames = .active a :: rest) (stop : Int) :
    Stepped .done m (m.fetchedTo a rest stop) := by
  have hadvance : Stepped .done m (m.beginning a rest) := (keeps_advance m).of_ok (run_advance hframes)
  have hgoOn : Keeps Stepped (updateActivation fun a => { a with nextPc := stop }) := keeps_goOn
  exact Tolerant.trans hadvance ((hgoOn _).of_ok (run_updateActivation (a := { a with pc := a.nextPc }) rfl _))

/-! ## Initializers that return -/

/-- A class is not in progress any more when a frame of its initializer returns. -/
theorem after_return (hm : Chronicle m) (hframes : m.frames = .active a :: rest) (width : Nat) :
    After (Execute.finish width) m
      (fun _ b => ∀ c, a.method.initializes? = some c → b.journal.stateOf c ≠ .initializing m.current) fun _ => True := by
  rw [Execute.finish, after_bind_iff]
  refine after_onStack Execute.orderly_popResult (fun f frames slots stack hf _ _ => ?_) fun _ _ => trivial
  rw [hframes] at hf
  obtain ⟨rfl, rfl⟩ := List.cons.inj hf
  have hpop := hm.of_frames (.active { a with stack } :: rest)
  rw [after_bind_iff]
  change After (Execute.conclude a.method >>= _) { m with frames := .active { a with stack } :: rest } _ _
  rw [after_bind_iff]
  refine (after_conclude hpop rfl (Frame.initialized_mark _)).mono ?_ fun _ => id
  rintro _ b ⟨_, _, hover⟩
  exact after_pushSlots (fun _ => hover) (fun _ _ _ _ _ _ => hover) fun _ _ => trivial


theorem Execute.length_popResult {width : Nat} {stack stack' : OperandStack} {slots : List Slot}
    (h : popResult width stack = .ok slots stack') : slots.length = width := by
  induction width generalizing stack stack' slots with
  | zero =>
    cases h
    rfl
  | succ width ih =>
    obtain ⟨v, popped, -, h⟩ := OperandStack.exists_of_bind h
    obtain ⟨below, _, hbelow, h⟩ := OperandStack.exists_of_bind h
    cases h
    rw [List.length_append, ih hbelow]
    rfl

/-- The initializer of a class initializes it. -/
theorem Chronicle.initializes_initializerOf (hm : Chronicle m) (c : ClassId) :
    (m.initializerOf c).initializes? = some c := by
  have hfinds : After (initializer c) m (fun method _ => method.initializes? = some c) fun _ => True :=
    after_initializer hm fun method hclinit howner => Method.initializes_eq_some.2 ⟨hclinit, howner⟩
  exact hfinds.of_ok (run_initializer c)

/-! ## Instructions that are put off -/

section deferred

variable {n width : Nat} {x b : Machine} {i : Instruction} {cursor : CodeCursor} {c : ClassId} {use : M Unit}
  {classes : List ClassId}

/-- The machine in which an instruction was put back, with initializers on top of its frame. -/
def Machine.deferred (x : Machine) (a : Activation) (rest : List Frame) (classes : List ClassId) : Machine :=
  scheduled (x.withFrames (.active { a with pc := a.nextPc } :: rest)) classes

theorem frames_deferred (x : Machine) (a : Activation) (rest : List Frame) (classes : List ClassId) :
    (x.deferred a rest classes).frames =
      (classes.map fun k => Frame.ofMethod (x.initializerOf k)).reverse ++ .active { a with pc := a.nextPc } :: rest :=
  frames_scheduled ..

/-- The initializer of the class that is needed is right above the instruction. -/
theorem standing_deferred (hchain : StillLinked x c classes) :
    Standing (x.initializerOf c) (.active { a with pc := a.nextPc } :: rest) (x.deferred a rest classes).frames := by
  obtain ⟨above, rfl⟩ := hchain.exists_cons
  rw [frames_deferred, List.map_cons, List.reverse_cons, List.append_assoc]
  exact ⟨_, _, rfl, rfl⟩

/-- The initializer returns to the instruction. -/
theorem returns_deferred (h : Hosted Kept s) (hchain : StillLinked x c classes)
    (hreturned : ReturnedAbove s (rest.length + 1) width (x.deferred a rest classes) b) :
    ∃ last callee stop, StepsAbove s (rest.length + 1) (x.deferred a rest classes) last ∧
      last.frames = .active callee :: .active { a with pc := a.nextPc } :: rest ∧ callee.method = x.initializerOf c ∧
      Execute.finish width (last.fetchedTo callee (.active { a with pc := a.nextPc } :: rest) stop) = .ok () b := by
  let below := .active { a with pc := a.nextPc } :: rest
  have habove : ReturnedAbove s below.length width (x.deferred a rest classes) b := hreturned
  obtain ⟨last, callee, cursor, hsteps, hlast, hmethod, hread, hstep⟩ :=
    habove.exists_return h (standing_deferred hchain)
  refine ⟨last, callee, cursor.pos, hsteps, hlast, hmethod, ?_⟩
  rw [step_of_read hlast hread] at hstep
  exact hstep

/-- What the initializer returns is on the operand stack of the instruction then. -/
theorem frames_returned (h : Hosted Kept s) (hchain : StillLinked x c classes)
    (hreturned : ReturnedAbove s (rest.length + 1) width (x.deferred a rest classes) b) :
    ∃ slots stack, slots.length = width ∧ OperandStack.pushAll slots a.stack = .ok () stack ∧
      b.frames = .active { a with pc := a.nextPc, stack } :: rest := by
  obtain ⟨last, callee, stop, -, -, -, hfinish⟩ := returns_deferred h hchain hreturned
  obtain ⟨-, ⟨returned, below, slots, hframes, ⟨popped, hpop⟩, -, hpushed⟩⟩ := (after_finish width _).of_ok hfinish
  obtain ⟨-, rfl⟩ := List.cons.inj hframes
  obtain ⟨stack, hpush, hb⟩ := hpushed
  exact ⟨slots, stack, length_popResult hpop, hpush, hb⟩

/-- The class is not in progress any more then. -/
theorem settled_returned (h : Sound s) (hkept : Hosted Kept s) (hx : Chronicle x) (hm : Chronicle (x.deferred a rest classes))
    (hl : (x.deferred a rest classes).InLine) (hchain : StillLinked x c classes)
    (hreturned : ReturnedAbove s (rest.length + 1) width (x.deferred a rest classes) b) :
    (b.classAt c).state.Settled := by
  obtain ⟨last, callee, stop, hsteps, hlast, hmethod, hfinish⟩ := returns_deferred hkept hchain hreturned
  have hrun := hsteps.holds (keeps_step h.toHosted) hm hl
  have hfetched := stepped_fetchedTo hlast stop hrun.continued.chronicle (hrun.inLine rfl)
  have hb := hreturned.holds (keeps_step h.toHosted) hm hl
  have hover : b.journal.stateOf c ≠ .initializing x.current := by
    have hreturn := (after_return hfetched.continued.chronicle rfl width).of_ok hfinish c
    rw [hfetched.continued.current, hrun.continued.current, Machine.deferred, current_scheduled] at hreturn
    exact hreturn (hmethod ▸ hx.initializes_initializerOf c)
  have hc := hchain.mem
  rw [← hb.continued.chronicle.states]
  refine (hb.continued.chronicle.legal.initializing_or_settled hb.continued.extend.journal (mem_journal_scheduled _ hc)
    (stateOf_scheduled _ hc)).resolve_left hover

/-! ## Instructions that run again -/

theorem classAt_fetchedTo (m : Machine) (a : Activation) (rest : List Frame) (stop : Int) (c : ClassId) :
    (m.fetchedTo a rest stop).classAt c = m.classAt c := by
  rw [Machine.fetchedTo, Machine.beginning, Machine.ran]
  split <;> rfl

theorem run_ensure_deferred {context : Context}
    (hframes : x.frames = .active { a with pc := a.nextPc, nextPc := cursor.pos } :: rest)
    (hchain : StillLinked x c classes) (hroom : x.frames.length + classes.length ≤ frameLimit x) :
    ensure context c x = .ok false (x.deferred a rest classes) := run_ensure hframes hchain hroom

/-- What was remembered before the initializers ran is still remembered. -/
theorem remembers_returned (hrun : ensure (services Natives.standard n) c x = .ok false (x.deferred a rest classes))
    (hreturned : ReturnedAbove (services Natives.standard n) (rest.length + 1) width (x.deferred a rest classes) b)
    {holder : ClassId} {index : Nat} {r : PoolEntry} (hr : (x.classAt holder).Remembers index r) :
    (b.classAt holder).Remembers index r := by
  have h := (serving_remembers hr.resolved index holder n).toHosted
  exact hreturned.holds h.holding_step ((keeps_anyEnsure h c x).of_ok hrun hr)

/-- An instruction whose class was settled uses it, or throws an exception if the class has failed. -/
theorem step_settled (hframes : m.frames = .active a :: rest) (hread : Instruction.read a.cursor = .ok (.instruction i) cursor)
    (huses : Uses s (m.fetchedTo a rest cursor.pos) a.method (m.fetchedTo a rest cursor.pos) i c use)
    (hsettled : (m.classAt c).state.Settled) :
    (m.classAt c).state = .initialized ∧ step Natives.standard s m = use (m.fetchedTo a rest cursor.pos) ∨
      (m.classAt c).state = .erroneous ∧
        step Natives.standard s m =
          throwNew s Throwables.noClassDef s!"Could not initialize class {(m.classAt c).javaName}"
            (m.fetchedTo a rest cursor.pos) := by
  have hstep : step Natives.standard s m = (do if ← ensure s c then use) (m.fetchedTo a rest cursor.pos) := by
    rw [step_of_read hframes hread]
    exact execute_of_uses (a := { a with pc := a.nextPc, nextPc := cursor.pos }) huses rfl rfl
  rw [hstep]
  rcases hsettled with hstate | hstate
  · refine .inl ⟨hstate, ?_⟩
    rw [M.run_bind (run_ensure_of_initialized (by rw [classAt_fetchedTo, hstate]))]
    rfl
  · refine .inr ⟨hstate, ?_⟩
    rw [run_ensure_of_erroneous (by rw [classAt_fetchedTo, hstate]), classAt_fetchedTo]
    rfl

end deferred

/-- An instruction that finds its class linked is put back, and the initializers of the class and of its superclasses are on
top of its frame, which is otherwise as before. When the last of them has returned, the frame is as before but for the
slots that were returned to it. If there are none, the instruction uses its class when it runs again, unless the class has
failed meanwhile. -/
theorem runs_again_after_initializers {n : Nat} {m x : Machine} {a : Activation} {rest : List Frame} {i : Instruction}
    {cursor : CodeCursor} {c : ClassId} {use : M Unit} {classes : List ClassId} (hm : Chronicle m) (hl : m.InLine)
    (hframes : m.frames = .active a :: rest) (hread : Instruction.read a.cursor = .ok (.instruction i) cursor)
    (huses : Uses (services Natives.standard n) (m.fetchedTo a rest cursor.pos) a.method x i c use)
    (hchain : StillLinked x c classes) (hroom : x.frames.length + classes.length ≤ frameLimit x) :
    ∃ m₁, step Natives.standard (services Natives.standard n) m = .ok () m₁ ∧
      m₁.frames =
        (classes.map fun k => Frame.ofMethod (x.initializerOf k)).reverse ++ .active { a with pc := a.nextPc } :: rest ∧
      ∀ width b, ReturnedAbove (services Natives.standard n) (rest.length + 1) width m₁ b →
        ∃ slots stack, slots.length = width ∧ OperandStack.pushAll slots a.stack = .ok () stack ∧
          b.frames = .active { a with pc := a.nextPc, stack } :: rest ∧
          (width = 0 →
            let y := b.fetchedTo { a with pc := a.nextPc } rest cursor.pos
            stack = a.stack ∧
              ((b.classAt c).state = .initialized ∧
                  step Natives.standard (services Natives.standard n) b = use y ∨
                (b.classAt c).state = .erroneous ∧
                  step Natives.standard (services Natives.standard n) b =
                    throwNew (services Natives.standard n) Throwables.noClassDef
                      s!"Could not initialize class {(b.classAt c).javaName}" y)) := by
  have hsound := sound_services n
  have hkept := serving_standard n
  have hfetched := stepped_fetchedTo hframes cursor.pos hm hl
  have hsame : x.frames = (m.fetchedTo a rest cursor.pos).frames := (huses.holds hkept.toResolving).frames
  have hresolved := (huses.holds hsound.toResolving).stepped hfetched.continued.chronicle (hfetched.inLine rfl)
  have hx := hresolved.continued.chronicle
  have hensure : ensure (services Natives.standard n) c x = .ok false (x.deferred a rest classes) :=
    run_ensure_deferred hsame hchain hroom
  have hdeferred := (keeps_ensure hsound.toHosted c x).of_ok hensure hx (hresolved.inLine rfl)
  refine ⟨x.deferred a rest classes, ?_, frames_deferred .., fun width b hreturned => ?_⟩
  · rw [step_of_read hframes hread, execute_of_uses (a := { a with pc := a.nextPc, nextPc := cursor.pos }) huses rfl hsame,
      M.run_bind hensure]
    rfl
  · obtain ⟨slots, stack, hlength, hpush, hb⟩ := frames_returned hkept.toHosted hchain hreturned
    refine ⟨slots, stack, hlength, hpush, hb, ?_⟩
    rintro rfl
    obtain rfl := List.eq_nil_of_length_eq_zero hlength
    cases hpush
    have hsettled := settled_returned hsound hkept.toHosted hx hdeferred.continued.chronicle (hdeferred.inLine rfl) hchain
      hreturned
    have hrun := hreturned.holds (keeps_step hsound.toHosted) hdeferred.continued.chronicle (hdeferred.inLine rfl)
    have hlt := Machine.lt_of_state (m := x) (c := c) (by rw [hchain.head]; exact ClassState.noConfusion)
    have hflags : (b.classAt c).flags = (x.classAt c).flags :=
      congrArg (·.1) ((hdeferred.continued.extend.trans hrun.continued.extend).descent c hlt)
    refine ⟨rfl, step_settled hb hread (huses.again ?_ fun index r hr => ?_) hsettled⟩
    · rw [classAt_fetchedTo]
      exact hflags
    · rw [classAt_fetchedTo]
      exact remembers_returned hensure hreturned hr

/-! ## Initializers that are no plain ones -/

/-- What a function finds after an action, unless that halts. -/
def M.found? {α β : Type} (act : M α) (m : Machine) (f : α → Machine → β) : Option β :=
  match act m with
  | .ok v b => some (f v b)
  | .error .. => none

theorem M.exists_of_found? {α β : Type} {act : M α} {m : Machine} {f : α → Machine → β} {w : β}
    (h : act.found? m f = some w) : ∃ v b, act m = .ok v b ∧ f v b = w := by
  unfold found? at h
  split at h
  · next v b hact => exact ⟨v, b, hact, Option.some.inj h⟩
  · nomatch h

/-- The machine in which the last frame above some has returned, and the width of its result, if so many steps lead there. -/
def returned? (s : Services) (depth : Nat) : Nat → Machine → Option (Nat × Machine)
  | 0, _ => none
  | n + 1, m =>
    match step Natives.standard s m, m.frames with
    | .ok () b, .active callee :: below =>
      if depth < b.frames.length then returned? s depth n b
      else if below.length = depth then
        match Instruction.read callee.cursor with
        | .ok (.instruction (.finish width)) _ => some (width, b)
        | _ => none
      else none
    | _, _ => none

theorem returnedAbove_of_returned? {depth n width : Nat} {m b : Machine} (h : returned? s depth n m = some (width, b)) :
    ReturnedAbove s depth width m b := by
  induction n generalizing m with
  | zero => nomatch h
  | succ n ih =>
    unfold returned? at h
    split at h
    · next b' callee below hstep hframes =>
      split at h
      · next hdepth =>
        obtain ⟨last, callee', below', cursor, hsteps, hlast, hbelow, hread, hreturns⟩ := ih h
        exact ⟨last, callee', below', cursor, .step hstep hdepth hsteps, hlast, hbelow, hread, hreturns⟩
      · split at h
        · next hbelow =>
          split at h
          · next width' cursor hread =>
            cases h
            exact ⟨m, callee, below, cursor, .refl m, hframes, hbelow, hread, hstep⟩
          · nomatch h
        · nomatch h
    · nomatch h

/-- What a function finds after a step and the return of the last frame that it has put above some others. -/
def settled? {β : Type} (s : Services) (depth n : Nat) (m : Machine) (f : Machine → Machine → β) : Option (Nat × β) :=
  match step Natives.standard s m with
  | .ok () m₁ => (returned? s depth n m₁).map fun r => (r.1, f m₁ r.2)
  | .error .. => none

theorem exists_of_settled? {β : Type} {depth n width : Nat} {m : Machine} {f : Machine → Machine → β} {v : β}
    (h : settled? s depth n m f = some (width, v)) :
    ∃ m₁ b, step Natives.standard s m = .ok () m₁ ∧ ReturnedAbove s depth width m₁ b ∧ f m₁ b = v := by
  unfold settled? at h
  split at h
  · next m₁ hstep =>
    obtain ⟨⟨width', b⟩, hb, hpair⟩ := Option.map_eq_some_iff.1 h
    obtain ⟨rfl, hv⟩ := Prod.mk.inj hpair
    exact ⟨m₁, b, hstep, returnedAbove_of_returned? hb, hv⟩
  · nomatch h

/-- A frame that runs no initializer is in line, where no other frame is. -/
theorem Machine.inLine_of_plain {m : Machine} {a : Activation} (hframes : m.frames = [.active a])
    (h : a.method.isClinit = false) : m.InLine := by
  rw [InLine, marks, hframes]
  refine fun _ => ⟨fun c hc => ?_, trivial⟩
  rw [Frame.initialized_mark, Method.initializes_eq_some, h] at hc
  cases hc.1

namespace Samples

/-- A method that makes an object of the class at an index of the pool of its class. -/
def creating (owner : ClassId) : Method := {
  owner, flags := ⟨9⟩, name := "create", desc := "()V", maxStack := 2, code := #[0xBB, 0, 6, 0xB1] }

/-- The method before its first instruction, with a number on its stack. -/
def creator (owner : ClassId) : Activation := { method := creating owner, locals := #[], stack := ⟨#[.num 5, .null], 1⟩ }

/-- A machine that runs the method, in a class that knows another one among sample classes. -/
def needing (classes : List ClassSource) (other : String) : Machine :=
  (run 8 (classes ++ [making "User" Machine.objectName other]) []).withFrames [.active (creator (sample classes.length))]

/-- The class that is needed has a superclass. -/
def withChild : Machine := needing [idle "Parent" Machine.objectName, idle "Child" "Parent"] "Child"

/-- The initializer of the class that is needed returns a number. -/
def handing : Machine := needing [initializing "Child" Machine.objectName [.plain .iconst_1, .plain .ireturn]] "Child"

/-- An initializer that calls itself once, throws an object when it is called, and catches what it has thrown. -/
def recalling : ClassSource := {
  name := "Child"
  fields := [{ flags := 8, name := "begun", desc := "I" }]
  methods := [{
    flags := 8, name := Method.clinitName, desc := "()V", maxStack := some 1
    body := some [
      .field .getstatic "Child" "begun" "I", .jump .ifne "again",
      .plain .iconst_1, .field .putstatic "Child" "begun" "I",
      .label "start", .invoke .invokestatic "Child" Method.clinitName "()V", .label "stop", .plain .vreturn,
      .label "handler", .plain .pop, .plain .vreturn,
      .label "again", .type .new Machine.objectName, .plain .athrow,
      .handler "start" "stop" "handler" ""] }] }

/-- The initializer of the class that is needed returns, but the class has failed. -/
def failing : Machine := needing [recalling] "Child"

set_option maxRecDepth 10000 in
theorem read_creator (owner : ClassId) :
    Instruction.read (creator owner).cursor = .ok (.instruction (.new 6)) ⟨(creating owner).code, 3⟩ := by
  have hread : Instruction.read ⟨#[0xBB, 0, 6, 0xB1], 0⟩ = .ok (.instruction (.new 6)) ⟨#[0xBB, 0, 6, 0xB1], 3⟩ := by rfl
  exact hread

theorem chronicle_needing (classes : List ClassSource) (other : String) : Chronicle (needing classes other) :=
  (reachable_run ..).chronicle.of_frames _

/-- What a program says where it stops for good. -/
def lastWords? (x : M Unit) (m : Machine) : Option String :=
  match x m with
  | .error (.fatal text) _ => some text
  | _ => none

theorem exists_of_lastWords? {x : M Unit} {m : Machine} {text : String} (h : lastWords? x m = some text) :
    ∃ m', x m = .error (.fatal text) m' := by
  unfold lastWords? at h
  split at h
  · next m' hx => exact ⟨m', Option.some.inj h ▸ hx⟩
  · cases h

theorem inLine_needing (classes : List ClassSource) (other : String) : (needing classes other).InLine :=
  Machine.inLine_of_plain (a := creator (sample classes.length)) rfl rfl

end Samples

open Samples in
/-- The class that is needed, its superclass and the root are initialized, and then the object is made. -/
theorem runs_again_after_initializers_inheriting :
    let s := services Natives.standard 12
    ∃ x m₁ b, Chronicle withChild ∧ withChild.InLine ∧
      StillLinked x (sample 1) [sample 1, sample 0, ⟨9⟩] ∧ step Natives.standard s withChild = .ok () m₁ ∧
      ReturnedAbove s 1 0 m₁ b ∧ b.frames = [.active { creator (sample 2) with pc := 0 }] ∧
      (b.classAt (sample 1)).state = .initialized ∧
      step Natives.standard s b =
        (do pushRef (some (← newObject (sample 1)))) (b.fetchedTo { creator (sample 2) with pc := 0 } [] 3) := by
  intro s
  have hresolved : (Resolution.classEntry s (sample 2) 6).run.found? (withChild.fetchedTo (creator (sample 2)) [] 3)
      (fun r x => (r.toOption, (x.classAt (sample 1)).isInterface || (x.classAt (sample 1)).isAbstract,
        [sample 1, sample 0, ⟨9⟩].map fun k => ((x.classAt k).state, x.superOf k),
        decide (x.frames.length + 3 ≤ frameLimit x))) =
      some (some (sample 1), false, [(.linked, some (sample 0)), (.linked, some ⟨9⟩), (.linked, none)], true) := by
    decide +kernel
  have hreturned : settled? s 1 20 withChild (fun _ b => (b.classAt (sample 1)).state) = some (0, .initialized) := by
    decide +kernel
  obtain ⟨r, x, hrun, hfound⟩ := M.exists_of_found? hresolved
  simp only [List.map_cons, List.map_nil, Prod.mk.injEq, List.cons.injEq, decide_eq_true_eq] at hfound
  obtain ⟨hr, hconcrete, ⟨⟨hchild, hparent⟩, ⟨hparent', hroot⟩, ⟨hroot', hnone⟩, -⟩, hroom⟩ := hfound
  have hchain : StillLinked x (sample 1) [sample 1, sample 0, ⟨9⟩] :=
    .up hchild hparent (.up hparent' hroot (.top hroot' (by rw [hnone]; nofun)))
  have hrun : (Resolution.classEntry s (sample 2) 6).run (withChild.fetchedTo (creator (sample 2)) [] 3) =
      .ok (.ok (sample 1)) x := by
    cases r with
    | error => nomatch hr
    | ok c => exact Option.some.inj hr ▸ hrun
  have huses : Uses s (withChild.fetchedTo (creator (sample 2)) [] 3) (creating (sample 2)) x (.new 6) (sample 1)
      (do pushRef (some (← newObject (sample 1)))) := .new hrun hconcrete
  obtain ⟨m₁, b, hstep, habove, hstate⟩ := exists_of_settled? hreturned
  have hm : Chronicle withChild := chronicle_needing _ _
  have hl : withChild.InLine := inLine_needing _ _
  obtain ⟨m₂, hstep₂, -, hreplays⟩ := runs_again_after_initializers hm hl (a := creator (sample 2)) rfl (read_creator _)
    huses hchain hroom
  cases hstep.symm.trans hstep₂
  obtain ⟨slots, stack, -, -, hframes, hagain⟩ := hreplays 0 b habove
  obtain ⟨rfl, hsettled⟩ := hagain rfl
  refine ⟨x, m₁, b, hm, hl, hchain, hstep, habove, hframes, hstate, ?_⟩
  rcases hsettled with ⟨-, huse⟩ | ⟨hfailed, -⟩
  · exact huse
  · exact nomatch hstate.symm.trans hfailed

open Samples in
/-- Initializers that return may leave something behind: the number that one returns is on the stack of the instruction,
and a class that has failed is not used. No sample class is the error that is thrown then, so the machine stops. -/
theorem not_as_before_after_initializers :
    let s := services Natives.standard 12
    (∃ m₁ b, step Natives.standard s handing = .ok () m₁ ∧ ReturnedAbove s 1 1 m₁ b ∧
      handing.frames.map (fun f => f.stack.toList) = [[.num 5]] ∧
      m₁.frames.map (fun f => f.stack.toList) = [[], [], [.num 5]] ∧
      b.frames.map (fun f => f.stack.toList) = [[.num 5, .num 1]]) ∧
    ∃ m₁ b m₂, step Natives.standard s failing = .ok () m₁ ∧ ReturnedAbove s 1 0 m₁ b ∧
      (b.classAt (sample 0)).state = .erroneous ∧
      step Natives.standard s b =
        .error (.fatal ("cannot load java/lang/NoClassDefFoundError to report \"Could not initialize class Child\": " ++
          "java.lang.NoClassDefFoundError: java/lang/NoClassDefFoundError")) m₂ := by
  intro s
  have hhanded : settled? s 1 20 handing (fun m₁ b =>
      (m₁.frames.map (fun f => f.stack.toList), b.frames.map (fun f => f.stack.toList))) =
      some (1, [[], [], [.num 5]], [[.num 5, .num 1]]) := by
    decide +kernel
  have hfailed : settled? s 1 40 failing (fun _ b =>
      ((b.classAt (sample 0)).state, lastWords? (step Natives.standard s) b)) =
      some (0, .erroneous, some
        ("cannot load java/lang/NoClassDefFoundError to report \"Could not initialize class Child\": " ++
          "java.lang.NoClassDefFoundError: java/lang/NoClassDefFoundError")) := by
    decide +kernel
  obtain ⟨m₁, b, hstep, hreturned, hstacks⟩ := exists_of_settled? hhanded
  obtain ⟨hbefore, hafter⟩ := Prod.mk.inj hstacks
  refine ⟨⟨m₁, b, hstep, hreturned, rfl, hbefore, hafter⟩, ?_⟩
  obtain ⟨m₁, b, hstep, hreturned, hfound⟩ := exists_of_settled? hfailed
  obtain ⟨hstate, htext⟩ := Prod.mk.inj hfound
  obtain ⟨m₂, hagain⟩ := exists_of_lastWords? htext
  exact ⟨m₁, b, m₂, hstep, hreturned, hstate, hagain⟩

end JavaMachine
