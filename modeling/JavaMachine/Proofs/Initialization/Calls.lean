import JavaMachine.Machine.Execute.Call
import JavaMachine.Machine.Execute.Control
import JavaMachine.Proofs.Initialization.Frames
import JavaMachine.Proofs.Machine.Operations

/-!
Frames that come and go. A thrown exception takes frames away, and with the frame of an initializer it ends
the initialization; so does a return. Main results: throwing (`keeps_throwObject`), calls (`keeps_enterCalled`)
and returns (`keeps_finish`) keep initializers lined up. Initializers on top that have not started and are not
lined up never run, as an exception takes them away (`after_unwind`).
-/

namespace JavaMachine

open M Throwing

/-! ## Frames and marks -/

theorem Frame.isActive_mark (a : Activation) : (Frame.active a).mark.isActive = true := by
  simp only [Frame.mark]
  split
  · split <;> rfl
  · rfl

/-- The class that a running method initializes. -/
def Method.initializes? (method : Method) : Option ClassId :=
  if method.isClinit then some method.owner else none

@[simp]
theorem Method.initializes_eq_some {method : Method} {c : ClassId} :
    method.initializes? = some c ↔ method.isClinit = true ∧ method.owner = c := by
  simp [initializes?]

theorem Frame.initialized_mark (a : Activation) :
    (Frame.active a).mark.initialized? = a.method.initializes? := by
  simp only [Frame.mark, Method.initializes?]
  split
  · split <;> rfl
  · rfl

theorem Chronicle.of_frames {m : Machine} (h : Chronicle m) (frames : List Frame) : Chronicle { m with frames } :=
  ⟨h.states, h.known, h.owners, h.legal, h.ordered⟩

theorem Extends.of_frames (m : Machine) (frames : List Frame) : Extends m { m with frames } :=
  ⟨List.suffix_refl _, Nat.le_refl _, fun _ _ => rfl, fun _ _ => id⟩

/-- Frames may change as long as none begins an initialization. -/
theorem Continued.of_frames {m : Machine} (h : Chronicle m) {frames : List Frame}
    (hs : ((frames.map Frame.mark).filterMap Mark.initialized?).Sublist m.starting) : Continued m { m with frames } :=
  .of_count (h.of_frames frames) (.of_frames m frames) rfl rfl (fun c => hs.count_le c) fun _ _ => rfl

/-- Frames on top are gone. -/
theorem Continued.of_below {m : Machine} (h : Chronicle m) {frames : List Frame} (hs : frames.map Frame.mark <:+ m.marks) :
    Continued m { m with frames } := .of_frames h (hs.sublist.filterMap _)

theorem after_popFrame {m : Machine} {mark : Mark} {rest : List Mark} (hm : m.marks = mark :: rest)
    {Q : Frame → Machine → Prop} {H : Machine → Prop}
    (h : ∀ f frames, frames.map Frame.mark = rest → Q f { m with frames }) : After popFrame m Q H := by
  obtain ⟨f, frames, hf, _, hrest⟩ := List.map_eq_cons_iff.1 hm
  simp only [popFrame, after_bind_iff, after_get, hf, after_modify, after_pure]
  exact h f frames hrest

theorem after_activation {m : Machine} {Q : Activation → Machine → Prop} {H : Machine → Prop}
    (h : ∀ a frames, m.frames = .active a :: frames → Q a m) (hnone : H m) : After activation m Q H := by
  unfold After activation
  rcases hf : m.frames with _ | ⟨_ | _ | a, frames⟩
  · exact hnone
  · exact hnone
  · exact hnone
  · exact h a frames hf

/-! ## The end of an initialization -/

/-- An initialization that is in progress may end. -/
theorem Chronicle.allowed_finish {m : Machine} (h : Chronicle m) {c : ClassId} {state : ClassState} {t : Nat}
    (hc : (m.classAt c).state = .initializing t) (hs : state.Settled) : (Event.state c state).Allowed m.journal := by
  have hstate : m.journal.stateOf c = .initializing t := (h.states c).trans hc
  rcases hs with rfl | rfl
  · exact .inr ⟨t, hstate⟩
  · exact ⟨t, hstate⟩

/-- An initialization that is in progress ends when the frame of the initializer is gone. -/
theorem Chronicle.finish {m : Machine} (h : Chronicle m) {mark : Mark} {frames : List Frame}
    (hmarks : m.marks = mark :: frames.map Frame.mark) {c : ClassId} (hmark : mark.initialized? = some c)
    {state : ClassState} {t : Nat} (hc : (m.classAt c).state = .initializing t) (hs : state.Settled) :
    Continued m ({ m with frames }.enter c state (.state c state)) := by
  let popped : Machine := { m with frames }
  have hpop : Continued m popped := .of_below h (hmarks ▸ List.suffix_cons ..)
  have hstate : m.journal.stateOf c ≠ .unlinked := by simp [(h.states c).trans hc]
  have hne : (popped.classAt c).state ≠ .unlinked := fun hu => ClassState.noConfusion (hc.symm.trans hu)
  have hallowed : (Event.state c state).Allowed popped.journal := h.allowed_finish hc hs
  refine ⟨hpop.chronicle.enter (h.lt hstate) hallowed (.inl rfl), hpop.extend.trans (.enter hne _ _), rfl, fun away ht => ?_⟩
  refine ⟨ht.mono rfl (List.suffix_cons ..) (fun k => ?_) fun k _ => ?_, rfl⟩
  · exact ((hmarks ▸ List.suffix_cons mark (frames.map Frame.mark)).sublist.filterMap _).count_le k
  by_cases hk : c = k
  · subst hk
    -- the frame that is gone was the only one
    refine .inr fun hcalled => ?_
    have hstarting : m.starting = c :: popped.starting := by
      rw [Machine.starting, hmarks, List.filterMap_cons_some hmark]
      rfl
    obtain ⟨hone, haway, -⟩ := ht.frames c (hstarting ▸ List.mem_cons_self) fun hc => hcalled (List.mem_cons_of_mem _ hc)
    rw [hstarting, List.count_cons_self, Nat.add_eq_right, List.count_eq_zero] at hone
    exact ⟨hone, haway⟩
  · exact .inl (if_neg hk)

theorem settled_finish (m : Machine) {c : ClassId} {state : ClassState} (hs : state.Settled) :
    ((m.enter c state (.state c state)).journal.stateOf c).Settled := by
  have : (m.enter c state (.state c state)).journal.stateOf c = state := by
    simp [Machine.enter, Journal.stateOf]
  rw [this]
  exact hs

variable {s : Services}

theorem after_failInitialization (h : Hosted Served s) {m₀ m : Machine} {c : ClassId}
    (hfirst : Continued m₀ (m.enter c .erroneous (.state c .erroneous))) (exception : Ref) :
    After (failInitialization s c exception) m
      (fun _ m' => Continued m₀ m' ∧ m'.marks = m.marks ∧ (m'.journal.stateOf c).Settled)
      (fun m' => Continued m₀ m' ∧ m'.marks = m.marks) := by
  have hchron := hfirst.chronicle
  have hsettled := settled_finish m (c := c) (.inr rfl)
  simp only [failInitialization, finishInit, setState, after_bind_iff, after_modify]
  refine (keeps_escaping h _).mono ?_ ?_
  · intro _ m' hserved
    obtain ⟨hcont, hsame⟩ := hserved hchron
    exact ⟨hfirst.trans hcont, hsame, hcont.chronicle.legal.settled hcont.extend.journal hsettled⟩
  · intro m' hserved
    obtain ⟨hcont, hsame⟩ := hserved hchron
    exact ⟨hfirst.trans hcont, hsame⟩

theorem stateOf_ne_initializing {m : Machine} (hm : Chronicle m) {method : Method}
    (h : ¬ (method.isClinit && (m.classAt method.owner).state == .initializing m.current) = true) {c : ClassId}
    (hc : method.initializes? = some c) : m.journal.stateOf c ≠ .initializing m.current := by
  obtain ⟨hclinit, rfl⟩ := Method.initializes_eq_some.1 hc
  rw [hm.states]
  simpa [hclinit] using h

/-- A frame that is left is taken away, and what its method initializes is not in progress any more. -/
theorem after_leave (h : Hosted Served s) {m : Machine} (hm : Chronicle m) {mark : Mark} {rest : List Mark}
    (hmarks : m.marks = mark :: rest) {method : Method} (hmethod : mark.initialized? = method.initializes?)
    (exception : Ref) :
    After (leave s method exception) m
      (fun _ m' => Continued m m' ∧ m'.marks = rest ∧
        ∀ c, method.initializes? = some c → m'.journal.stateOf c ≠ .initializing m.current)
      (fun m' => Continued m m' ∧ m'.marks = rest) := by
  rw [leave, after_bind_iff]
  refine after_popFrame hmarks fun f frames hframes => ?_
  subst hframes
  have hpop := Continued.of_below hm (hmarks ▸ List.suffix_cons ..)
  simp only [isInitializing, after_bind_iff, after_get, after_pure]
  split
  · next hcond =>
    simp only [Bool.and_eq_true, beq_iff_eq] at hcond
    have hinitializes := Method.initializes_eq_some.2 ⟨hcond.1, rfl⟩
    have hfinish := hm.finish hmarks (hmethod.trans hinitializes) hcond.2 (.inr rfl)
    refine (after_failInitialization h hfinish exception).mono ?_ ?_
    · rintro _ m' ⟨hcont, hsame, hsettled⟩
      refine ⟨hcont, hsame, fun c hc => ?_⟩
      obtain ⟨_, rfl⟩ := Method.initializes_eq_some.1 hc
      grind
    · exact fun m' hend => hend
  · next hcond => exact ⟨hpop, rfl, fun c => stateOf_ne_initializing hpop.chronicle hcond⟩

/-! ## Unwinding -/

/-- The marks of initializers that have not started. -/
def AllWaiting (marks : List Mark) : Prop := ∀ mark ∈ marks, ∃ c, mark = .waiting c

theorem AllWaiting.nil : AllWaiting [] := nofun

theorem AllWaiting.dropWhile {waiting : List Mark} (h : AllWaiting waiting) (rest : List Mark) :
    (waiting ++ rest).dropWhile Mark.isActive = rest.dropWhile Mark.isActive := by
  refine List.dropWhile_append_of_pos fun mark hmark => ?_
  obtain ⟨c, rfl⟩ := h mark hmark
  rfl

/-- The machine as it is has landed if nothing runs above the barrier. -/
theorem Landed.of_served {e : Ending} {m m' : Machine} {waiting rest : List Mark} (hm : Chronicle m)
    (hmarks : m.marks = waiting ++ rest) (hw : AllWaiting waiting) (h : Served e m m')
    (hl : e = .done → m.InLine) : Landed e m rest m' := by
  obtain ⟨hcont, hsame⟩ := h hm
  refine ⟨hcont, ?_, fun hd => hcont.inLine hm (hl hd) hsame⟩
  rw [Machine.outer, hsame, hmarks, hw.dropWhile]

theorem Machine.inLine_of_top {m : Machine} {mark : Mark} {rest : List Mark} (hmarks : m.marks = mark :: rest)
    (hmark : mark.isActive = false) : m.InLine := by
  rw [Machine.InLine, hmarks]
  intro hactive
  rw [hmark] at hactive
  cases hactive

/-- An action lands in the line below initializers that have not started, whatever machine it starts from. -/
def Lands (act : M Unit) : Prop :=
  ∀ (m : Machine) (waiting rest : List Mark), Chronicle m → m.marks = waiting ++ rest → AllWaiting waiting →
    Lined m.superOf m.journal m.current [] rest →
    After act m (fun _ => Landed .done m rest) (Landed .halted m rest)

/-- Going on lands in the line if it does so after the innermost frame is left. -/
theorem after_leave_bind (h : Hosted Served s) {next : Ref → M Unit} (hnext : ∀ r, Lands (next r)) {m : Machine}
    {waiting rest : List Mark} (hm : Chronicle m) (hmarks : m.marks = waiting ++ rest) (hw : AllWaiting waiting)
    (hl : Lined m.superOf m.journal m.current [] rest) {mark : Mark} {below : List Mark}
    (htop : m.marks = mark :: below) (hactive : mark.isActive = true) {method : Method}
    (hmethod : mark.initialized? = method.initializes?) (exception : Ref) :
    After (leave s method exception >>= next) m (fun _ => Landed .done m rest) (Landed .halted m rest) := by
  have houter : below.dropWhile Mark.isActive = rest.dropWhile Mark.isActive := by
    rw [← hw.dropWhile rest, ← hmarks, htop, List.dropWhile_cons_of_pos hactive]
  rw [after_bind_iff]
  refine (after_leave h hm htop hmethod exception).mono ?_ ?_
  · rintro r m' ⟨hcont, hbelow, hover⟩
    have hsup (c : ClassId) (hc : .pushed c ∈ m.journal) := hcont.extend.superOf hm hc
    cases waiting with
    | nil =>
      -- The frame was in the line, which goes on below it.
      rw [List.nil_append] at hmarks
      have hline : Lined m'.superOf m'.journal m'.current [] below := by
        rw [hcont.current]
        rw [← hmarks, htop] at hl
        refine hl.tail hactive hcont.chronicle.legal hcont.extend.journal hsup fun c hc => ?_
        exact hover c (hmethod ▸ hc)
      have hlanded := hnext r m' [] below hcont.chronicle hbelow .nil hline
      refine hlanded.mono (fun _ m'' hend => ?_) fun m'' hend => ?_
      · exact ⟨hcont.trans hend.continued, hend.outer.trans houter, hend.inLine⟩
      · exact ⟨hcont.trans hend.continued, hend.outer.trans houter, hend.inLine⟩
    | cons first waiting =>
      -- The frame was waiting above the line.
      have hsplit : below = waiting ++ rest := by
        rw [htop, List.cons_append] at hmarks
        exact (List.cons.inj hmarks).2
      have hlanded := hnext r m' waiting rest hcont.chronicle (hbelow.trans hsplit)
        (fun k hk => hw k (List.mem_cons_of_mem _ hk)) (hcont.lined hm hl)
      exact hlanded.mono (fun _ m'' hend => hend.after hcont) fun m'' hend => hend.after hcont
  · rintro m' ⟨hcont, hbelow⟩
    exact ⟨hcont, by rw [Machine.outer, hbelow, houter], nofun⟩

/-- An exception takes away initializers that have not started, and lands in the line below them. -/
theorem lands_unwind (h : Hosted Served s) (n : Nat) (exception : Ref) : Lands (unwind s n exception) := by
  -- the induction is on how many frames there are to look at
  induction n generalizing exception with
  | zero =>
    intro m waiting rest hm hmarks hw _
    exact .of_served hm hmarks hw (Tolerant.minor (.refl m)) nofun
  | succ n ih =>
    intro m waiting rest hm hmarks hw hl
    rw [unwind, after_bind_iff, after_topFrame]
    have hpending : Served .done m { m with pending := some exception } :=
      Marking.mark _ m.overflowing rfl
    rcases hf : m.frames with _ | ⟨_ | stack | a, frames⟩
    · refine Landed.of_served hm hmarks hw hpending fun _ => ?_
      rw [Machine.InLine, Machine.marks, hf]
      trivial
    · refine Landed.of_served hm hmarks hw hpending fun _ => ?_
      exact Machine.inLine_of_top (congrArg (List.map Frame.mark) hf) rfl
    · refine Landed.of_served hm hmarks hw hpending fun _ => ?_
      exact Machine.inLine_of_top (congrArg (List.map Frame.mark) hf) rfl
    · have htop : m.marks = (Frame.active a).mark :: frames.map Frame.mark :=
        congrArg (List.map Frame.mark) hf
      have hactive := Frame.isActive_mark a
      have hmethod := Frame.initialized_mark a
      simp only [List.head?_cons]
      by_cases hpc : 0 ≤ a.pc
      · -- A frame that has started is in the line, and may handle the exception.
        have hempty : waiting = [] := by
          rcases waiting with _ | ⟨k, waiting⟩
          · rfl
          · obtain ⟨c, rfl⟩ := hw k List.mem_cons_self
            rw [hmarks] at htop
            simp only [Frame.mark, if_pos hpc] at htop
            split at htop <;> cases (List.cons.inj htop).1
        subst hempty
        have hline : m.InLine := by rw [Machine.InLine, hmarks]; exact hl
        rw [if_pos hpc, after_bind_iff]
        refine (keeps_findHandler h m).mono ?_ ?_
        · intro handler m' hserved
          obtain ⟨hcont, hsame⟩ := hserved hm
          cases handler with
          | some entry =>
            refine (keeps_deliver (R := Served) m').mono ?_ ?_
            · exact fun _ m'' hd => .of_served hm hmarks hw (Tolerant.trans hserved hd) fun _ => hline
            · exact fun m'' hd => .of_served hm hmarks hw (Tolerant.trans hserved hd) fun _ => hline
          | none =>
            refine (after_leave_bind h ih hcont.chronicle (hsame.trans hmarks) hw (hcont.lined hm hl)
              (hsame.trans htop) hactive hmethod exception).mono ?_ ?_
            · exact fun _ m'' hend => hend.after hcont
            · exact fun m'' hend => hend.after hcont
        · exact fun m' hserved => .of_served hm hmarks hw hserved fun _ => hline
      · rw [if_neg hpc, pure_bind]
        exact after_leave_bind h ih hm hmarks hw hl htop hactive hmethod exception

theorem Lands.keeps {act : M Unit} (h : Lands act) : Keeps Stepped act :=
  keeps_stepped fun m hm hl => h m [] m.marks hm rfl .nil hl

theorem Hosted.stepped (h : Hosted Served s) : Hosted Stepped s := h.mono Served.stepped

theorem keeps_throwObject (h : Hosted Served s) (exception : Option Ref) :
    Keeps Stepped (throwObject s exception) := by
  unfold throwObject
  cases exception with
  | some r =>
    refine keeps_bind keeps_pure fun r => ?_
    exact keeps_bind keeps_depth fun n => (lands_unwind h (n + 1) r).keeps
  | none =>
    refine keeps_bind (keeps_newThrowable h.stepped) fun r => ?_
    exact keeps_bind keeps_depth fun n => (lands_unwind h (n + 1) r).keeps

theorem lands_throwNew (h : Hosted Served s) (name message : String) : Lands (throwNew s name message) := by
  intro m waiting rest hm hmarks hw hl
  rw [throwNew, after_bind_iff]
  refine (keeps_newThrowable h m).mono ?_ ?_
  · intro r m' hserved
    obtain ⟨hcont, hsame⟩ := hserved hm
    refine ((lands_unwind h _ r) m' waiting rest hcont.chronicle (hsame.trans hmarks) hw
      (hcont.lined hm hl)).mono ?_ ?_
    · exact fun _ m'' hend => hend.after hcont
    · exact fun m'' hend => hend.after hcont
  · exact fun m' hserved => .of_served hm hmarks hw hserved nofun

/-! ## Calls -/

theorem mark_withStack (f : Frame) (s : OperandStack) : (f.withStack s).mark = f.mark := by
  cases f <;> rfl

theorem keeps_moveArguments {R : Ending → Machine → Machine → Prop} [Marking R] {n : Nat} :
    Keeps R (Execute.moveArguments n) := by
  intro m
  unfold After Execute.moveArguments
  rcases hf : m.frames with _ | ⟨_ | _ | callee, _ | ⟨caller, rest⟩⟩
  case cons.active.cons =>
    dsimp only
    cases OperandStack.popMany n caller.stack with
    | ok args stack =>
      refine Marking.mark m.pending m.overflowing ?_
      simp only [Machine.marks, hf, List.map_cons, mark_withStack]
      rfl
    | error e stack => exact Tolerant.minor (.refl m)
  all_goals exact Tolerant.minor (.refl m)

theorem after_pushFrame {m : Machine} {f : Frame} {Q : Bool → Machine → Prop} {H : Machine → Prop}
    (hpushed : m.frames.length < frameLimit m → Q true { m with frames := f :: m.frames }) (hfull : Q false m)
    (hhalt : H m) : After (pushFrame f) m Q H := by
  unfold pushFrame
  simp only [after_bind_iff, after_get]
  split
  · split
    · exact hhalt
    · exact hfull
  · next hroom => exact hpushed (Nat.lt_of_not_le hroom)

theorem Frame.initialized_ofMethod (method : Method) :
    (Frame.ofMethod method).mark.initialized? = method.initializes? := Frame.initialized_mark _

/-- An initializer may be entered: it is ready, and it was called like any other method or was not pushed before a former
machine became this one. -/
structure Enterable (m₀ m : Machine) (c : ClassId) : Prop where
  ready : m.journal.Ready m.superOf c
  fresh : .called c ∉ m.journal →
    .pushed c ∉ m₀.journal ∧ m.journal.stateOf c = .initializing m.current ∧ m.starting = m₀.starting

/-- A frame is put on the stack whose method is no initializer or may be entered. -/
theorem Continued.push {m₀ m : Machine} (h : Continued m₀ m) {method : Method}
    (henter : ∀ c, method.initializes? = some c → Enterable m₀ m c) :
    Continued m₀ { m with frames := Frame.ofMethod method :: m.frames } := by
  refine ⟨h.chronicle.of_frames _, h.extend.trans (.of_frames m _), h.current, fun away ht => ?_⟩
  obtain ⟨hm, hoptions⟩ := h.tended away ht
  refine ⟨?_, hoptions⟩
  have hmark := Frame.initialized_ofMethod method
  cases hmethod : method.initializes? with
  | none =>
    have hstarting : ({ m with frames := Frame.ofMethod method :: m.frames } : Machine).starting = m.starting :=
      List.filterMap_cons_none (hmark.trans hmethod)
    exact hm.mono rfl (List.suffix_refl _) (fun c => Nat.le_of_eq (by rw [hstarting])) fun _ _ => .inl rfl
  | some c =>
    refine hm.push (hmark.trans hmethod) fun hcalled => ?_
    obtain ⟨hready, hfresh⟩ := henter c hmethod
    obtain ⟨hnew, hstate, hsame⟩ := hfresh hcalled
    rw [hsame]
    exact ⟨ht.free_of_not_pushed hnew fun hc => hcalled (h.extend.journal.subset hc), (hready.resolve_left hcalled).1, hstate⟩

/-- A frame on top of a line whose method is no initializer or may be entered. -/
theorem Landed.push {m₀ m : Machine} (h : Continued m₀ m) (hl : m.InLine) {method : Method}
    (henter : ∀ c, method.initializes? = some c → Enterable m₀ m c) :
    Landed .done m₀ m.marks { m with frames := Frame.ofMethod method :: m.frames } := by
  refine ⟨h.push henter, ?_, fun _ => ?_⟩
  · exact List.dropWhile_cons_of_pos (Frame.isActive_mark _)
  · refine Lined.cons hl h.chronicle.legal fun c hc => .inl ?_
    rw [Frame.initialized_ofMethod] at hc
    exact (henter c hc).ready

/-- A call of a method that is no initializer or may be entered. -/
theorem after_enter (h : Hosted Served s) {m₀ m : Machine} (hcont : Continued m₀ m) (hl : m.InLine) {method : Method}
    (henter : ∀ c, method.initializes? = some c → Enterable m₀ m c) :
    After (Execute.enter s method) m (fun _ m' => Landed .done m₀ m.marks m' ∧ Extends m m')
      (fun m' => Landed .halted m₀ m.marks m' ∧ Extends m m') := by
  have hm := hcont.chronicle
  have hthrow (name message : String) :
      After (throwNew s name message) m (fun _ m' => Landed .done m₀ m.marks m' ∧ Extends m m')
        (fun m' => Landed .halted m₀ m.marks m' ∧ Extends m m') :=
    (lands_throwNew h name message m [] m.marks hm rfl .nil hl).mono
      (fun _ _ hend => ⟨hend.after hcont, hend.continued.extend⟩) fun _ hend => ⟨hend.after hcont, hend.continued.extend⟩
  unfold Execute.enter
  split
  · rw [after_bind_iff, after_classAt]
    exact hthrow _ _
  · rw [after_bind_iff]
    refine after_pushFrame (fun _ => ?_) ?_ ?_
    · have hpush := Landed.push hcont hl henter
      have hmove : Keeps Stepped (Execute.moveArguments method.argSlots) := keeps_moveArguments
      refine (hmove _).mono ?_ ?_
      · intro _ m' hstep
        have hmoved := hstep hpush.continued.chronicle (hpush.inLine rfl)
        exact ⟨hpush.trans hmoved, (Extends.of_frames m _).trans hmoved.continued.extend⟩
      · intro m' hstep
        have hmoved := hstep hpush.continued.chronicle (hpush.inLine rfl)
        exact ⟨hpush.trans hmoved, (Extends.of_frames m _).trans hmoved.continued.extend⟩
    · exact hthrow _ _
    · exact ⟨Landed.after (.of_served hm rfl .nil (Tolerant.minor (.refl m)) nofun) hcont, .refl m⟩

/-- An initializer that is called may be entered, as any other method may. -/
theorem after_recordCall {m : Machine} (hm : Chronicle m) {method : Method} {Q : Unit → Machine → Prop}
    {H : Machine → Prop}
    (h : ∀ m', Continued m m' → m'.marks = m.marks →
      (∀ m₀ c, method.initializes? = some c → Enterable m₀ m' c) → Q () m') :
    After (recordCall method) m Q H := by
  unfold recordCall
  split
  · have hnote : Chronicle (m.note (.called method.owner)) := hm.note trivial (fun _ => rfl) nofun nofun
    have hcont : Continued m (m.note (.called method.owner)) :=
      .of_count hnote (.note m _) rfl rfl (fun _ => Nat.le_refl _) fun _ _ => rfl
    refine h _ hcont rfl fun m₀ c hc => ?_
    obtain ⟨_, rfl⟩ := Method.initializes_eq_some.1 hc
    exact ⟨.inl List.mem_cons_self, fun hnone => absurd List.mem_cons_self hnone⟩
  · next hclinit =>
    refine h m (.refl hm) rfl fun m₀ c hc => ?_
    exact absurd (Method.initializes_eq_some.1 hc).1 hclinit

theorem keeps_enterCalled (h : Hosted Served s) (method : Method) :
    Keeps Stepped (Execute.enterCalled s method) := by
  refine keeps_stepped fun m hm hl => ?_
  rw [Execute.enterCalled, after_bind_iff]
  refine after_recordCall hm fun called hcont hmarks henter => ?_
  refine (after_enter h hcont (hcont.inLine hm hl hmarks) (henter m)).mono ?_ ?_
  · rintro _ m' ⟨hend, -⟩
    rwa [hmarks] at hend
  · rintro m' ⟨hend, -⟩
    rwa [hmarks] at hend

/-! ## Returns -/

/-- A return takes the innermost frame away, and what its method initializes is not in progress any more. -/
theorem after_conclude {m : Machine} (hm : Chronicle m) {mark : Mark} {rest : List Mark}
    (hmarks : m.marks = mark :: rest) {method : Method} (hmethod : mark.initialized? = method.initializes?)
    {H : Machine → Prop} :
    After (Execute.conclude method) m
      (fun _ m' => Continued m m' ∧ m'.marks = rest ∧
        ∀ c, method.initializes? = some c → m'.journal.stateOf c ≠ .initializing m.current) H := by
  rw [Execute.conclude, after_bind_iff]
  refine after_popFrame hmarks fun f frames hframes => ?_
  subst hframes
  have hpop := Continued.of_below hm (hmarks ▸ List.suffix_cons ..)
  simp only [isInitializing, after_bind_iff, after_get, after_pure]
  split
  · next hcond =>
    simp only [Bool.and_eq_true, beq_iff_eq] at hcond
    have hinitializes := Method.initializes_eq_some.2 ⟨hcond.1, rfl⟩
    refine ⟨hm.finish hmarks (hmethod.trans hinitializes) hcond.2 (.inl rfl), rfl, fun c hc => ?_⟩
    obtain ⟨_, rfl⟩ := Method.initializes_eq_some.1 hc
    have hsettled := settled_finish { m with frames } (c := method.owner) (.inl rfl)
    grind
  · next hcond => exact ⟨hpop, rfl, fun c => stateOf_ne_initializing hpop.chronicle hcond⟩

theorem keeps_finish (width : Nat) : Keeps Stepped (Execute.finish width) := by
  unfold Execute.finish
  refine keeps_bind (keeps_onStack Execute.orderly_popResult) fun result => keeps_stepped fun m hm hl => ?_
  have hsame : Landed .halted m m.marks m := .of_served hm rfl .nil (Tolerant.minor (.refl m)) nofun
  rw [after_bind_iff]
  refine after_activation (fun a frames hf => ?_) hsame
  have htop : m.marks = (Frame.active a).mark :: frames.map Frame.mark := congrArg (List.map Frame.mark) hf
  have hactive := Frame.isActive_mark a
  rw [after_bind_iff]
  refine (after_conclude hm htop (Frame.initialized_mark a)).mono ?_ fun _ => id
  rintro _ m' ⟨hcont, hbelow, hover⟩
  have hlanded : Landed .done m m.marks m' := by
    refine ⟨hcont, ?_, fun _ => ?_⟩
    · rw [Machine.outer, hbelow, htop, List.dropWhile_cons_of_pos hactive]
    · rw [Machine.InLine, hbelow, hcont.current]
      rw [Machine.InLine, htop] at hl
      refine hl.tail hactive hcont.chronicle.legal hcont.extend.journal
        (fun _ hc => hcont.extend.superOf hm hc) fun c hc => ?_
      exact hover c ((Frame.initialized_mark a).symm.trans hc)
  have hpush : Keeps Stepped (do if (← topFrame).isSome then onStack (OperandStack.pushAll result)) := by
    grind
  refine (hpush m').mono ?_ ?_
  · exact fun _ m'' hstep => hlanded.trans (hstep hcont.chronicle (hlanded.inLine rfl))
  · exact fun m'' hstep => hlanded.trans (hstep hcont.chronicle (hlanded.inLine rfl))

end JavaMachine
