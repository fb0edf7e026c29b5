import JavaMachine.Machine.Initialization
import JavaMachine.Proofs.Fields.Operands
import JavaMachine.Proofs.Initialization.Calls
import JavaMachine.Proofs.Machine.Claims

/-!
Initializers that an instruction puts on the frame stack. The class that the instruction needs and its
superclasses are claimed together, and then their initializers are pushed, the outermost superclass on top.
If there is no room for all of them, the classes without initializer on the stack are given back, and those
with one never start. Main result: `keeps_ensure`, that the frame stack is in line afterwards in any case.
-/

namespace JavaMachine

/-- The initializer of a class, an empty one if the class has none. -/
def Machine.initializerOf (m : Machine) (c : ClassId) : Method :=
  match (m.classAt c).findMethod Method.clinitName "()V" with
  | some method => if method.isStatic then method else .emptyClinit c
  | none => .emptyClinit c

namespace Initialization

open M Throwing

variable {s : Services}

/-! ## Claims -/

/-- A class that was claimed and whose initializer is not pushed yet, or given back. -/
structure Loose (m : Machine) (c : ClassId) : Prop where
  pushed : .pushed c ∉ m.journal
  unsettled : ¬ (m.journal.stateOf c).Settled
  linked : m.journal.stateOf c ≠ .unlinked

theorem Loose.enter_linked {m : Machine} {c k : ClassId} (h : Loose m k) :
    Loose (m.enter c .linked (.state c .linked)) k := by
  refine ⟨?_, ?_, ?_⟩
  · simpa [Machine.enter] using h.pushed
  · have := h.unsettled
    grind [Machine.enter, Journal.stateOf]
  · have := h.linked
    grind [Machine.enter, Journal.stateOf]

/-- Claims can be given back as long as the initializers are not pushed. -/
theorem after_giveBack {m : Machine} (hm : Chronicle m) {classes : List ClassId}
    (hc : ∀ c ∈ classes, Loose m c) {H : Machine → Prop} :
    After (classes.forM fun c => finishInit c .linked) m
      (fun _ => Restored m) H := by
  induction classes generalizing m with
  | nil => exact .refl hm
  | cons c rest ih =>
    have hloose := hc c List.mem_cons_self
    have hfirst : Restored m (m.enter c .linked (.state c .linked)) :=
      .enter (.refl hm) hloose.pushed hloose.linked ⟨hloose.pushed, hloose.unsettled⟩ (.inl rfl)
    rw [List.forM_eq_forM, List.forM_cons, after_bind_iff]
    refine (ih hfirst.continued.chronicle fun k hk => ?_).mono (fun _ m' => hfirst.trans) fun _ => id
    exact (hc k (List.mem_cons_of_mem _ hk)).enter_linked

/-- All classes of a list were claimed in order, and nothing else happened. -/
structure ClaimedAll (m : Machine) (classes : List ClassId) (m' : Machine) : Prop where
  continued : Continued m m'
  marks : m'.marks = m.marks
  linked : ∀ c ∈ classes, m.journal.stateOf c = .linked
  claimed : ∀ c ∈ classes, m'.journal.stateOf c = .initializing m.current
  nodup : classes.Nodup
  pushed : ∀ c, .pushed c ∈ m'.journal → .pushed c ∈ m.journal
  others : ∀ p, m.journal.stateOf p ≠ .linked → m'.journal.stateOf p = m.journal.stateOf p
  claims : ∀ c, c ∉ classes → m'.journal.beforeClaim c = m.journal.beforeClaim c
  before : ∀ c ∈ classes, ∀ p, m.journal.stateOf p ≠ .linked →
    (m'.journal.beforeClaim c).stateOf p = m.journal.stateOf p

theorem ClaimedAll.nil {m : Machine} (hm : Chronicle m) : ClaimedAll m [] m where
  continued := .refl hm
  marks := rfl
  linked := nofun
  claimed := nofun
  nodup := .nil
  pushed _ := id
  others _ _ := rfl
  claims _ _ := rfl
  before := nofun

/-- The machine after a claim. -/
def claiming (m : Machine) (c : ClassId) : Machine :=
  m.enter c (.initializing m.current) (.state c (.initializing m.current))

theorem restored_claiming {m : Machine} (hm : Chronicle m) {c : ClassId}
    (hc : m.journal.stateOf c = .linked) : Restored m (claiming m c) :=
  .enter (.refl hm) (hm.legal.not_pushed_of_linked hc) (by simp [hc]) hc (.inl rfl)

theorem stateOf_claiming (m : Machine) (c k : ClassId) :
    (claiming m c).journal.stateOf k = if c = k then .initializing m.current else m.journal.stateOf k := rfl

theorem beforeClaim_claiming (m : Machine) (c k : ClassId) :
    (claiming m c).journal.beforeClaim k = if c = k then m.journal else m.journal.beforeClaim k := rfl

theorem Loose.claiming {m : Machine} {c k : ClassId} (h : Loose m k) : Loose (claiming m c) k := by
  refine ⟨?_, ?_, ?_⟩
  · simpa [Initialization.claiming, Machine.enter] using h.pushed
  · have := h.unsettled
    grind [stateOf_claiming]
  · have := h.linked
    grind [stateOf_claiming]

theorem loose_claiming {m : Machine} (hm : Chronicle m) {c : ClassId} (hc : m.journal.stateOf c = .linked) :
    Loose (claiming m c) c := by
  refine Loose.claiming ⟨hm.legal.not_pushed_of_linked hc, ?_, ?_⟩
  · grind
  · grind

theorem ClaimedAll.cons {m m' : Machine} (hm : Chronicle m) {c : ClassId} {rest : List ClassId}
    (hc : m.journal.stateOf c = .linked) (h : ClaimedAll (claiming m c) rest m') :
    ClaimedAll m (c :: rest) m' := by
  have hfirst := (restored_claiming hm hc).continued
  have hrest : c ∉ rest := by
    intro hmem
    have := h.linked c hmem
    rw [stateOf_claiming, if_pos rfl] at this
    cases this
  have hkeep (p : ClassId) (hp : m.journal.stateOf p ≠ .linked) :
      (claiming m c).journal.stateOf p = m.journal.stateOf p := by
    rw [stateOf_claiming, if_neg]
    rintro rfl
    exact hp hc
  refine {
    continued := hfirst.trans h.continued
    marks := h.marks
    linked := ?_
    claimed := ?_
    nodup := List.nodup_cons.2 ⟨hrest, h.nodup⟩
    pushed := fun k hk => by simpa [claiming, Machine.enter] using h.pushed k hk
    others := fun p hp => by rw [h.others p (by rwa [hkeep p hp]), hkeep p hp]
    claims := ?_
    before := ?_ }
  · intro k hk
    rcases List.mem_cons.1 hk with rfl | hk
    · exact hc
    · have := h.linked k hk
      rw [stateOf_claiming] at this
      split at this
      · cases this
      · exact this
  · intro k hk
    rcases List.mem_cons.1 hk with rfl | hk
    · rw [h.others, stateOf_claiming, if_pos rfl]
      rw [stateOf_claiming, if_pos rfl]
      exact ClassState.noConfusion
    · exact h.claimed k hk
  · intro k hk
    rw [h.claims k fun hmem => hk (List.mem_cons_of_mem _ hmem), beforeClaim_claiming, if_neg]
    rintro rfl
    exact hk List.mem_cons_self
  · intro k hk p hp
    rcases List.mem_cons.1 hk with rfl | hk
    · rw [h.claims k hrest, beforeClaim_claiming, if_pos rfl]
    · rw [h.before k hk p (by rwa [hkeep p hp]), hkeep p hp]

theorem after_claim {m : Machine} (hm : Chronicle m) {c : ClassId} {Q : Bool → Machine → Prop}
    {H : Machine → Prop} (hyes : m.journal.stateOf c = .linked → Q true (claiming m c)) (hno : Q false m) :
    After (claim c) m Q H := by
  simp only [claim, after_bind_iff, after_classAt]
  split
  · next hc => exact hyes ((hm.states c).trans hc)
  · exact hno

/-- Either all classes are claimed, or none is. -/
theorem after_claimAll {m : Machine} (hm : Chronicle m) {claimed classes : List ClassId}
    (hc : ∀ c ∈ claimed, Loose m c) {H : Machine → Prop} :
    After (claimAll claimed classes) m
      (fun b m' => if b then ClaimedAll m classes m' else Restored m m') H := by
  induction classes generalizing m claimed with
  | nil => exact ClaimedAll.nil hm
  | cons c rest ih =>
    rw [claimAll, after_bind_iff]
    refine after_claim hm ?_ ?_
    · intro hlinked
      have hfirst := restored_claiming hm hlinked
      have hloose : ∀ k ∈ c :: claimed, Loose (claiming m c) k := by
        intro k hk
        rcases List.mem_cons.1 hk with rfl | hk
        · exact loose_claiming hm hlinked
        · exact (hc k hk).claiming
      refine (ih hfirst.continued.chronicle hloose).mono ?_ fun _ => id
      rintro (_ | _) m' h
      · exact hfirst.trans h
      · exact ClaimedAll.cons hm hlinked h
    · simp only [Bool.false_eq_true, if_false, after_bind_iff]
      exact after_giveBack hm hc

/-! ## Pushes -/

theorem after_initializer {m : Machine} (hm : Chronicle m) {c : ClassId} {Q : Method → Machine → Prop}
    {H : Machine → Prop} (h : ∀ method, method.isClinit = true → method.owner = c → Q method m) :
    After (initializer c) m Q H := by
  simp only [initializer, after_bind_iff, after_classAt]
  split
  · next method hfound =>
    rw [Class.findMethod] at hfound
    split
    · refine h method ?_ (hm.owners c method (List.mem_of_find?_eq_some hfound))
      have := List.find?_some hfound
      simp only [Bool.and_eq_true] at this
      exact this.1
    · exact h _ rfl rfl
  · exact h _ rfl rfl

theorem mark_ofMethod {method : Method} (h : method.isClinit = true) :
    (Frame.ofMethod method).mark = .waiting method.owner := by
  simp [Frame.ofMethod, Frame.mark, h]

/-- The initializers of all classes of a list were pushed in order, and nothing else happened. -/
structure PushedAll (m : Machine) (classes : List ClassId) (m' : Machine) : Prop where
  continued : Continued m m'
  marks : m'.marks = classes.reverse.map .waiting ++ m.marks
  pushed : ∀ c ∈ classes, .pushed c ∈ m'.journal
  states : ∀ c, m'.journal.stateOf c = m.journal.stateOf c
  claims : ∀ c, m'.journal.beforeClaim c = m.journal.beforeClaim c

/-- The machine after a push. -/
def pushing (m : Machine) (c : ClassId) (f : Frame) : Machine :=
  { m with frames := f :: m.frames }.note (.pushed c)

theorem continued_pushing {m : Machine} (hm : Chronicle m) {c : ClassId} (hc : Loose m c)
    (hstate : m.journal.stateOf c = .initializing m.current) {f : Frame} (hf : f.mark.initialized? = some c) :
    Continued m (pushing m c f) := by
  let noted : Machine := m.note (.pushed c)
  have hnoted : Chronicle noted := hm.note ⟨hc.pushed, m.current, hstate⟩ (fun _ => rfl)
    (fun k hk => by cases hk; exact hm.lt hc.linked) nofun
  refine ⟨hnoted.of_frames _, (Extends.note m _).trans (.of_frames noted _), rfl, fun away ht => ⟨?_, rfl⟩⟩
  have htended : noted.Tended away :=
    ht.mono rfl (List.suffix_cons ..) (fun _ => Nat.le_refl _) fun _ _ => .inl rfl
  refine Machine.Tended.push htended hf fun hcalled => ⟨?_, List.mem_cons_self, hstate⟩
  exact ht.free_of_not_pushed hc.pushed fun hold => hcalled (List.mem_cons_of_mem _ hold)

theorem marks_pushing (m : Machine) (c : ClassId) (f : Frame) :
    (pushing m c f).marks = f.mark :: m.marks := rfl

/-- The machine in which the initializer of a class was put on the frame stack. -/
def pushingInitializer (m : Machine) (c : ClassId) : Machine := pushing m c (Frame.ofMethod (m.initializerOf c))

theorem run_initializer {m : Machine} (c : ClassId) : initializer c m = .ok (m.initializerOf c) m := by
  rw [initializer, M.run_bind (M.run_classAt c m), Machine.initializerOf]
  cases (m.classAt c).findMethod Method.clinitName "()V" <;> rfl

/-- An initializer that fits is put on the frame stack and noted, and the next one follows. -/
theorem run_pushInitializers_cons {s : Context} {m : Machine} (hroom : m.frames.length < frameLimit m) (c : ClassId)
    (rest : List ClassId) :
    pushInitializers s (c :: rest) m = pushInitializers s rest (pushingInitializer m c) := by
  rw [pushInitializers, M.run_bind (run_initializer c), M.run_bind (M.run_pushFrame hroom _), if_pos rfl]
  rfl

/-- Where an initializer does not fit, nothing is noted. -/
theorem run_pushInitializers_full {s : Context} {m : Machine} (hfull : frameLimit m ≤ m.frames.length) (c : ClassId)
    (rest : List ClassId) :
    pushInitializers s (c :: rest) m =
      (if m.overflowing then fatal "stack overflow while constructing a runtime exception" else do
        (c :: rest).forM fun k => finishInit k .linked
        s.throwStackOverflow : M Unit) m := by
  rw [pushInitializers, M.run_bind (run_initializer c), pushFrame, bind_apply, M.run_bind (M.run_get m), if_pos hfull]
  cases m.overflowing <;> rfl

/-- Initializers are pushed as far as there is room for them. -/
theorem exists_pushed (s : Context) (m : Machine) (classes : List ClassId) :
    ∃ pushed rest, classes = pushed ++ rest ∧
      pushInitializers s classes m = pushInitializers s rest (pushed.foldl pushingInitializer m) ∧
      (rest = [] ∨ frameLimit m ≤ m.frames.length + pushed.length) := by
  induction classes generalizing m with
  | nil => exact ⟨[], [], rfl, rfl, .inl rfl⟩
  | cons c classes ih =>
    rcases Nat.lt_or_ge m.frames.length (frameLimit m) with hroom | hfull
    · obtain ⟨pushed, rest, rfl, hrun, hrest⟩ := ih (pushingInitializer m c)
      refine ⟨c :: pushed, rest, rfl, (run_pushInitializers_cons hroom c _).trans hrun, hrest.imp_right fun hfull => ?_⟩
      change frameLimit m ≤ m.frames.length + 1 + pushed.length at hfull
      rw [List.length_cons]
      omega
    · exact ⟨[], c :: classes, rfl, rfl, .inr hfull⟩

theorem run_pushInitializers {s : Context} {m : Machine} {classes : List ClassId}
    (hroom : m.frames.length + classes.length ≤ frameLimit m) :
    pushInitializers s classes m = .ok () (classes.foldl pushingInitializer m) := by
  obtain ⟨pushed, rest, rfl, hrun, hrest⟩ := exists_pushed s m classes
  have hnone : rest = [] := by
    refine hrest.elim id fun hfull => List.eq_nil_of_length_eq_zero ?_
    rw [List.length_append] at hroom
    omega
  rw [hrun, hnone, List.append_nil]
  rfl

theorem frames_pushed (m : Machine) (classes : List ClassId) :
    (classes.foldl pushingInitializer m).frames =
      (classes.map fun k => Frame.ofMethod (m.initializerOf k)).reverse ++ m.frames := by
  induction classes generalizing m with
  | nil => rfl
  | cons c rest ih =>
    rw [List.foldl_cons, ih, List.map_cons, List.reverse_cons, List.append_assoc]
    rfl

theorem journal_pushed (m : Machine) (classes : List ClassId) :
    (classes.foldl pushingInitializer m).journal = (classes.map Event.pushed).reverse ++ m.journal := by
  induction classes generalizing m with
  | nil => rfl
  | cons c rest ih =>
    rw [List.foldl_cons, ih, List.map_cons, List.reverse_cons, List.append_assoc]
    rfl

theorem pushed_eq (m : Machine) (classes : List ClassId) :
    classes.foldl pushingInitializer m = { m with
      frames := (classes.map fun k => Frame.ofMethod (m.initializerOf k)).reverse ++ m.frames
      journal := (classes.map Event.pushed).reverse ++ m.journal } := by
  rw [← frames_pushed, ← journal_pushed]
  induction classes generalizing m with
  | nil => rfl
  | cons c rest ih => exact ih (pushingInitializer m c)

/-- What is noted of initializers is what became of the frame stack: those that were put there are noted, and no other. What
does not fit is given back. -/
theorem pushInitializers_eq (s : Context) (m : Machine) (classes : List ClassId) :
    ∃ pushed rest, classes = pushed ++ rest ∧
      pushInitializers s classes m =
        (if rest = [] then pure ()
        else if m.overflowing then fatal "stack overflow while constructing a runtime exception"
        else do
          rest.forM fun k => finishInit k .linked
          s.throwStackOverflow : M Unit) { m with
        frames := (pushed.map fun k => Frame.ofMethod (m.initializerOf k)).reverse ++ m.frames
        journal := (pushed.map Event.pushed).reverse ++ m.journal } := by
  obtain ⟨pushed, rest, rfl, hrun, hrest⟩ := exists_pushed s m classes
  refine ⟨pushed, rest, rfl, hrun.trans ?_⟩
  rw [← pushed_eq]
  cases rest with
  | nil => rfl
  | cons c rest =>
    have hfull := hrest.resolve_left (List.cons_ne_nil c rest)
    rw [if_neg (List.cons_ne_nil c rest), run_pushInitializers_full ?_, pushed_eq]
    rw [frames_pushed, List.length_append, List.length_reverse, List.length_map, pushed_eq]
    exact Nat.le_trans hfull (Nat.le_of_eq (Nat.add_comm ..))

theorem PushedAll.cons {m m' : Machine} {c : ClassId} {rest : List ClassId} {f : Frame}
    (h : PushedAll (pushing m c f) rest m') (hcont : Continued m (pushing m c f))
    (hf : f.mark = .waiting c) : PushedAll m (c :: rest) m' where
  continued := hcont.trans h.continued
  marks := by simp [h.marks, marks_pushing, hf]
  pushed k hk := by
    rcases List.mem_cons.1 hk with rfl | hk
    · exact h.continued.extend.journal.subset List.mem_cons_self
    · exact h.pushed k hk
  states := h.states
  claims := h.claims

theorem Loose.pushing {m : Machine} {c k : ClassId} (h : Loose m k) (hk : k ≠ c) (f : Frame) :
    Loose (pushing m c f) k := by
  refine ⟨?_, h.unsettled, h.linked⟩
  simpa [Initialization.pushing, Machine.note, hk] using h.pushed

/-- Either all initializers are pushed, or those that are never start and the other classes are given
back. -/
theorem after_pushInitializers (h : Hosted Served s) {m : Machine} (hm : Chronicle m) {classes : List ClassId}
    (hloose : ∀ c ∈ classes, Loose m c) (hnodup : classes.Nodup)
    (hstate : ∀ c ∈ classes, m.journal.stateOf c = .initializing m.current) {waiting line : List Mark}
    (hmarks : m.marks = waiting ++ line) (hw : AllWaiting waiting)
    (hl : Lined m.superOf m.journal m.current [] line) :
    After (pushInitializers s classes) m
      (fun _ m' => PushedAll m classes m' ∨ Landed .done m line m') (Landed .halted m line) := by
  induction classes generalizing m waiting with
  | nil => exact .inl ⟨.refl hm, rfl, nofun, fun _ => rfl, fun _ => rfl⟩
  | cons c rest ih =>
    rw [pushInitializers, after_bind_iff]
    refine after_initializer hm fun method hclinit howner => ?_
    rw [after_bind_iff]
    have hfirst := hloose c List.mem_cons_self
    refine after_pushFrame (fun _ => ?_) ?_ ?_
    · -- the initializer is on the stack, and waits while the rest is pushed on top of it
      simp only [if_true, after_bind_iff, record, after_modify]
      change After (pushInitializers s rest) (pushing m c (Frame.ofMethod method)) _ _
      have hmark : (Frame.ofMethod method).mark = .waiting c := howner ▸ mark_ofMethod hclinit
      have hcont := continued_pushing hm hfirst (hstate c List.mem_cons_self) (congrArg Mark.initialized? hmark)
      have hwaiting : AllWaiting (.waiting c :: waiting) := by
        intro k hk
        rcases List.mem_cons.1 hk with rfl | hk
        · exact ⟨c, rfl⟩
        · exact hw k hk
      have hdistinct := List.nodup_cons.1 hnodup
      refine (ih hcont.chronicle ?_ hdistinct.2 ?_ ?_ hwaiting (hcont.lined hm hl)).mono ?_ ?_
      · intro k hk
        refine (hloose k (List.mem_cons_of_mem _ hk)).pushing ?_ _
        rintro rfl
        exact hdistinct.1 hk
      · exact fun k hk => hstate k (List.mem_cons_of_mem _ hk)
      · rw [marks_pushing, hmark, hmarks, List.cons_append]
      · rintro _ m' (hall | hend)
        · exact .inl (hall.cons hcont hmark)
        · exact .inr (hend.after hcont)
      · exact fun m' hend => hend.after hcont
    · -- there is no room: what waits on the stack is taken away by the exception
      simp only [Bool.false_eq_true, if_false, after_bind_iff]
      refine (after_giveBack hm hloose).mono ?_ fun _ => id
      rintro _ m' ⟨hcont, hsame⟩
      refine (lands_throwNew h _ _ m' waiting line hcont.chronicle (hsame.trans hmarks) hw
        (hcont.lined hm hl)).mono ?_ ?_
      · exact fun _ m'' hend => .inr (hend.after hcont)
      · exact fun m'' hend => hend.after hcont
    · exact .of_served hm hmarks hw (Tolerant.minor (.refl m)) (by simp)

/-! ## Chains of superclasses -/

/-- The linked classes from a class up, each followed by its superclass, and the class that ends them. -/
def Chained (m : Machine) (last : Option ClassId) : Option ClassId → List ClassId → Prop
  | none, classes => classes = []
  | some c, [] => m.journal.stateOf c ≠ .linked ∧ last = some c
  | some c, k :: rest => k = c ∧ Chained m last (m.superOf c) rest

theorem Chained.drop {m : Machine} {last start : Option ClassId} {before after : List ClassId} {c : ClassId}
    (h : Chained m last start (before ++ c :: after)) : Chained m last (m.superOf c) after := by
  induction before generalizing start with
  | nil =>
    cases start with
    | none => cases h
    | some k =>
      obtain ⟨rfl, hrest⟩ := h
      exact hrest
  | cons first before ih =>
    cases start with
    | none => cases h
    | some k => exact ih h.2

theorem after_awaitState {m : Machine} {c : ClassId} {Q : ClassState → Machine → Prop} {H : Machine → Prop}
    (h : Q (m.classAt c).state m) (hstuck : H m) : After (awaitState c) m Q H := by
  simp only [awaitState, after_bind_iff, after_get]
  split
  · next t ht =>
    split
    · rw [after_pure, ← ht]
      exact h
    · exact hstuck
  · exact h

/-- The chain of a class, unless it is longer than asked for. -/
theorem after_chain {m : Machine} (hm : Chronicle m) (n : Nat) (start : Option ClassId) :
    After (chain n start) m
      (fun r m' => m' = m ∧ (∀ c ∈ r.1, m.journal.stateOf c = .linked) ∧
        (r.1.length = n ∨ Chained m r.2 start r.1)) (· = m) := by
  induction n generalizing start with
  | zero => exact ⟨rfl, nofun, .inl rfl⟩
  | succ n ih =>
    cases start with
    | none => exact ⟨rfl, nofun, .inr rfl⟩
    | some c =>
      rw [chain, after_bind_iff]
      refine after_awaitState ?_ rfl
      split
      · next hlinked =>
        have hc : m.journal.stateOf c = .linked := (hm.states c).trans hlinked
        simp only [after_bind_iff, after_classAt]
        split
        · next hinterface =>
          refine ⟨rfl, by simpa using hc, .inr ⟨rfl, ?_⟩⟩
          simp [Machine.superOf, hinterface, Chained]
        · next hinterface =>
          have hsuper : m.superOf c = (m.classAt c).super := by simp [Machine.superOf, hinterface]
          rw [after_bind_iff]
          refine (ih (m.classAt c).super).mono ?_ fun _ => id
          rintro ⟨rest, last⟩ m' ⟨rfl, hall, hshape⟩
          refine ⟨rfl, ?_, ?_⟩
          · intro k hk
            rcases List.mem_cons.1 hk with rfl | hk
            · exact hc
            · exact hall k hk
          · rcases hshape with hlength | hchain
            · exact .inl (congrArg (· + 1) hlength)
            · exact .inr ⟨rfl, hsuper ▸ hchain⟩
      · next hlinked =>
        refine ⟨rfl, fun k hk => absurd hk List.not_mem_nil, .inr ⟨fun hc => ?_, rfl⟩⟩
        exact hlinked ((hm.states c).symm.trans hc)

/-! ## Scheduling -/

/-- Classes in a line from the outermost superclass on top. -/
theorem lined_waiting {sup : ClassId → Option ClassId} {j : Journal} {t : Nat} {classes : List ClassId}
    {marks : List Mark} (hl : j.Legal) (hbase : Lined sup j t [] marks)
    (hback : ∀ before c after, classes = before ++ c :: after → Backed sup j t after c) :
    Lined sup j t [] (classes.reverse.map .waiting ++ marks) := by
  -- The induction goes down the stack: `above` are the classes on top, which come last in the list.
  have hline (below above : List ClassId) (hsplit : classes = below.reverse ++ above) :
      Lined sup j t above (below.map .waiting ++ marks) := by
    induction below generalizing above with
    | nil => exact hbase.mono hl (List.suffix_refl _) (fun _ _ => rfl) nofun
    | cons c below ih =>
      rw [List.reverse_cons, List.append_assoc] at hsplit
      intro _
      refine ⟨fun k hk => ?_, ih (c :: above) hsplit⟩
      cases hk
      exact hback below.reverse c above hsplit
  exact hline classes.reverse [] (by simp)

/-- The initializers of a chain that was claimed and pushed are in line, if what ends the chain has not
failed. -/
theorem inLine_of_pushedAll {m m₁ m₂ : Machine} {last start : Option ClassId} {classes : List ClassId}
    (hm : Chronicle m) (hl : m.InLine) (hchain : Chained m last start classes)
    (hlast : ∀ p, last = some p → m.journal.stateOf p ≠ .erroneous) (hclaim : ClaimedAll m classes m₁)
    (hpush : PushedAll m₁ classes m₂) : m₂.InLine := by
  have hcont := hclaim.continued.trans hpush.continued
  have hlegal := hcont.chronicle.legal
  rw [Machine.InLine, hpush.marks, hclaim.marks]
  refine lined_waiting hlegal (hcont.lined hm hl) ?_
  rintro before c after rfl
  have hmem : c ∈ before ++ c :: after := by simp
  have hpushed := hpush.pushed c hmem
  have hlinked : m.journal.stateOf c ≠ .unlinked := by simp [hclaim.linked c hmem]
  have hsup := hcont.extend.superOf_of_linked hm hlinked
  have hup := hchain.drop
  cases hp : m.superOf c with
  | none =>
    refine .inl (.inr ⟨hpushed, fun p hq => ?_⟩)
    rw [hsup, hp] at hq
    cases hq
  | some p =>
    rw [hp] at hup
    cases after with
    | nil =>
      -- The superclass was not linked: it is initialized, or it was not there to wait for.
      obtain ⟨hnot, hend⟩ := hup
      have hgood := hlast p hend
      refine .inl (.inr ⟨hpushed, fun q hq => ?_⟩)
      rw [hsup, hp] at hq
      cases hq
      have hnow : m₂.journal.stateOf p = m.journal.stateOf p :=
        (hpush.states p).trans (hclaim.others p hnot)
      have hthen : (m₂.journal.beforeClaim c).stateOf p = m.journal.stateOf p := by
        rw [hpush.claims c, hclaim.before c hmem p hnot]
      unfold Journal.Early
      rw [hthen]
      cases hstate : m.journal.stateOf p with
      | unlinked => exact .inl (.inl rfl)
      | initializing t => exact .inl (.inr ⟨t, rfl⟩)
      | initialized => exact .inr (.inl (Journal.mem_of_stateOf (hnow.trans hstate)))
      | linked => exact absurd hstate hnot
      | erroneous => exact absurd hstate hgood
    | cons k rest =>
      obtain ⟨rfl, _⟩ := hup
      have hk : k ∈ before ++ c :: k :: rest := by simp
      refine .inr ⟨hpushed, k, hsup.trans hp, List.mem_cons_self, hpush.pushed k hk, ?_⟩
      rw [hpush.states k, hclaim.claimed k hk, hcont.current]

/-- A chain without repetition is no longer than there are classes. -/
theorem length_le_of_claimedAll {m m' : Machine} (hm : Chronicle m) {classes : List ClassId}
    (h : ClaimedAll m classes m') : classes.length ≤ m.classes.size := by
  have hsub : classes ⊆ (List.range m.classes.size).map ClassId.mk := by
    intro c hc
    have hlt := hm.lt (c := c) (by simp [h.linked c hc])
    exact List.mem_map.2 ⟨c.index, List.mem_range.2 hlt, rfl⟩
  simpa using h.nodup.length_le_of_subset hsub

theorem ClaimedAll.loose {m m' : Machine} (hm : Chronicle m) {classes : List ClassId}
    (h : ClaimedAll m classes m') {c : ClassId} (hc : c ∈ classes) : Loose m' c := by
  have hstate := h.claimed c hc
  refine ⟨fun hp => hm.legal.not_pushed_of_linked (h.linked c hc) (h.pushed c hp), ?_, ?_⟩
  · grind
  · grind

/-- Where a chain is claimed, its initializers are pushed in line or an exception lands in the line below. -/
theorem after_pushInitializers_of_claimedAll (h : Hosted Served s) {m m₁ : Machine}
    {last start : Option ClassId} {classes : List ClassId} (hm : Chronicle m) (hl : m.InLine)
    (hchain : Chained m last start classes) (hlast : ∀ p, last = some p → m.journal.stateOf p ≠ .erroneous)
    (hclaim : ClaimedAll m classes m₁) :
    After (pushInitializers s classes) m₁ (fun _ => Landed .done m m.marks) (Landed .halted m m.marks) := by
  have hline : Lined m₁.superOf m₁.journal m₁.current [] m.marks := hclaim.continued.lined hm hl
  refine (after_pushInitializers h hclaim.continued.chronicle (fun c hc => hclaim.loose hm hc) hclaim.nodup
    (fun c hc => (hclaim.claimed c hc).trans (by rw [hclaim.continued.current])) hclaim.marks .nil hline).mono
    ?_ ?_
  · rintro _ m₂ (hpush | hend)
    · refine ⟨hclaim.continued.trans hpush.continued, ?_, fun _ => ?_⟩
      · rw [Machine.outer, hpush.marks, hclaim.marks]
        refine AllWaiting.dropWhile ?_ m.marks
        intro mark hmark
        obtain ⟨c, _, rfl⟩ := List.mem_map.1 hmark
        exact ⟨c, rfl⟩
      · exact inLine_of_pushedAll hm hl hchain hlast hclaim hpush
    · exact hend.after hclaim.continued
  · exact fun m₂ hend => hend.after hclaim.continued

theorem keeps_schedule (h : Hosted Served s) (c : ClassId) : Keeps Stepped (schedule s c) := by
  refine keeps_stepped fun m hm hl => ?_
  simp only [schedule, after_bind_iff, after_get]
  refine (after_chain hm _ _).mono ?_ ?_
  · rintro ⟨classes, last⟩ m ⟨rfl, _, hshape⟩
    dsimp only at hshape ⊢
    split
    · rw [after_bind_iff, failedBefore, after_bind_iff]
      exact lands_throwNew h _ _ m [] m.marks hm rfl .nil hl
    · next hnone =>
      have hlast (p : ClassId) (hp : last = some p) : m.journal.stateOf p ≠ .erroneous := by
        rw [hm.states]
        simpa [hp] using hnone
      rw [after_bind_iff]
      refine (after_claimAll hm ?_).mono ?_ fun _ => id
      · exact fun k hk => absurd hk List.not_mem_nil
      · rintro (_ | _) m₁ hclaim
        · exact ⟨hclaim.1, by rw [Machine.outer, hclaim.2], fun _ => hclaim.1.inLine hm hl hclaim.2⟩
        · have hlength := length_le_of_claimedAll hm hclaim
          have hchain : Chained m last (some c) classes := hshape.resolve_left fun heq => by omega
          exact after_pushInitializers_of_claimedAll h hm hl hchain hlast hclaim
  · rintro m rfl
    exact .of_served hm rfl .nil (Tolerant.minor (.refl m)) (by simp)

/-- Whatever state a class is in, the frames are in line after it was asked for. -/
theorem keeps_ensure (h : Hosted Served s) (c : ClassId) : Keeps Stepped (ensure s c) := by
  unfold ensure
  refine keeps_bind keeps_awaitState fun state => ?_
  split
  · exact keeps_pure
  · exact keeps_pure
  · refine keeps_bind keeps_failedBefore fun text => ?_
    exact keeps_bind (lands_throwNew h _ _).keeps fun _ => keeps_pure
  · refine keeps_bind (keeps_goOn) fun _ => ?_
    exact keeps_bind (keeps_schedule h c) fun _ => keeps_pure

end Initialization

end JavaMachine
