import JavaMachine.Proofs.Initialization.Chronicle

/-!
Initializers on the frame stack. The marks of a frame stack are `Lined` up if each initializer above the
innermost barrier is ready to run, or waits for that of its superclass, which is on top of it. Its frames are `Tended` if no
class has two for its initializer, nor one whose initialization is over.

Two relations say what actions do to the chronicle and to the frames. What the operations of the machine do is
`Served`: the frames are afterwards as before. What instructions do is `Stepped`: frames may come and go above
the barrier and stay lined up, except where the machine halts. Main results: both allow quiet changes, and
what is served is stepped too.
-/

namespace JavaMachine

/-! ## Lines of initializers -/

/-- Whether a frame runs code. -/
def Mark.isActive : Mark → Bool
  | .barrier => false
  | .shim => false
  | _ => true

/-- The class whose initializer a frame runs. -/
def Mark.initialized? : Mark → Option ClassId
  | .waiting c => some c
  | .initializer c => some c
  | _ => none

theorem Mark.isActive_of_initialized {mark : Mark} {c : ClassId} (h : mark.initialized? = some c) :
    mark.isActive = true := by
  cases mark with
  | waiting | initializer => rfl
  | barrier | shim | plain => cases h

/-- An initializer is ready, or that of its superclass is above it and in progress for the same thread. -/
def Backed (sup : ClassId → Option ClassId) (j : Journal) (t : Nat) (above : List ClassId) (c : ClassId) :
    Prop :=
  j.Ready sup c ∨
    .pushed c ∈ j ∧ ∃ p, sup c = some p ∧ p ∈ above ∧ .pushed p ∈ j ∧ j.stateOf p = .initializing t

/-- Every initializer down to the next barrier is backed by those above it. -/
def Lined (sup : ClassId → Option ClassId) (j : Journal) (t : Nat) : List ClassId → List Mark → Prop
  | _, [] => True
  | above, mark :: rest =>
    mark.isActive = true →
      (∀ c, mark.initialized? = some c → Backed sup j t above c) ∧
        Lined sup j t (mark.initialized?.toList ++ above) rest

theorem Backed.mono {sup sup' : ClassId → Option ClassId} {j j' : Journal} {t : Nat}
    {above above' : List ClassId} {c : ClassId} (h : Backed sup j t above c) (hl : j'.Legal) (hj : j <:+ j')
    (hsup : ∀ c, .pushed c ∈ j → sup' c = sup c)
    (ha : ∀ p ∈ above, j'.stateOf p = .initializing t → p ∈ above') : Backed sup' j' t above' c := by
  rcases h with hready | ⟨hpushed, p, hp, hpa, hpp, hps⟩
  · exact .inl (hready.mono hl hj (hsup c))
  · -- when the superclass is settled, the class that waited for it is ready
    rcases hl.initializing_or_settled hj hpp hps with hstate | hsettled
    · exact .inr ⟨hj.subset hpushed, p, (hsup c hpushed).trans hp, ha p hpa hstate, hj.subset hpp, hstate⟩
    · refine .inl (.inr ⟨hj.subset hpushed, fun q hq => .inr ?_⟩)
      rw [hsup c hpushed, hp] at hq
      cases hq
      exact .inr ⟨hj.subset hpp, hsettled⟩

/-- A line stays one when events and classes are added, and when those on top are gone that are settled. -/
theorem Lined.mono {sup sup' : ClassId → Option ClassId} {j j' : Journal} {t : Nat} {marks : List Mark}
    {above above' : List ClassId} (h : Lined sup j t above marks) (hl : j'.Legal) (hj : j <:+ j')
    (hsup : ∀ c, .pushed c ∈ j → sup' c = sup c)
    (ha : ∀ p ∈ above, j'.stateOf p = .initializing t → p ∈ above') : Lined sup' j' t above' marks := by
  induction marks generalizing above above' with
  | nil => trivial
  | cons mark rest ih =>
    intro hactive
    obtain ⟨hback, hrest⟩ := h hactive
    refine ⟨fun c hc => (hback c hc).mono hl hj hsup ha, ih hrest ?_⟩
    intro p hp hstate
    rcases List.mem_append.1 hp with hp | hp
    · exact List.mem_append_left _ hp
    · exact List.mem_append_right _ (ha p hp hstate)

/-- An initializer with nothing above it is ready. -/
theorem Lined.ready {sup : ClassId → Option ClassId} {j : Journal} {t : Nat} {mark : Mark} {marks : List Mark}
    {c : ClassId} (h : Lined sup j t [] (mark :: marks)) (hc : mark.initialized? = some c) :
    j.Ready sup c := by
  have hactive := Mark.isActive_of_initialized hc
  rcases (h hactive).1 c hc with hready | ⟨_, p, _, hp, _⟩
  · exact hready
  · cases hp

/-- The line below a frame that is taken away, if that was no initializer still in progress. -/
theorem Lined.tail {sup sup' : ClassId → Option ClassId} {j j' : Journal} {t : Nat} {mark : Mark}
    {marks : List Mark} (h : Lined sup j t [] (mark :: marks)) (hactive : mark.isActive = true)
    (hl : j'.Legal) (hj : j <:+ j') (hsup : ∀ c, .pushed c ∈ j → sup' c = sup c)
    (hc : ∀ c, mark.initialized? = some c → j'.stateOf c ≠ .initializing t) : Lined sup' j' t [] marks := by
  refine (h hactive).2.mono hl hj hsup ?_
  intro p hp hstate
  rw [List.append_nil, Option.mem_toList] at hp
  exact absurd hstate (hc p hp)

/-- A line on which a frame is put that is ready itself. -/
theorem Lined.cons {sup : ClassId → Option ClassId} {j : Journal} {t : Nat} {mark : Mark} {marks : List Mark}
    (h : Lined sup j t [] marks) (hl : j.Legal)
    (hc : ∀ c, mark.initialized? = some c → Backed sup j t [] c) : Lined sup j t [] (mark :: marks) := by
  intro _
  refine ⟨hc, h.mono hl (List.suffix_refl _) (fun _ _ => rfl) ?_⟩
  intro p hp
  cases hp

namespace Machine

/-- The initializers above the innermost barrier are lined up. -/
def InLine (m : Machine) : Prop := Lined m.superOf m.journal m.current [] m.marks

/-- The marks from the innermost barrier on. -/
def outer (m : Machine) : List Mark := m.marks.dropWhile Mark.isActive

end Machine

/-! ## Frames of initializers -/

namespace Machine

/-- The classes whose initializers frames run, the innermost first. -/
def starting (m : Machine) : List ClassId := m.marks.filterMap Mark.initialized?

/-- A class has one frame for its initializer at most, and that only while its initialization is in progress, unless the
initializer was called like a method. The frames of threads that gave way are not on the frame stack: `away` tells the
thread of a class that has its frame there. -/
structure Tended (m : Machine) (away : ClassId → Option Nat) : Prop where
  frames : ∀ c ∈ m.starting, .called c ∉ m.journal →
    m.starting.count c = 1 ∧ away c = none ∧ .pushed c ∈ m.journal ∧ m.journal.stateOf c = .initializing m.current
  away : ∀ c t, away c = some t → .called c ∉ m.journal →
    .pushed c ∈ m.journal ∧ m.journal.stateOf c = .initializing t

theorem starting_eq {m m' : Machine} (h : m'.marks = m.marks) : m'.starting = m.starting := by
  rw [starting, h, starting]

/-- A class whose initializer was not pushed has no frame for it. -/
theorem Tended.free_of_not_pushed {m : Machine} {away : ClassId → Option Nat} (h : m.Tended away) {c : ClassId}
    (hc : .pushed c ∉ m.journal) (hcalled : .called c ∉ m.journal) : c ∉ m.starting ∧ away c = none := by
  refine ⟨fun hmem => hc (h.frames c hmem hcalled).2.2.1, ?_⟩
  cases haway : away c with
  | none => rfl
  | some t => exact absurd (h.away c t haway hcalled).1 hc

/-- No frame is left of an initializer whose class is not in progress. -/
theorem Tended.not_mem {m : Machine} {away : ClassId → Option Nat} (h : m.Tended away) {c : ClassId}
    (hcalled : .called c ∉ m.journal) (hc : ¬ (m.journal.stateOf c).InProgress) : c ∉ m.starting :=
  fun hmem => hc ⟨m.current, (h.frames c hmem hcalled).2.2.2⟩

/-- Frames stay tended when some are gone, and a class whose state changes has none any more. -/
theorem Tended.mono {m m' : Machine} {away : ClassId → Option Nat} (h : m.Tended away) (hcurrent : m'.current = m.current)
    (hj : m.journal <:+ m'.journal) (hcount : ∀ c, m'.starting.count c ≤ m.starting.count c)
    (hstate : ∀ c, .pushed c ∈ m.journal → m'.journal.stateOf c = m.journal.stateOf c ∨
      (.called c ∉ m'.journal → c ∉ m'.starting ∧ away c = none)) : m'.Tended away where
  frames c hmem hcalled := by
    have hpos : 0 < m'.starting.count c := List.count_pos_iff.2 hmem
    have hle := hcount c
    have hold : c ∈ m.starting := List.count_pos_iff.1 (Nat.lt_of_lt_of_le hpos hle)
    obtain ⟨hone, haway, hpushed, hprogress⟩ := h.frames c hold fun hc => hcalled (hj.subset hc)
    refine ⟨by omega, haway, hj.subset hpushed, ?_⟩
    rcases hstate c hpushed with hsame | hfree
    · rw [hsame, hprogress, hcurrent]
    · exact absurd hmem (hfree hcalled).1
  away c t haway hcalled := by
    obtain ⟨hpushed, hprogress⟩ := h.away c t haway fun hc => hcalled (hj.subset hc)
    refine ⟨hj.subset hpushed, ?_⟩
    rcases hstate c hpushed with hsame | hfree
    · rw [hsame, hprogress]
    · have hnone := (hfree hcalled).2
      rw [haway] at hnone
      cases hnone

/-- A frame is put on the stack for an initializer that has none, if it was not called. -/
theorem Tended.push {m : Machine} {away : ClassId → Option Nat} (h : m.Tended away) {f : Frame} {c : ClassId}
    (hf : f.mark.initialized? = some c)
    (hc : .called c ∉ m.journal → (c ∉ m.starting ∧ away c = none) ∧
      .pushed c ∈ m.journal ∧ m.journal.stateOf c = .initializing m.current) :
    { m with frames := f :: m.frames }.Tended away := by
  refine ⟨fun k hmem hcalled => ?_, h.away⟩
  have hstarting : ({ m with frames := f :: m.frames } : Machine).starting = c :: m.starting :=
    List.filterMap_cons_some hf
  rw [hstarting] at hmem ⊢
  by_cases hk : c = k
  · subst hk
    obtain ⟨⟨hfree, haway⟩, hpushed⟩ := hc hcalled
    rw [List.count_cons_self, List.count_eq_zero_of_not_mem hfree]
    exact ⟨rfl, haway, hpushed⟩
  · rw [List.count_cons_of_ne hk]
    exact h.frames k ((List.mem_cons.1 hmem).resolve_left fun he => hk he.symm) hcalled

end Machine

/-! ## What actions do -/

/-- The chronicle goes on, for the same thread. Frames of initializers stay tended, and while they are the setup stays. -/
structure Continued (m m' : Machine) : Prop where
  chronicle : Chronicle m'
  extend : Extends m m'
  current : m'.current = m.current
  tended : ∀ away, m.Tended away → m'.Tended away ∧ m'.options = m.options

/-- The chronicle goes on, and the frames are as before. -/
structure Restored (m m' : Machine) : Prop where
  continued : Continued m m'
  marks : m'.marks = m.marks

/-- What an operation of the machine does: the frames are afterwards as before. -/
def Served (_ : Ending) (m m' : Machine) : Prop := Chronicle m → Restored m m'

/-- The chronicle goes on above the barrier of some marks, and what is there is lined up unless the machine
halts. -/
structure Landed (e : Ending) (m : Machine) (marks : List Mark) (m' : Machine) : Prop where
  continued : Continued m m'
  outer : m'.outer = marks.dropWhile Mark.isActive
  inLine : e = .done → m'.InLine

/-- What an instruction does: the frames from the innermost barrier on are as before, and those above it are
lined up. -/
def Stepped (e : Ending) (m m' : Machine) : Prop := Chronicle m → m.InLine → Landed e m m.marks m'

/-- The chronicle goes on when some frames are gone, and no class changes its state whose initializer was pushed. -/
theorem Continued.of_count {m m' : Machine} (chronicle : Chronicle m') (extend : Extends m m')
    (current : m'.current = m.current) (options : m'.options = m.options)
    (hcount : ∀ c, m'.starting.count c ≤ m.starting.count c)
    (hstate : ∀ c, .pushed c ∈ m.journal → m'.journal.stateOf c = m.journal.stateOf c) : Continued m m' :=
  ⟨chronicle, extend, current, fun _ ht =>
    ⟨ht.mono current extend.journal hcount fun c hc => .inl (hstate c hc), options⟩⟩

theorem Continued.refl {m : Machine} (h : Chronicle m) : Continued m m :=
  .of_count h (.refl m) rfl rfl (fun _ => Nat.le_refl _) fun _ _ => rfl

theorem Continued.trans {a b c : Machine} (h : Continued a b) (h' : Continued b c) : Continued a c where
  chronicle := h'.chronicle
  extend := h.extend.trans h'.extend
  current := h'.current.trans h.current
  tended away ha := by
    obtain ⟨hb, hoptions⟩ := h.tended away ha
    obtain ⟨hc, hoptions'⟩ := h'.tended away hb
    exact ⟨hc, hoptions'.trans hoptions⟩

theorem Continued.of_quiet {a b : Machine} (h : Quiet a b) (options : b.options = a.options) (ha : Chronicle a) :
    Continued a b := by
  refine .of_count (ha.of_quiet h) (.of_quiet h) h.current options (fun c => Nat.le_of_eq ?_) fun c _ => ?_
  · rw [Machine.starting_eq h.marks]
  · rw [h.journal]

theorem Restored.refl {m : Machine} (h : Chronicle m) : Restored m m := ⟨.refl h, rfl⟩

theorem Restored.trans {a b c : Machine} (h : Restored a b) (h' : Restored b c) : Restored a c :=
  ⟨h.continued.trans h'.continued, h'.marks.trans h.marks⟩

/-- A linked class enters a state whose initializer was not pushed at first. -/
theorem Restored.enter {m₀ m : Machine} (h : Restored m₀ m) {c : ClassId} (hfree : .pushed c ∉ m₀.journal)
    (hc : m.journal.stateOf c ≠ .unlinked) {state : ClassState} {e : Event} (he : e.Allowed m.journal)
    (hs : e = .state c state ∨ e = .abandoned c ∧ state = .erroneous) : Restored m₀ (m.enter c state e) := by
  have hm := h.continued.chronicle
  have hne : (m.classAt c).state ≠ .unlinked := fun hu => hc ((hm.states c).trans hu)
  refine ⟨⟨hm.enter (hm.lt hc) he hs, h.continued.extend.trans (.enter hne _ _), h.continued.current, fun away ht => ?_⟩, h.marks⟩
  obtain ⟨htended, hoptions⟩ := h.continued.tended away ht
  refine ⟨htended.mono rfl (List.suffix_cons ..) (fun _ => Nat.le_refl _) fun k _ => ?_, hoptions⟩
  by_cases hk : c = k
  · subst hk
    refine .inr fun hcalled => ?_
    have hcalled : .called c ∉ m₀.journal := fun hold =>
      hcalled (List.mem_cons_of_mem _ (h.continued.extend.journal.subset hold))
    change c ∉ m.starting ∧ _
    rw [Machine.starting_eq h.marks]
    exact ht.free_of_not_pushed hfree hcalled
  · refine .inl ?_
    rcases hs with rfl | ⟨rfl, -⟩
    · exact if_neg hk
    · exact if_neg hk

/-- What is lined up stays so while the chronicle goes on. -/
theorem Continued.lined {m m' : Machine} (h : Continued m m') (hm : Chronicle m) {above : List ClassId}
    {marks : List Mark} (hl : Lined m.superOf m.journal m.current above marks) :
    Lined m'.superOf m'.journal m'.current above marks := by
  rw [h.current]
  exact hl.mono h.chronicle.legal h.extend.journal (fun _ hc => h.extend.superOf hm hc) fun _ hp _ => hp

theorem Continued.inLine {m m' : Machine} (h : Continued m m') (hm : Chronicle m) (hl : m.InLine)
    (hf : m'.marks = m.marks) : m'.InLine := by
  rw [Machine.InLine, hf]
  exact h.lined hm hl

/-- What happened before does not matter for where an action lands. -/
theorem Landed.after {e : Ending} {a b c : Machine} {marks : List Mark} (h : Landed e b marks c)
    (hc : Continued a b) : Landed e a marks c := ⟨hc.trans h.continued, h.outer, h.inLine⟩

theorem Landed.trans {e : Ending} {a b c : Machine} {marks : List Mark} (h : Landed .done a marks b)
    (h' : Landed e b b.marks c) : Landed e a marks c :=
  ⟨h.continued.trans h'.continued, h'.outer.trans h.outer, h'.inLine⟩

theorem Served.stepped {e : Ending} {m m' : Machine} (h : Served e m m') : Stepped e m m' := by
  intro hm hl
  obtain ⟨hc, hf⟩ := h hm
  exact ⟨hc, by rw [Machine.outer, hf], fun _ => hc.inLine hm hl hf⟩

/-- The machine is in line after any action that is told where it starts. -/
theorem keeps_stepped {α : Type} {act : M α}
    (h : ∀ m, Chronicle m → m.InLine →
      M.After act m (fun _ => Landed .done m m.marks) (Landed .halted m m.marks)) :
    M.Keeps Stepped act := by
  intro m
  unfold M.After
  split
  · next hact => exact fun hm hl => by simpa [M.After, hact] using h m hm hl
  · next hact => exact fun hm hl => by simpa [M.After, hact] using h m hm hl

theorem keeps_served {α : Type} {act : M α}
    (h : ∀ m, Chronicle m →
      M.After act m (fun _ => Restored m)
        (Restored m)) :
    M.Keeps Served act := by
  intro m
  unfold M.After
  split
  · next hact => exact fun hm => by simpa [M.After, hact] using h m hm
  · next hact => exact fun hm => by simpa [M.After, hact] using h m hm

theorem Served.of_quiet {e : Ending} {a b : Machine} (h : Quiet a b) (options : b.options = a.options) : Served e a b :=
  fun hm => ⟨.of_quiet h options hm, h.marks⟩

/-- What was served stays so after a quiet change. -/
theorem Served.calm {e : Ending} {a b c : Machine} (h : Served e a b) (hq : Quiet b c) (options : c.options = b.options) :
    Served e a c := by
  intro hm
  obtain ⟨hc, hf⟩ := h hm
  exact ⟨hc.trans (.of_quiet hq options hc.chronicle), hq.marks.trans hf⟩

instance : Heedless Served where
  minor h := .of_quiet h.toQuiet h.options
  stored _ := .of_quiet (.ofSame rfl rfl rfl rfl) rfl
  still h := .of_quiet h.toQuiet h.options
  settle h hq := h.calm hq.toQuiet hq.options
  trans h h' hm := by
    obtain ⟨hc, hf⟩ := h hm
    obtain ⟨hc', hf'⟩ := h' hc.chronicle
    exact ⟨hc.trans hc', hf'.trans hf⟩
  calm h hq := h.calm hq.toQuiet hq.options

instance : Forgetful Served where
  setEntry _ index entry := .of_quiet ⟨rfl, rfl, rfl,
    M.outline_modify (f := fun k => { k with pool := k.pool.setIfInBounds index entry }) fun _ => rfl⟩ rfl

/-- What has landed stays so after a quiet change. -/
theorem Stepped.calm {e : Ending} {a b c : Machine} (h : Stepped e a b) (hq : Quiet b c) (options : c.options = b.options) :
    Stepped e a c := by
  intro hm hl
  have hfirst := h hm hl
  have hc := Continued.of_quiet hq options hfirst.continued.chronicle
  refine ⟨hfirst.continued.trans hc, ?_, fun hd => ?_⟩
  · rw [Machine.outer, hq.marks]
    exact hfirst.outer
  · exact hc.inLine hfirst.continued.chronicle (hfirst.inLine hd) hq.marks

instance : Heedless Stepped where
  minor h := Served.stepped (.of_quiet h.toQuiet h.options)
  stored _ := Served.stepped (.of_quiet (.ofSame rfl rfl rfl rfl) rfl)
  still h := Served.stepped (.of_quiet h.toQuiet h.options)
  settle h hq := h.calm hq.toQuiet hq.options
  trans h h' hm hl := by
    have hfirst := h hm hl
    exact hfirst.trans (h' hfirst.continued.chronicle (hfirst.inLine rfl))
  calm h hq := h.calm hq.toQuiet hq.options

end JavaMachine
