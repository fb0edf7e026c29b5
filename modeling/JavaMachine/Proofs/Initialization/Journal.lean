import JavaMachine.Machine.State

/-!
The rules that a journal of class initialization follows, and what they entail. An event may follow a journal
only as `Event.Allowed` says, and a journal is `Legal` if each of its events was allowed when it was noted.
Main results: in a legal journal an erroneous class stays erroneous, an initialized one stays initialized
until it is given up (`stateOf_of_initialized`), and no initializer is pushed twice (`count_pushed_le_one`).

An initializer is `Ready` to run if its superclass is done, or was not there to wait for when the class was
claimed (`Early`). Once ready it stays so (`Ready.mono`). In an `Ordered` journal only ready initializers ran.
-/

namespace JavaMachine

/-! ## States -/

namespace ClassState

/-- The initialization is over. -/
def Settled (s : ClassState) : Prop := s = .initialized ∨ s = .erroneous

/-- A thread has claimed the class. -/
def InProgress (s : ClassState) : Prop := ∃ t, s = .initializing t

/-- The initialization has begun, and may be over. -/
def Begun (s : ClassState) : Prop := s.InProgress ∨ s.Settled

instance (s : ClassState) : Decidable s.Settled :=
  inferInstanceAs (Decidable (s = .initialized ∨ s = .erroneous))

instance : (s : ClassState) → Decidable s.InProgress
  | .initializing t => .isTrue ⟨t, rfl⟩
  | .unlinked => .isFalse nofun
  | .linked => .isFalse nofun
  | .initialized => .isFalse nofun
  | .erroneous => .isFalse nofun

@[grind =]
theorem settled_iff (s : ClassState) : s.Settled ↔ s = .initialized ∨ s = .erroneous := Iff.rfl

@[grind =]
theorem inProgress_iff (s : ClassState) : s.InProgress ↔ ∃ t, s = .initializing t := Iff.rfl

@[grind =]
theorem begun_iff (s : ClassState) : s.Begun ↔ s ≠ .unlinked ∧ s ≠ .linked := by
  cases s <;> simp [Begun, InProgress, Settled]

end ClassState

/-! ## Rules -/

/-- Whether an event may follow a journal. A class is claimed only when it is linked, claims are given back
only before the initializer is pushed, and an initialization ends only while it is in progress. A class can be
given up whenever it is linked, whatever became of it since. -/
def Event.Allowed (j : Journal) : Event → Prop
  | .state c .unlinked => j.stateOf c = .unlinked
  | .state c .linked => .pushed c ∉ j ∧ ¬ (j.stateOf c).Settled
  | .state c (.initializing _) => j.stateOf c = .linked
  | .state c .initialized => j.stateOf c = .unlinked ∨ (j.stateOf c).InProgress
  | .state c .erroneous => (j.stateOf c).InProgress
  | .abandoned c => j.stateOf c ≠ .unlinked
  | .pushed c => .pushed c ∉ j ∧ (j.stateOf c).InProgress
  | .called _ => True
  | .ran _ => True

namespace Journal

/-- Every event was allowed when it was noted. -/
def Legal : Journal → Prop
  | [] => True
  | e :: older => e.Allowed older ∧ Legal older

theorem Legal.suffix {j j' : Journal} (h : Legal j') (hj : j <:+ j') : Legal j := by
  obtain ⟨later, rfl⟩ := hj
  induction later with
  | nil => exact h
  | cons e later ih => exact ih h.2

/-- What every allowed event keeps of the journals after which it is noted holds at the end if it did once. -/
theorem Legal.keep {P : Journal → Prop} {j j' : Journal}
    (step : ∀ e older, e.Allowed older → Legal older → j <:+ older → P older → P (e :: older))
    (h : Legal j') (hj : j <:+ j') (hp : P j) : P j' := by
  obtain ⟨later, rfl⟩ := hj
  induction later with
  | nil => exact hp
  | cons e later ih => exact step e _ h.1 h.2 (List.suffix_append ..) (ih h.2)

/-! ## What becomes of states -/

/-- A class whose initializer was pushed is in progress or settled. -/
theorem Legal.begun_of_pushed {j : Journal} {c : ClassId} (h : Legal j) (hc : .pushed c ∈ j) :
    (j.stateOf c).Begun := by
  induction j with
  | nil => cases hc
  | cons e older ih =>
    have ih := ih h.2
    have he := h.1
    cases e with
    | state k s => cases s <;> grind [Event.Allowed, stateOf]
    | _ => grind [Event.Allowed, stateOf]

theorem Legal.not_pushed_of_linked {j : Journal} {c : ClassId} (h : Legal j) (hc : j.stateOf c = .linked) :
    .pushed c ∉ j := by
  intro hp
  have := h.begun_of_pushed hp
  grind

/-- A linked class never becomes unlinked again. -/
theorem Legal.stateOf_ne_unlinked {j j' : Journal} {c : ClassId} (h : Legal j') (hj : j <:+ j')
    (hc : j.stateOf c ≠ .unlinked) : j'.stateOf c ≠ .unlinked := by
  refine h.keep (P := fun j => j.stateOf c ≠ .unlinked) ?_ hj hc
  intro e older he _ _ hp
  cases e with
  | state k s => cases s <;> grind [Event.Allowed, stateOf]
  | _ => grind [Event.Allowed, stateOf]

/-- An erroneous class stays erroneous. -/
theorem Legal.stateOf_of_erroneous {j j' : Journal} {c : ClassId} (h : Legal j') (hj : j <:+ j')
    (hc : j.stateOf c = .erroneous) : j'.stateOf c = .erroneous := by
  refine h.keep (P := fun j => j.stateOf c = .erroneous) ?_ hj hc
  intro e older he _ _ hp
  cases e with
  | state k s => cases s <;> grind [Event.Allowed, stateOf]
  | _ => grind [Event.Allowed, stateOf]

/-- An initialized class is initialized until it is given up, and erroneous from then on. -/
theorem Legal.stateOf_of_initialized {later j : Journal} {c : ClassId} (h : Legal (later ++ j))
    (hc : j.stateOf c = .initialized) :
    stateOf (later ++ j) c = if .abandoned c ∈ later then .erroneous else .initialized := by
  induction later with
  | nil => simpa using hc
  | cons e later ih =>
    have ih := ih h.2
    have he : e.Allowed (later ++ j) := h.1
    rw [List.cons_append]
    cases e with
    | state k s => cases s <;> grind [Event.Allowed, stateOf]
    | _ => grind [Event.Allowed, stateOf]

/-- What is settled stays settled. -/
theorem Legal.settled {j j' : Journal} {c : ClassId} (h : Legal j') (hj : j <:+ j')
    (hc : (j.stateOf c).Settled) : (j'.stateOf c).Settled := by
  obtain ⟨later, rfl⟩ := hj
  rcases hc with hc | hc
  · rw [h.stateOf_of_initialized hc]
    split
    · exact .inr rfl
    · exact .inl rfl
  · exact .inr (h.stateOf_of_erroneous (List.suffix_append ..) hc)

/-- A class whose initializer was pushed for a thread is in progress for that thread until it is settled. -/
theorem Legal.initializing_or_settled {j j' : Journal} {c : ClassId} {t : Nat} (h : Legal j') (hj : j <:+ j')
    (hp : .pushed c ∈ j) (hc : j.stateOf c = .initializing t) :
    j'.stateOf c = .initializing t ∨ (j'.stateOf c).Settled := by
  refine h.keep (P := fun j => j.stateOf c = .initializing t ∨ (j.stateOf c).Settled) ?_ hj (.inl hc)
  intro e older he _ hs hold
  have hp : .pushed c ∈ older := hs.subset hp
  cases e with
  | state k s => cases s <;> grind [Event.Allowed, stateOf]
  | _ => grind [Event.Allowed, stateOf]

/-- No initializer is pushed twice. -/
theorem Legal.count_pushed_le_one {j : Journal} (h : Legal j) (c : ClassId) : j.count (.pushed c) ≤ 1 := by
  induction j with
  | nil => simp
  | cons e older ih =>
    have ih := ih h.2
    rw [List.count_cons]
    split
    · -- the rule for the event at the head says that it is the first of its kind
      next he =>
      have hnone : .pushed c ∉ older := by
        rw [eq_of_beq he] at h
        exact h.1.1
      simp [List.count_eq_zero_of_not_mem hnone]
    · exact ih

/-! ## Claims -/

/-- The journal as it was when a class was last claimed. -/
def beforeClaim : Journal → ClassId → Journal
  | [], _ => []
  | .state k (.initializing _) :: older, c => if k = c then older else beforeClaim older c
  | _ :: older, c => beforeClaim older c

theorem beforeClaim_suffix (j : Journal) (c : ClassId) : j.beforeClaim c <:+ j := by
  induction j with
  | nil => exact List.suffix_refl _
  | cons e older ih =>
    have hskip : beforeClaim older c <:+ e :: older := ih.trans (List.suffix_cons ..)
    cases e with
    | state k s =>
      cases s with
      | initializing t =>
        rw [beforeClaim]
        split
        · exact List.suffix_cons ..
        · exact hskip
      | _ => exact hskip
    | _ => exact hskip

/-- A class whose initializer was pushed is never claimed again. -/
theorem Legal.beforeClaim_eq {j j' : Journal} {c : ClassId} (h : Legal j') (hj : j <:+ j')
    (hc : .pushed c ∈ j) : j'.beforeClaim c = j.beforeClaim c := by
  refine h.keep (P := fun j' => j'.beforeClaim c = j.beforeClaim c) ?_ hj rfl
  intro e older he hl hs hold
  have hb := hl.begun_of_pushed (hs.subset hc)
  cases e with
  | state k s => cases s <;> grind [Event.Allowed, beforeClaim]
  | _ => grind [beforeClaim]

/-- A class that was linked once and whose initializer was pushed since was claimed in between. -/
theorem Legal.suffix_beforeClaim {j j' : Journal} {c : ClassId} (h : Legal j') (hj : j <:+ j')
    (hl : j.stateOf c = .linked) (hc : .pushed c ∈ j') : j <:+ j'.beforeClaim c := by
  -- from the claim on, `j` is below it; after the push there is no claim any more that could move it
  have claimed : (j'.stateOf c).InProgress ∨ .pushed c ∈ j' → j <:+ j'.beforeClaim c := by
    refine h.keep (P := fun j' => (j'.stateOf c).InProgress ∨ .pushed c ∈ j' → j <:+ j'.beforeClaim c)
      ?_ hj ?_
    · intro e older he _ hs hold hcase
      cases e with
      | state k s => cases s <;> grind [Event.Allowed, stateOf, beforeClaim]
      | _ => grind [Event.Allowed, stateOf, beforeClaim]
    · have := (h.suffix hj).not_pushed_of_linked hl
      grind
  exact claimed (.inr hc)

/-! ## Order -/

/-- When a class was claimed, its superclass was not linked yet or was in progress. -/
def Early (j : Journal) (c p : ClassId) : Prop :=
  (j.beforeClaim c).stateOf p = .unlinked ∨ ((j.beforeClaim c).stateOf p).InProgress

/-- The class was initialized, or its initializer was pushed and has ended in an error. To be given up before
is not enough. -/
def Completed (j : Journal) (p : ClassId) : Prop :=
  .state p .initialized ∈ j ∨ .pushed p ∈ j ∧ (j.stateOf p).Settled

instance (j : Journal) (p : ClassId) : Decidable (Completed j p) :=
  inferInstanceAs (Decidable (.state p .initialized ∈ j ∨ .pushed p ∈ j ∧ (j.stateOf p).Settled))

theorem mem_of_stateOf {j : Journal} {p : ClassId} (h : j.stateOf p = .initialized) :
    .state p .initialized ∈ j := by
  induction j with
  | nil => cases h
  | cons e older ih =>
    cases e with
    | state k s => grind [stateOf]
    | _ => grind [stateOf]

theorem Completed.mono {j j' : Journal} {p : ClassId} (hp : Completed j p) (h : Legal j') (hj : j <:+ j') :
    Completed j' p := by
  rcases hp with hstate | ⟨hpushed, hsettled⟩
  · exact .inl (hj.subset hstate)
  · exact .inr ⟨hj.subset hpushed, h.settled hj hsettled⟩

/-- The initialization of the class was not given up before it began: it is in progress or completed. -/
def Undertaken (j : Journal) (p : ClassId) : Prop := (j.stateOf p).InProgress ∨ Completed j p

theorem Legal.undertaken_of_pushed {j : Journal} {p : ClassId} (h : Legal j) (hp : .pushed p ∈ j) :
    Undertaken j p := by
  rcases h.begun_of_pushed hp with hprogress | hsettled
  · exact .inl hprogress
  · exact .inr (.inr ⟨hp, hsettled⟩)

/-- What is completed is settled. -/
theorem Completed.settled {j : Journal} {p : ClassId} (hp : Completed j p) (h : Legal j) :
    (j.stateOf p).Settled := by
  rcases hp with hstate | ⟨_, hsettled⟩
  · obtain ⟨later, older, rfl⟩ := List.append_of_mem hstate
    refine h.settled (List.suffix_append later _) (.inl ?_)
    rw [stateOf, if_pos rfl]
  · exact hsettled

/-- Whether the initializer of a class may run: it was called like any other method, or it was pushed and the
initialization of the superclass is completed or could not be waited for. -/
def Ready (sup : ClassId → Option ClassId) (j : Journal) (c : ClassId) : Prop :=
  .called c ∈ j ∨
    .pushed c ∈ j ∧ ∀ p, sup c = some p → Early j c p ∨ Completed j p

/-- Only initializers ran that were ready. -/
def Ordered (sup : ClassId → Option ClassId) : Journal → Prop
  | [] => True
  | .ran c :: older => Ready sup older c ∧ Ordered sup older
  | _ :: older => Ordered sup older

/-- An initializer that is ready stays so, and it does not matter which classes come later. -/
theorem Ready.mono {sup sup' : ClassId → Option ClassId} {j j' : Journal} {c : ClassId}
    (hready : Ready sup j c) (h : Legal j') (hj : j <:+ j')
    (hsup : .pushed c ∈ j → sup' c = sup c) : Ready sup' j' c := by
  rcases hready with hcalled | ⟨hpushed, hsuper⟩
  · exact .inl (hj.subset hcalled)
  · refine .inr ⟨hj.subset hpushed, fun p hp => ?_⟩
    rcases hsuper p (hsup hpushed ▸ hp) with hearly | hcompleted
    · refine .inl ?_
      unfold Early
      rw [h.beforeClaim_eq hj hpushed]
      exact hearly
    · exact .inr (hcompleted.mono h hj)

theorem Ordered.congr {sup sup' : ClassId → Option ClassId} {j : Journal} (hord : Ordered sup j)
    (h : Legal j) (hsup : ∀ c, .pushed c ∈ j → sup' c = sup c) : Ordered sup' j := by
  induction j with
  | nil => trivial
  | cons e older ih =>
    have hsup' (c : ClassId) (hc : .pushed c ∈ older) : sup' c = sup c :=
      hsup c (List.mem_cons_of_mem _ hc)
    cases e with
    | ran c => exact ⟨hord.1.mono h.2 (List.suffix_refl _) (hsup' c), ih hord.2 h.2 hsup'⟩
    | _ => exact ih hord h.2 hsup'

/-- An initializer that ran was ready. -/
theorem Ordered.ready {sup : ClassId → Option ClassId} {j older : Journal} {c : ClassId}
    (hord : Ordered sup j) (hj : .ran c :: older <:+ j) : Ready sup older c := by
  obtain ⟨later, rfl⟩ := hj
  induction later with
  | nil => exact hord.1
  | cons e later ih =>
    cases e with
    | ran k => exact ih hord.2
    | _ => exact ih hord

end Journal

end JavaMachine
