import JavaMachine.Proofs.Initialization.Journal
import JavaMachine.Proofs.Machine.Keeps

/-!
How the machine and its journal belong together. In a `Chronicle` the journal is legal and ordered and tells
the states of all classes. Main results: it stays one when a class enters a state (`Chronicle.enter`) and when
another event is noted (`Chronicle.note`), if the event is allowed, and when something quiet changes.
-/

namespace JavaMachine

open M

/-! ## Classes -/

/-- What a class keeps from its definition on. -/
def Class.descent (k : Class) : Flags × Option ClassId × List Method := (k.flags, k.super, k.methods)

theorem Machine.superOf_eq {m m' : Machine} {c : ClassId}
    (h : (m'.classAt c).descent = (m.classAt c).descent) : m'.superOf c = m.superOf c := by
  have hinterface : (m'.classAt c).isInterface = (m.classAt c).isInterface :=
    congrArg (·.1.isInterface) h
  have hsuper : (m'.classAt c).super = (m.classAt c).super := congrArg (·.2.1) h
  rw [Machine.superOf, Machine.superOf, hinterface, hsuper]

theorem Machine.lt_of_state {m : Machine} {c : ClassId} (h : (m.classAt c).state ≠ .unlinked) :
    c.index < m.classes.size := by
  rcases Nat.lt_or_ge c.index m.classes.size with hlt | hge
  · exact hlt
  · exact absurd (congrArg Class.state (classAt_of_le hge)) h

theorem Machine.classAt_enter (m : Machine) (c k : ClassId) (state : ClassState) (e : Event) :
    (m.enter c state e).classAt k =
      if c = k ∧ c.index < m.classes.size then { m.classAt k with state } else m.classAt k :=
  m.classAt_modify c k _

theorem Machine.state_enter {m : Machine} {c : ClassId} (hc : c.index < m.classes.size) (k : ClassId)
    (state : ClassState) (e : Event) :
    ((m.enter c state e).classAt k).state = if c = k then state else (m.classAt k).state := by
  rw [classAt_enter]
  split
  · next h => simp [h.1]
  · next h =>
    have hne : c ≠ k := fun he => h ⟨he, hc⟩
    simp [hne]

theorem Machine.descent_enter (m : Machine) (c k : ClassId) (state : ClassState) (e : Event) :
    ((m.enter c state e).classAt k).descent = (m.classAt k).descent := by
  rw [classAt_enter]
  split <;> rfl

theorem Quiet.outline {a b : Machine} (h : Quiet a b) (c : ClassId) :
    (b.classAt c).outline = (a.classAt c).outline := by
  have hc := congrArg (fun cs : Array Class => (cs[c.index]?).getD (default : Class).outline) h.classes
  simp only [Array.getElem?_map, Option.getD_map] at hc
  simpa [Machine.classAt, Array.getD_eq_getD_getElem?] using hc

theorem Quiet.state {a b : Machine} (h : Quiet a b) (c : ClassId) :
    (b.classAt c).state = (a.classAt c).state := by
  have ho := congrArg Class.state (h.outline c)
  exact ho

theorem Quiet.descent {a b : Machine} (h : Quiet a b) (c : ClassId) :
    (b.classAt c).descent = (a.classAt c).descent := by
  have ho := congrArg Class.descent (h.outline c)
  exact ho

theorem Quiet.size {a b : Machine} (h : Quiet a b) : b.classes.size = a.classes.size := by
  simpa using congrArg Array.size h.classes

/-! ## Chronicles -/

/-- The journal tells the states of the classes, by the rules and in order. -/
structure Chronicle (m : Machine) : Prop where
  states : ∀ c, m.journal.stateOf c = (m.classAt c).state
  known : ∀ c, .pushed c ∈ m.journal → c.index < m.classes.size
  owners : ∀ c, ∀ method ∈ (m.classAt c).methods, method.owner = c
  legal : m.journal.Legal
  ordered : m.journal.Ordered m.superOf

/-- A machine is what became of another: events and classes were added, classes kept what they are defined
with, and those that were not linked are still not. -/
structure Extends (m m' : Machine) : Prop where
  journal : m.journal <:+ m'.journal
  size : m.classes.size ≤ m'.classes.size
  descent : ∀ c, c.index < m.classes.size → (m'.classAt c).descent = (m.classAt c).descent
  unlinked : ∀ c, c.index < m.classes.size → (m.classAt c).state = .unlinked →
    (m'.classAt c).state = .unlinked

theorem Extends.refl (m : Machine) : Extends m m :=
  ⟨List.suffix_refl _, Nat.le_refl _, fun _ _ => rfl, fun _ _ => id⟩

theorem Extends.trans {a b c : Machine} (h : Extends a b) (h' : Extends b c) : Extends a c where
  journal := h.journal.trans h'.journal
  size := Nat.le_trans h.size h'.size
  descent k hk := (h'.descent k (Nat.lt_of_lt_of_le hk h.size)).trans (h.descent k hk)
  unlinked k hk hu := h'.unlinked k (Nat.lt_of_lt_of_le hk h.size) (h.unlinked k hk hu)

theorem Extends.of_quiet {a b : Machine} (h : Quiet a b) : Extends a b where
  journal := ⟨[], h.journal.symm⟩
  size := Nat.le_of_eq h.size.symm
  descent c _ := h.descent c
  unlinked c _ hu := (h.state c).trans hu

/-- A class whose initializer was pushed keeps its superclass. -/
theorem Extends.superOf {m m' : Machine} (h : Extends m m') (hm : Chronicle m) {c : ClassId}
    (hc : .pushed c ∈ m.journal) : m'.superOf c = m.superOf c :=
  Machine.superOf_eq (h.descent c (hm.known c hc))

/-- The chronicle is about the classes and the journal only, whichever thread runs. -/
theorem Chronicle.congr {m m' : Machine} (h : Chronicle m) (hclasses : m'.classes = m.classes)
    (hjournal : m'.journal = m.journal) : Chronicle m' := by
  have hat (c : ClassId) : m'.classAt c = m.classAt c := by rw [Machine.classAt, hclasses, Machine.classAt]
  have hsup : m'.superOf = m.superOf := funext fun c => Machine.superOf_eq (congrArg Class.descent (hat c))
  refine ⟨?_, ?_, ?_, ?_, ?_⟩
  · exact fun c => by rw [hjournal, hat, h.states]
  · exact fun c hc => by rw [hclasses]; exact h.known c (hjournal ▸ hc)
  · exact fun c method hmethod => h.owners c method (hat c ▸ hmethod)
  · rw [hjournal]
    exact h.legal
  · rw [hjournal, hsup]
    exact h.ordered

theorem Chronicle.of_quiet {a b : Machine} (h : Quiet a b) (ha : Chronicle a) : Chronicle b where
  states c := by rw [h.journal, h.state, ha.states]
  known c hc := by
    rw [h.size]
    rw [h.journal] at hc
    exact ha.known c hc
  owners c method hm := by
    have hmethods : (b.classAt c).methods = (a.classAt c).methods := congrArg (·.2.2) (h.descent c)
    exact ha.owners c method (hmethods ▸ hm)
  legal := by rw [h.journal]; exact ha.legal
  ordered := by
    rw [h.journal]
    exact ha.ordered.congr ha.legal fun c _ => Machine.superOf_eq (h.descent c)

theorem Chronicle.lt {m : Machine} (h : Chronicle m) {c : ClassId} (hc : m.journal.stateOf c ≠ .unlinked) :
    c.index < m.classes.size := Machine.lt_of_state fun hs => hc ((h.states c).trans hs)

/-- A class that was linked keeps its superclass. -/
theorem Extends.superOf_of_linked {m m' : Machine} (h : Extends m m') (hm : Chronicle m) {c : ClassId}
    (hc : m.journal.stateOf c ≠ .unlinked) : m'.superOf c = m.superOf c :=
  Machine.superOf_eq (h.descent c (hm.lt hc))

/-- A class enters a state: the event has to be allowed, and to tell the state. -/
theorem Chronicle.enter {m : Machine} {c : ClassId} {state : ClassState} {e : Event} (h : Chronicle m)
    (hc : c.index < m.classes.size) (he : e.Allowed m.journal)
    (hs : e = .state c state ∨ e = .abandoned c ∧ state = .erroneous) : Chronicle (m.enter c state e) where
  states k := by
    rw [Machine.state_enter hc, ← h.states]
    rcases hs with rfl | ⟨rfl, rfl⟩ <;> rfl
  known k hk := by
    have hk : .pushed k ∈ m.journal := by
      rcases hs with rfl | ⟨rfl, rfl⟩ <;> simpa [Machine.enter] using hk
    simpa [Machine.enter] using h.known k hk
  owners k method hm := by
    have hmethods : ((m.enter c state e).classAt k).methods = (m.classAt k).methods :=
      congrArg (·.2.2) (m.descent_enter c k state e)
    exact h.owners k method (hmethods ▸ hm)
  legal := ⟨he, h.legal⟩
  ordered := by
    have hord := h.ordered.congr h.legal fun k _ => Machine.superOf_eq (m.descent_enter c k state e)
    rcases hs with rfl | ⟨rfl, rfl⟩ <;> exact hord

theorem Extends.enter {m : Machine} {c : ClassId} (hc : (m.classAt c).state ≠ .unlinked)
    (state : ClassState) (e : Event) : Extends m (m.enter c state e) where
  journal := List.suffix_cons ..
  size := by simp [Machine.enter]
  descent k _ := m.descent_enter c k state e
  unlinked k _ hu := by
    rw [Machine.state_enter (Machine.lt_of_state hc)]
    split
    · next hk => exact absurd (hk ▸ hu) hc
    · exact hu

/-- An event is noted that tells no state. -/
theorem Chronicle.note {m : Machine} {e : Event} (h : Chronicle m) (he : e.Allowed m.journal)
    (hs : ∀ c, Journal.stateOf (e :: m.journal) c = m.journal.stateOf c)
    (hp : ∀ c, e = .pushed c → c.index < m.classes.size)
    (hr : ∀ c, e = .ran c → m.journal.Ready m.superOf c) : Chronicle (m.note e) where
  states c := (hs c).trans (h.states c)
  known c hc := by
    rcases List.mem_cons.1 hc with hc | hc
    · exact hp c hc.symm
    · exact h.known c hc
  owners := h.owners
  legal := ⟨he, h.legal⟩
  ordered := by
    cases e with
    | ran c => exact ⟨hr c rfl, h.ordered⟩
    | _ => exact h.ordered

theorem Extends.note (m : Machine) (e : Event) : Extends m (m.note e) :=
  ⟨List.suffix_cons .., Nat.le_refl _, fun _ _ => rfl, fun _ _ => id⟩

end JavaMachine
