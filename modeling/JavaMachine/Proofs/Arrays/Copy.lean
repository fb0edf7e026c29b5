import JavaMachine.Proofs.Arrays.Elements
import JavaMachine.Proofs.Fields.Operands
import JavaMachine.Proofs.Subtypes.Assignable
import Mathlib.Algebra.Group.Int.Defs
import Mathlib.Algebra.Group.Nat.Defs

/-!
Copying a range of one array to another, or to another place in the same. A copy has one of the outcomes that its
arguments allow (`Machine.Copying`): it tests the objects, the kinds of their elements and the ranges before it changes
anything, and references are copied one by one only if the class of the source's elements does not fit as a whole
(`Machine.Transfers`). Main results: `Native.arraycopy_copies`, and `Native.misfit_copied_unseen`, by which the elements
themselves are not looked at where their class fits.
-/

namespace JavaMachine

open M

/-! ## What native methods give -/

/-- What a native method gives: it returns, it throws a new exception of a class, or it halts the machine. -/
inductive Native.Outcome where
  | returned (m : Machine)
  | thrown (name message : String) (m : Machine)
  | halted (h : Halt) (m : Machine)

/-- The result that an outcome stands for. The machine throws in the state that the outcome has. -/
def Native.Outcome.run (s : Services) : Native.Outcome → EStateM.Result Halt Machine Unit
  | .returned m => .ok () m
  | .thrown name message m => Throwing.throwNew s name message m
  | .halted h m => .error h m

/-- A native method has an outcome, whatever loads, initializes and calls for it. -/
def Native.Gives (act : Native) (m : Machine) (o : Native.Outcome) : Prop := ∀ s, act s m = o.run s

/-! ## Ranges and kinds -/

namespace Machine

variable (m : Machine)

/-- The length of an array, which is a number of 32 bits. -/
def lengthOf (r : Ref) : Int :=
  match (m.objectAt r).elements with
  | some e => (Int32.ofNat e.length).toInt
  | none => 0

/-- A range lies in an array. -/
def Within (r : Ref) (start count : Int32) : Prop :=
  0 ≤ start ∧ 0 ≤ count ∧ start.toInt + count.toInt ≤ m.lengthOf r

instance (r : Ref) (start count : Int32) : Decidable (m.Within r start count) :=
  inferInstanceAs (Decidable (_ ∧ _ ∧ _))

/-- The kinds of two arrays go together: where one holds numbers, the arrays are of one class. -/
def Compatible (source target : Ref) : Prop :=
  (isNumberArray (m.classAt (m.classOf source)).name || isNumberArray (m.classAt (m.classOf target)).name) →
    m.classOf source = m.classOf target

instance (source target : Ref) : Decidable (m.Compatible source target) := inferInstanceAs (Decidable (_ → _))

/-- An array has elements of the kind that the name of its class says. Elements are references where they are no numbers,
and then the class has components. -/
structure Typed (r : Ref) : Prop where
  kind : ∀ e, (m.objectAt r).elements = some e →
    (Elements.ofClassName? (m.classAt (m.classOf r)).name 0).map Elements.kindText = some e.kindText
  plain : isNumberArray (m.classAt (m.classOf r)).name = false → ∀ e, (m.objectAt r).elements = some e → ∃ a, e = .refs a
  component : ∀ a, (m.objectAt r).elements = some (.refs a) → (m.classAt (m.classOf r)).component.isSome

/-- A range of an array is copied to a place in an array. -/
def Copied (source : Ref) (start : Nat) (target : Ref) (place count : Nat) (m' : Machine) : Prop :=
  ∃ a b c, (m.objectAt source).elements = some a ∧ (m.objectAt target).elements = some b ∧
    c.Replaced a start b place count ∧ m' = m.withElements target c

/-- Whether a reference may be an element where the components are of a class. -/
def admits (component : ClassId) : Option Ref → Bool
  | none => true
  | some r => m.isAssignable component (m.classOf r)

/-- Why the test whether a reference may be an element stops the machine. -/
def admitHalt? (component : ClassId) : Option Ref → Option Halt
  | none => none
  | some r => m.testHalt? component (m.classOf r)

/-- Whether a reference is copied: the test ends, and the reference may be an element. -/
def passes (component : ClassId) (v : Option Ref) : Bool := (m.admitHalt? component v).isNone && m.admits component v

variable {m}

theorem admits_withElements {r : Ref} {e : Elements} (component : ClassId) (v : Option Ref) :
    (m.withElements r e).admits component v = m.admits component v := by
  cases v with
  | none => rfl
  | some v => rw [admits, admits, isAssignable_withElements, classOf_withElements]

theorem admitHalt?_withElements {r : Ref} {e : Elements} (component : ClassId) (v : Option Ref) :
    (m.withElements r e).admitHalt? component v = m.admitHalt? component v := by
  cases v with
  | none => rfl
  | some v => rw [admitHalt?, admitHalt?, testHalt?_withElements, classOf_withElements]

theorem passes_withElements {r : Ref} {e : Elements} (component : ClassId) (v : Option Ref) :
    (m.withElements r e).passes component v = m.passes component v := by
  rw [passes, admitHalt?_withElements, admits_withElements, passes]

/-- The length is that of the elements, if it is a number of 31 bits as that of every array that Java code makes. -/
theorem lengthOf_eq {r : Ref} {e : Elements} (h : (m.objectAt r).elements = some e) (hlength : e.length < 2 ^ 31) :
    m.lengthOf r = e.length := by
  simp only [lengthOf, h]
  exact Int32.toInt_ofNat_of_lt hlength

theorem lengthOf_le {r : Ref} {e : Elements} (h : (m.objectAt r).elements = some e) : m.lengthOf r ≤ e.length := by
  have hsize : (Int32.size : Int) = 2 ^ 32 := rfl
  simp only [lengthOf, h, Int32.toInt_ofNat', Int.bmod_def, hsize]
  split <;> omega

end Machine

/-! ## Element by element -/

namespace M

variable {m : Machine} {target : Ref} {component : ClassId} {b : Array (Option Ref)}

theorem run_storeReference (h : (m.objectAt target).elements = some (.refs b)) (i : Nat) (v : Option Ref) :
    storeElement target .ref i (.ofRef v) .null m =
      .ok () (m.withElements target (.refs (b.setIfInBounds i v))) := by
  have hholds : ((m.objectAt target).elements.map (Elements.holds .ref)).getD false = true := by
    rw [h]
    rfl
  rw [storeElement, run_bind (run_objectAt target m), if_pos hholds]
  have href : (Slot.ofRef v).ref? = v := by cases v <;> rfl
  refine congrArg (fun heap => EStateM.Result.ok () { m with heap }) (Machine.modify_congr ?_)
  simp only [h, Option.bind_some, Elements.store?, href]

/-- How a copy ends at the first reference that does not pass, or with all copied. -/
def fittingEnd (m : Machine) (component : ClassId) (stop : Option (Option Ref)) (m' : Machine) :
    EStateM.Result Halt Machine Bool :=
  match stop with
  | none => .ok true m'
  | some v =>
    match m.admitHalt? component v with
    | none => .ok false m'
    | some h => .error h m'

theorem run_copyFitting_cons (i : Nat) (v : Option Ref) (rest : List (Option Ref)) :
    Native.copyFitting target component i (v :: rest) m =
      if m.passes component v then
        (do storeElement target .ref i (.ofRef v) .null; Native.copyFitting target component (i + 1) rest) m
      else fittingEnd m component (some v) m := by
  cases v with
  | none => rfl
  | some r =>
    have htest : isInstance r component m =
        (do haltFor (m.testHalt? component (m.classOf r)); pure (m.admits component (some r))) m := rfl
    rw [Native.copyFitting, bind_apply, htest, fittingEnd, Machine.passes, Machine.admitHalt?]
    cases m.testHalt? component (m.classOf r) with
    | some h => rfl
    | none =>
      cases hfits : m.admits component (some r) with
      | true => rfl
      | false => rfl

/-- Elements are copied as far as they pass. -/
theorem run_copyFitting (vs : List (Option Ref)) (i : Nat) (h : (m.objectAt target).elements = some (.refs b))
    (hb : i + vs.length ≤ b.size) {k : Nat} (hk : vs.findIdx (fun v => !m.passes component v) = k) :
    ∃ d : Array (Option Ref), d.size = b.size ∧
      (∀ j, d[j]? = if i ≤ j ∧ j < i + k then vs[j - i]? else b[j]?) ∧
      Native.copyFitting target component i vs m = fittingEnd m component vs[k]? (m.withElements target (.refs d)) := by
  induction vs generalizing m i b k with
  | nil =>
    subst hk
    refine ⟨b, rfl, fun j => (if_neg (by rw [List.findIdx_nil]; omega)).symm, ?_⟩
    exact congrArg (EStateM.Result.ok true) (Machine.withElements_self h).symm
  | cons v rest ih =>
    rw [List.findIdx_cons] at hk
    rw [run_copyFitting_cons]
    cases hv : m.passes component v with
    | false =>
      rw [hv] at hk
      subst hk
      refine ⟨b, rfl, fun j => (if_neg (by simp)).symm, ?_⟩
      rw [Machine.withElements_self h]
      rfl
    | true =>
      rw [hv] at hk
      subst hk
      rw [List.length_cons] at hb
      have hlt := Machine.lt_of_elements h
      have hstored : ((m.withElements target (.refs (b.setIfInBounds i v))).objectAt target).elements =
          some (.refs (b.setIfInBounds i v)) := Machine.elements_withElements hlt
      obtain ⟨d, hsize, hget, hrun⟩ := ih (i + 1) hstored (by rw [Array.size_setIfInBounds]; omega) rfl
      simp only [fittingEnd, Machine.passes_withElements, Machine.admitHalt?_withElements,
        Machine.withElements_withElements] at hget hrun
      refine ⟨d, hsize.trans Array.size_setIfInBounds, fun j => ?_, ?_⟩
      · rw [hget j]
        rcases Nat.lt_trichotomy j i with hlow | rfl | hhigh
        · rw [if_neg (by omega), if_neg (by omega), Array.getElem?_setIfInBounds_ne (by omega)]
        · rw [if_neg (by omega), if_pos ⟨Nat.le_refl _, by simp⟩, Array.getElem?_setIfInBounds_self_of_lt (by omega),
            Nat.sub_self]
          rfl
        · rw [show j - i = j - (i + 1) + 1 by omega, List.getElem?_cons_succ, Array.getElem?_setIfInBounds_ne (by omega)]
          exact if_congr (by simp; omega) rfl rfl
      · rw [if_pos rfl, run_bind (run_storeReference h i v)]
        exact hrun

end M

/-! ## Copying between arrays whose kinds go together -/

namespace Machine

variable (m : Machine)

/-- References are copied one by one: those of the source may not be components of the target's class as such. -/
structure Tests (source target : Ref) (a : Array (Option Ref)) (component : ClassId) : Prop where
  copied : (m.objectAt source).elements = some (.refs a)
  replaced : ∃ b, (m.objectAt target).elements = some (.refs b)
  components : (m.classAt (m.classOf target)).component = some component
  unordered : ∃ c, (m.classAt (m.classOf source)).component = some c ∧ m.testHalt? component c = none ∧
    m.isAssignable component c = false

/-- The first element of a range that does not pass the test for a class of components comes after `k` others. -/
structure Bars (a : Array (Option Ref)) (start count : Nat) (component : ClassId) (k : Nat) (v : Option Ref) : Prop where
  lt : k < count
  before : ∀ i < k, ∀ v, a[start + i]? = some v → m.passes component v = true
  here : a[start + k]? = some v
  barred : m.passes component v = false

/-- The test of the first element of a range that does not pass ends: the element does not fit the class of components. -/
def Misfits (a : Array (Option Ref)) (start count : Nat) (component : ClassId) (k : Nat) : Prop :=
  ∃ v, m.Bars a start count component k v ∧ m.admitHalt? component v = none

/-- The test of the first element of a range that does not pass stops the machine. -/
def Stops (a : Array (Option Ref)) (start count : Nat) (component : ClassId) (k : Nat) (h : Halt) : Prop :=
  ∃ v, m.Bars a start count component k v ∧ m.admitHalt? component v = some h

/-- Whether the classes of the components of two arrays go together is a test that stops the machine. -/
def Unsettled (source target : Ref) (h : Halt) : Prop :=
  ∃ component c, (m.classAt (m.classOf target)).component = some component ∧
    (m.classAt (m.classOf source)).component = some c ∧ m.testHalt? component c = some h

/-- No test of a copy stops the machine: neither that of the classes of components nor that of an element. -/
structure Testable (source target : Ref) (start count : Nat) : Prop where
  settled : ∀ h, ¬ m.Unsettled source target h
  goesOn : ∀ a component, m.Tests source target a component → ∀ k h, ¬ m.Stops a start count component k h

/-- The elements of two arrays are of different kinds, or just one of their classes has components. -/
def Mixed (source target : Ref) : Prop :=
  ∃ a b, (m.objectAt source).elements = some a ∧ (m.objectAt target).elements = some b ∧
    (a.kindText ≠ b.kindText ∨ (∃ rs, a = .refs rs) ∧
      (m.classAt (m.classOf source)).component.isSome ≠ (m.classAt (m.classOf target)).component.isSome)

/-- What copying a range gives that lies in its array, as its place does. -/
inductive Transfers (source : Ref) (start : Nat) (target : Ref) (place count : Nat) : Native.Outcome → Prop where
  | whole {m' : Machine} (h : m.Copied source start target place count m')
      (hfits : ∀ a component k, m.Tests source target a component → ¬ m.Misfits a start count component k) :
      Transfers source start target place count (.returned m')
  | part {m' : Machine} {a : Array (Option Ref)} {component : ClassId} {k : Nat}
      (h : m.Copied source start target place k m') (htests : m.Tests source target a component)
      (hmisfits : m.Misfits a start count component k) :
      Transfers source start target place count
        (.thrown Throwables.arrayStore "arraycopy: element type mismatch" m')
  | halted {h : Halt} (hmixed : m.Mixed source target) : Transfers source start target place count (.halted h m)
  | unsettled {h : Halt} (hunsettled : m.Unsettled source target h) :
      Transfers source start target place count (.halted h m)
  | stopped {m' : Machine} {a : Array (Option Ref)} {component : ClassId} {k : Nat} {halt : Halt}
      (h : m.Copied source start target place k m') (htests : m.Tests source target a component)
      (hstops : m.Stops a start count component k halt) : Transfers source start target place count (.halted halt m')

variable {m} {source target : Ref} {a b : Array (Option Ref)} {component : ClassId} {start place count k k' : Nat}
  {v v' : Option Ref} {halt : Halt}

theorem Tests.unique {a' : Array (Option Ref)} {component' : ClassId} (h : m.Tests source target a component)
    (h' : m.Tests source target a' component') : a = a' ∧ component = component' := by
  have hsource := h.copied.symm.trans h'.copied
  have hcomponent := h.components.symm.trans h'.components
  cases hsource
  cases hcomponent
  exact ⟨rfl, rfl⟩

theorem Tests.not_mixed (h : m.Tests source target a component) : ¬ m.Mixed source target := by
  rintro ⟨x, y, hx, hy, hor⟩
  obtain ⟨b, hb⟩ := h.replaced
  obtain ⟨c, hc, -⟩ := h.unordered
  cases hx.symm.trans h.copied
  cases hy.symm.trans hb
  rcases hor with hkind | ⟨-, hcomponents⟩
  · exact hkind rfl
  · exact hcomponents (by rw [hc, h.components]; rfl)

theorem Tests.settled (h : m.Tests source target a component) : ¬ m.Unsettled source target halt := by
  rintro ⟨component', c', hcomponent', hc', hhalt⟩
  obtain ⟨c, hc, htest, -⟩ := h.unordered
  cases hc.symm.trans hc'
  cases h.components.symm.trans hcomponent'
  rw [htest] at hhalt
  cases hhalt

/-- No test of a copy stops the machine if class files have legal names, the arrays are of classes of the bootstrap loader,
and the elements of such that have names. -/
theorem Legal.testable (h : m.Legal) (hsource : m.AtHome (m.classOf source)) (htarget : m.AtHome (m.classOf target))
    (helements : ∀ a, (m.objectAt source).elements = some (.refs a) → ∀ v, some v ∈ a → m.Resident (m.classOf v)) :
    m.Testable source target start count where
  settled halt := by
    rintro ⟨t, c, ht, hc, hhalt⟩
    rw [testHalt?, h.testHaltWithin_eq_none _ (h.resident_component hsource hc) (h.resident_component htarget ht)] at hhalt
    cases hhalt
  goesOn a t htests k halt := by
    rintro ⟨v, hbars, hhalt⟩
    cases v with
    | none => cases hhalt
    | some v =>
      have hv := helements a htests.copied v (Array.mem_of_getElem? hbars.here)
      rw [admitHalt?, testHalt?, h.testHaltWithin_eq_none _ hv (h.resident_component htarget htests.components)] at hhalt
      cases hhalt

theorem Typed.not_mixed (hs : m.Typed source) (ht : m.Typed target) (hlike : m.Compatible source target) :
    ¬ m.Mixed source target := by
  rintro ⟨x, y, hx, hy, hor⟩
  have hkind : x.kindText = y.kindText := by
    by_cases hnumbers :
        isNumberArray (m.classAt (m.classOf source)).name || isNumberArray (m.classAt (m.classOf target)).name
    · have hname := hs.kind x hx
      rw [hlike hnumbers, ht.kind y hy] at hname
      exact (Option.some_inj.1 hname).symm
    · rw [Bool.not_eq_true, Bool.or_eq_false_iff] at hnumbers
      obtain ⟨a, rfl⟩ := hs.plain hnumbers.1 x hx
      obtain ⟨b, rfl⟩ := ht.plain hnumbers.2 y hy
      rfl
  rcases hor with hother | ⟨⟨a, rfl⟩, hcomponents⟩
  · exact hother hkind
  · obtain ⟨b, rfl⟩ := Elements.exists_refs_of_kind hkind
    exact hcomponents ((hs.component a hx).trans (ht.component b hy).symm)

theorem Bars.unique (h : m.Bars a start count component k v) (h' : m.Bars a start count component k' v') :
    k = k' ∧ v = v' := by
  obtain rfl : k = k' := by
    refine Nat.le_antisymm (Nat.le_of_not_lt fun hlt => ?_) (Nat.le_of_not_lt fun hlt => ?_)
    · exact absurd (h.before k' hlt v' h'.here) (by simp [h'.barred])
    · exact absurd (h'.before k hlt v h.here) (by simp [h.barred])
  exact ⟨rfl, Option.some_inj.1 (h.here.symm.trans h'.here)⟩

theorem Misfits.unique (h : m.Misfits a start count component k) (h' : m.Misfits a start count component k') : k = k' := by
  obtain ⟨_, h, -⟩ := h
  obtain ⟨_, h', -⟩ := h'
  exact (h.unique h').1

theorem Misfits.not_stops (h : m.Misfits a start count component k) : ¬ m.Stops a start count component k' halt := by
  rintro ⟨v', h', hhalt⟩
  obtain ⟨v, h, hnone⟩ := h
  obtain ⟨-, rfl⟩ := h.unique h'
  rw [hnone] at hhalt
  cases hhalt

/-- All elements of a range pass, or there is a first one that does not. -/
theorem bars_findIdx {vs : List (Option Ref)} (hlength : vs.length = count)
    (hvs : ∀ i < count, vs[i]? = a[start + i]?) (hk : vs.findIdx (fun v => !m.passes component v) = k) :
    k = count ∧ (∀ k' v, ¬ m.Bars a start count component k' v) ∨
      ∃ v, vs[k]? = some v ∧ m.Bars a start count component k v := by
  have hle : k ≤ count := hlength ▸ hk ▸ List.findIdx_le_length
  have hbefore : ∀ i < k, ∀ v, a[start + i]? = some v → m.passes component v = true := by
    intro i hi v hv
    rw [← hvs i (by omega)] at hv
    obtain ⟨hlt, rfl⟩ := List.getElem?_eq_some_iff.1 hv
    have hnot : (!m.passes component vs[i]) = false := List.not_of_lt_findIdx (hk ▸ hi)
    simpa using hnot
  rcases Nat.lt_or_eq_of_le hle with hlt | rfl
  · right
    have hin : k < vs.length := hlength ▸ hlt
    refine ⟨vs[k], List.getElem?_eq_getElem hin, hlt, hbefore, ?_, ?_⟩
    · rw [← hvs k hlt, List.getElem?_eq_getElem hin]
    · subst hk
      simpa using List.findIdx_getElem (w := hin)
  · left
    refine ⟨rfl, fun k' v hbars => ?_⟩
    have hbarred := hbars.barred
    rw [hbefore k' hbars.lt v hbars.here] at hbarred
    cases hbarred

end Machine

namespace Native

variable {m : Machine} {source target : Ref} {x y : Elements} (start place count : Nat)

/-- Elements of other kinds than references are copied as a whole, if they are of one kind. -/
theorem run_copyElements (hx : (m.objectAt source).elements = some x) (hy : (m.objectAt target).elements = some y)
    (hkind : x.kindText ≠ y.kindText ∨ ∀ a, x ≠ .refs a) (s : Services) :
    copyElements s source target start place count m =
      match x.copyRange? start y place count with
      | some c => .ok () (m.withElements target c)
      | none => .error (.crash s!"interface conversion: interface \x7b\x7d is {y.kindText}, not {x.kindText}") m := by
  rw [copyElements, run_bind (run_objectAt source m), run_bind (run_objectAt target m), hx, hy]
  cases x <;> cases y <;> first | rfl | simp [Elements.kindText] at hkind

section references

variable {a b : Array (Option Ref)} (hx : (m.objectAt source).elements = some (.refs a))
  (hy : (m.objectAt target).elements = some (.refs b))
include hx hy

theorem run_copyElements_refs (s : Services) :
    copyElements s source target start place count m =
      match (m.classAt (m.classOf target)).component, (m.classAt (m.classOf source)).component with
      | some t, some c =>
        match m.testHalt? t c with
        | some h => .error h m
        | none =>
          if m.isAssignable t c then .ok () (m.withElements target (.refs (copyRange a start b place count)))
          else
            match copyFitting target t place (a.extract start (start + count)).toList m with
            | .ok true m' => .ok () m'
            | .ok false m' => Throwing.throwNew s Throwables.arrayStore "arraycopy: element type mismatch" m'
            | .error h m' => .error h m'
      | none, none => .ok () (m.withElements target (.refs (copyRange a start b place count)))
      | _, _ => .error .null m := by
  rw [copyElements, run_bind (run_objectAt source m), run_bind (run_objectAt target m), hx, hy]
  dsimp only
  rw [run_bind (run_classOf source m), run_bind (run_classOf target m)]
  cases (m.classAt (m.classOf target)).component with
  | none => cases (m.classAt (m.classOf source)).component <;> rfl
  | some t =>
    cases (m.classAt (m.classOf source)).component with
    | none => rfl
    | some c =>
      have htest : M.assignable t c m = (do haltFor (m.testHalt? t c); pure (m.isAssignable t c)) m := rfl
      dsimp only
      rw [bind_apply, htest]
      cases m.testHalt? t c with
      | some h => rfl
      | none => cases m.isAssignable t c with
      | true => rfl
      | false =>
        have hcomponent : (some! (some t) : M ClassId) m = .ok t m := rfl
        change (if false = true then _ else (some! (some t) >>= _ : M Unit) : M Unit) m = _
        rw [if_neg Bool.false_ne_true, if_neg Bool.false_ne_true, run_bind hcomponent, bind_apply]
        cases copyFitting target t place (a.extract start (start + count)).toList m with
        | ok fits m' => cases fits <;> rfl
        | error h m' => rfl

/-- References that are copied one by one are copied as far as they fit. -/
theorem transfers_tested {t : ClassId} (htests : m.Tests source target a t) (hsource : start + count ≤ a.size)
    (htarget : place + count ≤ b.size) :
    ∃ o : Outcome, (∀ s, copyElements s source target start place count m = o.run s) ∧
      m.Transfers source start target place count o := by
  obtain ⟨c, hc, hsettled, hunordered⟩ := htests.unordered
  have hlength : (a.extract start (start + count)).toList.length = count := by
    rw [Array.length_toList, Array.size_extract]
    omega
  have hvs (i : Nat) (hi : i < count) : (a.extract start (start + count)).toList[i]? = a[start + i]? := by
    rw [Array.getElem?_toList, Array.getElem?_extract, if_pos (by omega)]
  have hrun := run_copyElements_refs start place count hx hy
  rw [htests.components, hc] at hrun
  simp only [hsettled, hunordered] at hrun
  generalize (a.extract start (start + count)).toList = vs at hlength hvs hrun
  obtain ⟨k, hk⟩ : ∃ k, vs.findIdx (fun v => !m.passes t v) = k := ⟨_, rfl⟩
  obtain ⟨elements, hsize, hget, hfitting⟩ := run_copyFitting vs place hy (by omega) hk
  have hcopied (hk : k ≤ count) : m.Copied source start target place k (m.withElements target (.refs elements)) := by
    refine ⟨.refs a, .refs b, .refs elements, hx, hy, ⟨rfl, hsize, fun i => ?_⟩, rfl⟩
    rw [Elements.get?_refs, hget i]
    split
    · rw [hvs _ (by omega)]
      rfl
    · rfl
  rw [hfitting] at hrun
  rcases Machine.bars_findIdx hlength hvs hk with ⟨rfl, hnone⟩ | ⟨v, hv, hbars⟩
  · refine ⟨.returned _, fun s => (hrun s).trans ?_, .whole (hcopied (Nat.le_refl _)) fun a' t' k' h => ?_⟩
    · rw [List.getElem?_eq_none (Nat.le_of_eq hlength)]
      rfl
    · obtain ⟨rfl, rfl⟩ := h.unique htests
      rintro ⟨v, hbars, -⟩
      exact hnone k' v hbars
  · have hpart := hcopied (Nat.le_of_lt hbars.lt)
    rw [hv, fittingEnd] at hrun
    cases hhalt : m.admitHalt? t v with
    | none =>
      refine ⟨.thrown _ _ _, fun s => (hrun s).trans ?_, .part hpart htests ⟨v, hbars, hhalt⟩⟩
      rw [hhalt]
      rfl
    | some h =>
      refine ⟨.halted h _, fun s => (hrun s).trans ?_, .stopped hpart htests ⟨v, hbars, hhalt⟩⟩
      rw [hhalt]
      rfl

end references

/-- Copying a range between arrays whose kinds go together gives what it should. -/
theorem transfers (hx : (m.objectAt source).elements = some x) (hy : (m.objectAt target).elements = some y)
    (hsource : start + count ≤ x.length) (htarget : place + count ≤ y.length) :
    ∃ o : Outcome, (∀ s, copyElements s source target start place count m = o.run s) ∧
      m.Transfers source start target place count o := by
  have hcopied {c : Elements} (h : x.copyRange? start y place count = some c) :
      m.Copied source start target place count (m.withElements target c) :=
    ⟨x, y, c, hx, hy, Elements.replaced_copyRange? h hsource htarget, rfl⟩
  by_cases hrefs : ∃ a b, x = .refs a ∧ y = .refs b
  · obtain ⟨a, b, rfl, rfl⟩ := hrefs
    have hrun := run_copyElements_refs start place count hx hy
    cases ht : (m.classAt (m.classOf target)).component with
    | none =>
      cases hc : (m.classAt (m.classOf source)).component with
      | none =>
        refine ⟨.returned _, fun s => (hrun s).trans ?_, .whole (hcopied rfl) fun a' component k h => ?_⟩
        · rw [ht, hc]
          rfl
        · rw [h.components] at ht
          cases ht
      | some c =>
        refine ⟨.halted .null m, fun s => (hrun s).trans ?_, .halted ⟨_, _, hx, hy, .inr ⟨⟨a, rfl⟩, ?_⟩⟩⟩
        · rw [ht, hc]
          rfl
        · simp [ht, hc]
    | some t =>
      cases hc : (m.classAt (m.classOf source)).component with
      | none =>
        refine ⟨.halted .null m, fun s => (hrun s).trans ?_, .halted ⟨_, _, hx, hy, .inr ⟨⟨a, rfl⟩, ?_⟩⟩⟩
        · rw [ht, hc]
          rfl
        · simp [ht, hc]
      | some c =>
        cases hsettled : m.testHalt? t c with
        | some h =>
          refine ⟨.halted h m, fun s => (hrun s).trans ?_, .unsettled ⟨t, c, ht, hc, hsettled⟩⟩
          rw [ht, hc]
          dsimp only
          rw [hsettled]
          rfl
        | none =>
          cases hassignable : m.isAssignable t c with
          | true =>
            refine ⟨.returned _, fun s => (hrun s).trans ?_, .whole (hcopied rfl) fun a' component k h => ?_⟩
            · rw [ht, hc]
              dsimp only
              rw [hsettled]
              exact if_pos hassignable
            · obtain ⟨c', hc', -, hunordered⟩ := h.unordered
              cases hc.symm.trans hc'
              cases ht.symm.trans h.components
              rw [hassignable] at hunordered
              cases hunordered
          | false =>
            exact transfers_tested start place count hx hy ⟨hx, ⟨b, hy⟩, ht, c, hc, hsettled, hassignable⟩ hsource htarget
  · have hkind : x.kindText ≠ y.kindText ∨ ∀ a, x ≠ .refs a := by
      by_cases hsame : x.kindText = y.kindText
      · refine .inr fun a ha => ?_
        subst ha
        cases y <;> first | exact hrefs ⟨_, _, rfl, rfl⟩ | simp [Elements.kindText] at hsame
      · exact .inl hsame
    have hrun := run_copyElements start place count hx hy hkind
    cases hchanged : x.copyRange? start y place count with
    | some c =>
      rw [hchanged] at hrun
      refine ⟨.returned _, hrun, .whole (hcopied hchanged) fun a component k h => ?_⟩
      obtain ⟨b, hb⟩ := h.replaced
      cases hx.symm.trans h.copied
      cases hy.symm.trans hb
      exact absurd ⟨a, b, rfl, rfl⟩ hrefs
    | none =>
      rw [hchanged] at hrun
      refine ⟨.halted _ m, hrun, .halted ⟨x, y, hx, hy, .inl fun hsame => ?_⟩⟩
      obtain ⟨c, hc⟩ := Elements.copyRange?_of_kind start place count hsame
      rw [hchanged] at hc
      cases hc

end Native

/-! ## All arguments -/

/-- Local variables hold the arguments of a copy. -/
structure Activation.Copies (a : Activation) (source : Option Ref) (start : Int32) (target : Option Ref)
    (place count : Int32) : Prop where
  source : a.locals[0]?.map Slot.ref? = some source
  start : a.locals[1]?.map Slot.int = some start
  target : a.locals[2]?.map Slot.ref? = some target
  place : a.locals[3]?.map Slot.int = some place
  count : a.locals[4]?.map Slot.int = some count

/-- The message for arrays whose kinds do not go together. -/
def Machine.mismatchText (m : Machine) (source target : Ref) : String :=
  let sc := m.classAt (m.classOf source)
  let tc := m.classAt (m.classOf target)
  s!"arraycopy: type mismatch: can not copy {sc.javaName} into {tc.javaName}"

/-- What a copy gives, by its arguments. -/
inductive Machine.Copying (m : Machine) :
    Option Ref → Int32 → Option Ref → Int32 → Int32 → Native.Outcome → Prop where
  | null {source start target place count} (h : source = none ∨ target = none) :
    Copying m source start target place count (.thrown Throwables.nullPointer "" m)
  | strange {source start target place count}
      (h : (m.objectAt source).isArray = false ∨ (m.objectAt target).isArray = false) :
    Copying m (some source) start (some target) place count
      (.thrown Throwables.arrayStore "arraycopy: argument type mismatch" m)
  | unlike {source start target place count} (h : ¬ m.Compatible source target) :
    Copying m (some source) start (some target) place count
      (.thrown Throwables.arrayStore (m.mismatchText source target) m)
  | outside {source start target place count} (h : m.Compatible source target)
      (hrange : ¬ (m.Within source start count ∧ m.Within target place count)) :
    Copying m (some source) start (some target) place count
      (.thrown Throwables.arrayIndex s!"arraycopy: last source index {start.toInt + count.toInt} out of bounds" m)
  | inside {source start target place count} {o : Native.Outcome} (h : m.Compatible source target)
      (hsource : m.Within source start count) (htarget : m.Within target place count)
      (ho : m.Transfers source start.toInt.toNat target place.toInt.toNat count.toInt.toNat o) :
    Copying m (some source) start (some target) place count o

namespace Native

variable {m : Machine} {a : Activation} {rest : List Frame}

theorem run_inRange {r : Ref} (h : (m.objectAt r).isArray = true) (start count : Int32) :
    inRange r start count m = .ok (decide (m.Within r start count)) m := by
  obtain ⟨e, he⟩ := Option.isSome_iff_exists.1 h
  have hlength : arrayLength r m = .ok (Int32.ofNat e.length) m := by
    rw [arrayLength, run_bind (run_objectAt r m), he]
    rfl
  rw [inRange, run_bind hlength]
  refine congrArg (fun b => EStateM.Result.ok b m) ?_
  simp only [Machine.Within, Machine.lengthOf, he, Bool.decide_and, Bool.and_assoc]

/-- The arguments are read from the local variables. -/
theorem run_arguments {α : Type} {source target : Option Ref} {start place count : Int32}
    (hframes : m.frames = .active a :: rest) (hargs : a.Copies source start target place count)
    (next : Option Ref → Int32 → Option Ref → Int32 → Int32 → M α) :
    (do next (← localRef 0) (← localInt 1) (← localRef 2) (← localInt 3) (← localInt 4)) m =
      next source start target place count m := by
  rw [run_bind (run_localRef hframes hargs.source), run_bind (run_localInt hframes hargs.start),
    run_bind (run_localRef hframes hargs.target), run_bind (run_localInt hframes hargs.place),
    run_bind (run_localInt hframes hargs.count)]

/-- A copy between two objects tests their kinds, then the ranges. -/
theorem run_arraycopy {source target : Ref} {start place count : Int32} (hframes : m.frames = .active a :: rest)
    (hargs : a.Copies (some source) start (some target) place count) (s : Services) :
    arraycopy s m =
      if (m.objectAt source).isArray = false ∨ (m.objectAt target).isArray = false then
        Throwing.throwNew s Throwables.arrayStore "arraycopy: argument type mismatch" m
      else if ¬ m.Compatible source target then
        Throwing.throwNew s Throwables.arrayStore (m.mismatchText source target) m
      else if m.Within source start count ∧ m.Within target place count then
        copyElements s source target start.toInt.toNat place.toInt.toNat count.toInt.toNat m
      else
        Throwing.throwNew s Throwables.arrayIndex
          s!"arraycopy: last source index {start.toInt + count.toInt} out of bounds" m := by
  refine (run_arguments hframes hargs _).trans ?_
  dsimp only
  rw [run_bind (run_objectAt source m), run_bind (run_objectAt target m)]
  by_cases hstrange : (m.objectAt source).isArray = false ∨ (m.objectAt target).isArray = false
  · rw [if_pos hstrange, if_pos (by simpa using hstrange)]
  · obtain ⟨hsource, htarget⟩ : (m.objectAt source).isArray = true ∧ (m.objectAt target).isArray = true := by
      simpa using hstrange
    rw [if_neg hstrange, if_neg (by simp [hsource, htarget]), run_bind (run_classOf source m),
      run_bind (run_classOf target m), run_bind (run_classIdOf source m), run_bind (run_classIdOf target m)]
    by_cases hlike : m.Compatible source target
    · rw [if_neg (not_not_intro hlike), if_neg (by simpa [Machine.Compatible] using hlike),
        run_bind (run_inRange hsource start count), run_bind (run_inRange htarget place count)]
      by_cases hrange : m.Within source start count ∧ m.Within target place count
      · rw [if_pos hrange, if_pos (by simpa using hrange)]
      · rw [if_neg hrange, if_neg (by simpa using hrange)]
    · rw [if_pos hlike, if_pos (by simpa [Machine.Compatible] using hlike)]
      rfl

theorem within_length {r : Ref} {e : Elements} (he : (m.objectAt r).elements = some e) {start count : Int32}
    (h : m.Within r start count) : start.toInt.toNat + count.toInt.toNat ≤ e.length := by
  obtain ⟨hstart, hcount, hend⟩ := h
  have hlength := Machine.lengthOf_le he
  rw [Int32.le_iff_toInt_le] at hstart hcount
  have hzero : (0 : Int32).toInt = 0 := rfl
  omega

theorem run_arraycopy_null {source target : Option Ref} {start place count : Int32} (hframes : m.frames = .active a :: rest)
    (hargs : a.Copies source start target place count) (hnull : source = none ∨ target = none) (s : Services) :
    arraycopy s m = Throwing.throwNew s Throwables.nullPointer "" m := by
  refine (run_arguments hframes hargs _).trans ?_
  rcases hnull with rfl | rfl
  · rfl
  · cases source <;> rfl

/-- A copy has one of the outcomes that its arguments allow. -/
theorem copying {source target : Option Ref} {start place count : Int32} (hframes : m.frames = .active a :: rest)
    (hargs : a.Copies source start target place count) :
    ∃ o : Outcome, Gives arraycopy m o ∧ m.Copying source start target place count o := by
  by_cases hnull : source = none ∨ target = none
  · exact ⟨.thrown _ _ m, fun s => run_arraycopy_null hframes hargs hnull s, .null hnull⟩
  obtain ⟨⟨source, rfl⟩, target, rfl⟩ : (∃ r, source = some r) ∧ ∃ r, target = some r := by
    simpa [Option.ne_none_iff_exists'] using hnull
  have hrun := run_arraycopy hframes hargs
  by_cases hstrange : (m.objectAt source).isArray = false ∨ (m.objectAt target).isArray = false
  · exact ⟨_, fun s => (hrun s).trans (if_pos hstrange), .strange hstrange⟩
  simp only [if_neg hstrange] at hrun
  by_cases hlike : m.Compatible source target
  · simp only [if_neg (not_not_intro hlike)] at hrun
    by_cases hrange : m.Within source start count ∧ m.Within target place count
    · obtain ⟨⟨x, hx⟩, y, hy⟩ :
          (∃ x, (m.objectAt source).elements = some x) ∧ ∃ y, (m.objectAt target).elements = some y := by
        simpa [Object.isArray, Option.ne_none_iff_exists'] using hstrange
      obtain ⟨o, ho, htransfers⟩ :=
        transfers _ _ _ hx hy (within_length hx hrange.1) (within_length hy hrange.2)
      exact ⟨o, fun s => (hrun s).trans ((if_pos hrange).trans (ho s)), .inside hlike hrange.1 hrange.2 htransfers⟩
    · exact ⟨_, fun s => (hrun s).trans (if_neg hrange), .outside hlike hrange⟩
  · exact ⟨_, fun s => (hrun s).trans (if_pos hlike), .unlike hlike⟩

end Native

/-! ## What a copy does -/

namespace Machine.Copying

variable {m m' : Machine} {source target : Option Ref} {start place count : Int32} {name message : String}
  {s t : Ref} {a : Array (Option Ref)} {component : ClassId} {k : Nat} {o : Native.Outcome}

/-- What is thrown leaves the machine as it was, or an element did not fit and those before it were copied. -/
theorem unchanged (h : m.Copying source start target place count (.thrown name message m')) :
    m' = m ∨ name = Throwables.arrayStore ∧ message = "arraycopy: element type mismatch" ∧
      ∃ s t a component k, source = some s ∧ target = some t ∧ m.Tests s t a component ∧
        m.Misfits a start.toInt.toNat count.toInt.toNat component k ∧
        m.Copied s start.toInt.toNat t place.toInt.toNat k m' := by
  cases h with
  | inside _ _ _ ho =>
    cases ho with
    | part h htests hmisfits => exact .inr ⟨rfl, rfl, _, _, _, _, _, rfl, rfl, htests, hmisfits, h⟩
  | _ => exact .inl rfl

/-- A copy that returns has copied the range. -/
theorem copied (h : m.Copying source start target place count (.returned m')) :
    ∃ s t, source = some s ∧ target = some t ∧
      m.Copied s start.toInt.toNat t place.toInt.toNat count.toInt.toNat m' := by
  cases h with
  | inside _ _ _ ho =>
    cases ho with
    | whole h => exact ⟨_, _, rfl, rfl, h⟩

/-- An element that does not fit is never copied, and those before it are. -/
theorem misfit (h : m.Copying (some s) start (some t) place count o) (hlike : m.Compatible s t)
    (hsource : m.Within s start count) (htarget : m.Within t place count) (htests : m.Tests s t a component)
    (hmisfits : m.Misfits a start.toInt.toNat count.toInt.toNat component k) :
    ∃ m', o = .thrown Throwables.arrayStore "arraycopy: element type mismatch" m' ∧
      m.Copied s start.toInt.toNat t place.toInt.toNat k m' := by
  obtain ⟨b, hb⟩ := htests.replaced
  cases h with
  | null h => simp at h
  | strange h => simp [Object.isArray, htests.copied, hb] at h
  | unlike h => exact absurd hlike h
  | outside _ hrange => exact absurd ⟨hsource, htarget⟩ hrange
  | inside _ _ _ ho =>
    cases ho with
    | whole _ hfits => exact absurd hmisfits (hfits a component k htests)
    | part hcopied htests' hmisfits' =>
      obtain ⟨rfl, rfl⟩ := htests.unique htests'
      obtain rfl := hmisfits.unique hmisfits'
      exact ⟨_, rfl, hcopied⟩
    | halted hmixed => exact absurd hmixed htests.not_mixed
    | unsettled hunsettled => exact absurd hunsettled htests.settled
    | stopped _ htests' hstops =>
      obtain ⟨rfl, rfl⟩ := htests.unique htests'
      exact absurd hstops hmisfits.not_stops

theorem outside_iff (h : m.Copying (some s) start (some t) place count o) (hs : (m.objectAt s).isArray = true)
    (ht : (m.objectAt t).isArray = true) (hlike : m.Compatible s t) :
    (∃ message m', o = .thrown Throwables.arrayIndex message m') ↔
      ¬ (m.Within s start count ∧ m.Within t place count) := by
  cases h with
  | null h => simp at h
  | strange h => simp [hs, ht] at h
  | unlike h => exact absurd hlike h
  | outside _ hrange => exact iff_of_true ⟨_, _, rfl⟩ hrange
  | inside _ hsource htarget ho =>
    refine iff_of_false ?_ (not_not_intro ⟨hsource, htarget⟩)
    rintro ⟨message, m', hthrown⟩
    cases ho with
    | part =>
      injection hthrown with hname
      exact absurd hname (by decide)
    | _ => cases hthrown

/-- Where arrays are as their classes say and no test stops the machine, a copy ends. -/
theorem ends (h : m.Copying source start target place count o) (hs : ∀ s, source = some s → m.Typed s)
    (ht : ∀ t, target = some t → m.Typed t)
    (htests : ∀ s t, source = some s → target = some t → m.Testable s t start.toInt.toNat count.toInt.toNat) (halt : Halt) :
    o ≠ .halted halt m' := by
  rintro rfl
  cases h with
  | inside hlike _ _ ho =>
    have htestable := htests _ _ rfl rfl
    cases ho with
    | halted hmixed => exact (hs _ rfl).not_mixed (ht _ rfl) hlike hmixed
    | unsettled hunsettled => exact htestable.settled halt hunsettled
    | stopped _ htests hstops => exact htestable.goesOn _ _ htests _ _ hstops

end Machine.Copying

namespace Native

variable {m : Machine} {a : Activation} {rest : List Frame}

/-- A copy of a range, for all arguments. What it throws leaves the machine as it was, or an element did not fit that is
no component of the target's class as the class of the source is not, and just the elements before the first such one
were copied. If it returns, the range is where it was copied to, and nothing else has changed. It throws for a range
just where one does not lie in its array, and between arrays that are as their classes say it always ends. -/
theorem arraycopy_copies {source target : Option Ref} {start place count : Int32} (hframes : m.frames = .active a :: rest)
    (hargs : a.Copies source start target place count) :
    ∃ o : Outcome, Gives arraycopy m o ∧
      (∀ name message m', o = .thrown name message m' →
        m' = m ∨ name = Throwables.arrayStore ∧ message = "arraycopy: element type mismatch" ∧
          ∃ s t elements component k, source = some s ∧ target = some t ∧ m.Tests s t elements component ∧
            m.Misfits elements start.toInt.toNat count.toInt.toNat component k ∧
            m.Copied s start.toInt.toNat t place.toInt.toNat k m') ∧
      (∀ m', o = .returned m' → ∃ s t, source = some s ∧ target = some t ∧
        m.Copied s start.toInt.toNat t place.toInt.toNat count.toInt.toNat m') ∧
      (∀ s t, source = some s → target = some t → m.Compatible s t → m.Within s start count → m.Within t place count →
        ∀ elements component k, m.Tests s t elements component →
          m.Misfits elements start.toInt.toNat count.toInt.toNat component k →
            ∃ m', o = .thrown Throwables.arrayStore "arraycopy: element type mismatch" m' ∧
              m.Copied s start.toInt.toNat t place.toInt.toNat k m') ∧
      (∀ s t, source = some s → target = some t → (m.objectAt s).isArray = true → (m.objectAt t).isArray = true →
        m.Compatible s t →
          ((∃ message m', o = .thrown Throwables.arrayIndex message m') ↔
            start < 0 ∨ place < 0 ∨ count < 0 ∨ m.lengthOf s < start.toInt + count.toInt ∨
              m.lengthOf t < place.toInt + count.toInt)) ∧
      ((∀ s, source = some s → m.Typed s) → (∀ t, target = some t → m.Typed t) →
        (∀ s t, source = some s → target = some t → m.Testable s t start.toInt.toNat count.toInt.toNat) →
          ∀ halt m', o ≠ .halted halt m') := by
  obtain ⟨o, hgives, hcopying⟩ := copying hframes hargs
  refine ⟨o, hgives, ?_, ?_, ?_, ?_, fun hs ht htests halt _ => hcopying.ends hs ht htests halt⟩
  · rintro name message m' rfl
    exact hcopying.unchanged
  · rintro m' rfl
    exact hcopying.copied
  · rintro s t rfl rfl hlike hsource htarget elements component k
    exact hcopying.misfit hlike hsource htarget
  · rintro s t rfl rfl hs ht hlike
    rw [hcopying.outside_iff hs ht hlike, Machine.Within, Machine.Within]
    simp only [Int32.le_iff_toInt_le, Int32.lt_iff_toInt_lt]
    omega

/-- A machine that is about to copy: two objects, an array of both, two arrays for strings only, the second with an
object in it that is none. -/
def shelves (source target : Ref) (count : Int32) : Machine where
  options := default
  classes := #[{ name := "java/lang/Object", flags := default },
    { name := "java/lang/String", flags := default, super := some ⟨0⟩ },
    { name := "[Ljava/lang/Object;", flags := default, super := some ⟨0⟩, component := some ⟨0⟩ },
    { name := "[Ljava/lang/String;", flags := default, super := some ⟨0⟩, component := some ⟨1⟩ }]
  heap := #[{ owner := ⟨1⟩ }, { owner := ⟨0⟩ },
    { owner := ⟨2⟩, elements := some (.refs #[some ⟨0⟩, some ⟨1⟩]) },
    { owner := ⟨3⟩, elements := some (.refs #[none, none]) }, { owner := ⟨3⟩, elements := some (.refs #[some ⟨1⟩]) }]
  frames := [.active {
    method := default, locals := #[.ref source, .num 0, .ref target, .num 0, .num count], stack := default }]

/-- The string is copied before the object that is none stops the copy. -/
theorem arraycopy_copies_shelves :
    ∃ o : Outcome, Gives arraycopy (shelves ⟨2⟩ ⟨3⟩ 2) o ∧
      ∃ m', o = .thrown Throwables.arrayStore "arraycopy: element type mismatch" m' ∧
        (shelves ⟨2⟩ ⟨3⟩ 2).Copied ⟨2⟩ 0 ⟨3⟩ 0 1 m' := by
  obtain ⟨o, hgives, -, -, hmisfit, -, -⟩ := arraycopy_copies (m := shelves ⟨2⟩ ⟨3⟩ 2) rfl ⟨rfl, rfl, rfl, rfl, rfl⟩
  have hfits : (shelves ⟨2⟩ ⟨3⟩ 2).Compatible ⟨2⟩ ⟨3⟩ ∧ (shelves ⟨2⟩ ⟨3⟩ 2).Within ⟨2⟩ 0 2 ∧
      (shelves ⟨2⟩ ⟨3⟩ 2).Within ⟨3⟩ 0 2 := by decide +kernel
  have htests : (shelves ⟨2⟩ ⟨3⟩ 2).testHalt? ⟨1⟩ ⟨0⟩ = none ∧ (shelves ⟨2⟩ ⟨3⟩ 2).isAssignable ⟨1⟩ ⟨0⟩ = false ∧
      (shelves ⟨2⟩ ⟨3⟩ 2).passes ⟨1⟩ (some ⟨0⟩) = true ∧ (shelves ⟨2⟩ ⟨3⟩ 2).passes ⟨1⟩ (some ⟨1⟩) = false ∧
      (shelves ⟨2⟩ ⟨3⟩ 2).admitHalt? ⟨1⟩ (some ⟨1⟩) = none := by decide +kernel
  obtain ⟨hsettled, hunordered, hpasses, hbarred, hgoes⟩ := htests
  refine ⟨o, hgives, hmisfit ⟨2⟩ ⟨3⟩ rfl rfl hfits.1 hfits.2.1 hfits.2.2 #[some ⟨0⟩, some ⟨1⟩] ⟨1⟩ 1
    ⟨rfl, ⟨_, rfl⟩, rfl, ⟨0⟩, rfl, hsettled, hunordered⟩
    ⟨some ⟨1⟩, ⟨by decide, fun i hi v hv => ?_, rfl, hbarred⟩, hgoes⟩⟩
  obtain rfl : i = 0 := by omega
  obtain rfl : some ⟨0⟩ = v := Option.some_inj.1 hv
  exact hpasses

/-- A method that returns does not throw. -/
theorem Gives.of_returned {act : Native} {m' : Machine} {o : Outcome} (hreturned : act.Gives m (.returned m'))
    (h : act.Gives m o) : o = .returned m' := by
  have hsilent := (h .silent).symm.trans (hreturned .silent)
  cases o with
  | returned m'' => cases hsilent; rfl
  | thrown name message m'' => cases hsilent
  | halted halt m'' => cases hsilent

/-- References whose class fits as a whole are copied unseen, those too that do not fit. -/
theorem misfit_copied_unseen :
    ¬ ∀ (m : Machine) (a : Activation) (rest : List Frame) (s t : Ref) (start place count : Int32),
      m.frames = .active a :: rest → a.Copies (some s) start (some t) place count → m.Compatible s t →
      m.Within s start count → m.Within t place count → ∀ elements component k,
        (m.objectAt s).elements = some (.refs elements) →
        (m.classAt (m.classOf t)).component = some component →
        m.Misfits elements start.toInt.toNat count.toInt.toNat component k →
          ∃ o, Gives arraycopy m o ∧ ∃ m', (o = .returned m' ∨ ∃ name message, o = .thrown name message m') ∧
            m.Copied s start.toInt.toNat t place.toInt.toNat k m' := by
  intro hclaim
  obtain ⟨o, hgives, m', ho, x, y, c, hx, hy, hreplaced, rfl⟩ := hclaim (shelves ⟨4⟩ ⟨3⟩ 1) _ _ ⟨4⟩ ⟨3⟩ 0 0 1 rfl
    ⟨rfl, rfl, rfl, rfl, rfl⟩ (by decide +kernel) (by decide +kernel) (by decide +kernel) #[some ⟨1⟩] ⟨1⟩ 0 rfl rfl
    ⟨some ⟨1⟩, ⟨by decide, fun i hi => absurd hi (Nat.not_lt_zero i), rfl, by decide +kernel⟩, by decide +kernel⟩
  have hreturned : Gives arraycopy (shelves ⟨4⟩ ⟨3⟩ 1)
      (.returned ((shelves ⟨4⟩ ⟨3⟩ 1).withElements ⟨3⟩ (.refs #[some ⟨1⟩, none]))) := fun s => rfl
  rw [hreturned.of_returned hgives] at ho
  obtain hsame | ⟨name, message, hthrown⟩ := ho
  · injection hsame with hsame
    have hchanged : c = .refs #[some ⟨1⟩, none] := by
      have helements := congrArg (fun m => (Machine.objectAt m ⟨3⟩).elements) hsame
      exact (Option.some_inj.1 helements).symm
    obtain rfl : .refs #[none, none] = y := Option.some_inj.1 hy
    have hfirst := hreplaced.get? 0
    rw [hchanged] at hfirst
    cases hfirst
  · cases hthrown

end Native

end JavaMachine
