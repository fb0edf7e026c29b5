import JavaMachine.Machine.Execute.Object
import JavaMachine.Proofs.Machine.Natives
import JavaMachine.Proofs.Strings.Units
import Mathlib.Data.Finset.Card

/-!
The pool of strings. Calls of the machine and of Java code ask it for units; `Machine.Interning` is a run of such calls,
with whatever else happens between them, and notes what they were answered with. One call preserves that the pool holds just
these answers (`Machine.Pools.perform`), and so does a whole run (`Machine.Interning.pools`). Main results:
`strings_pooled_once`, and `pooled_string_respelled`, by which a pooled string must keep its array, too, for that.
-/

namespace JavaMachine

open M Text

/-! ## Strings by their units -/

namespace Machine

variable {m m' : Machine} {units units' : List UInt16} {r r' : Ref}

/-- The string that is pooled for units. -/
def pooled? (m : Machine) (units : List UInt16) : Option Ref := m.interned[Units.key units]?

/-- The machine with one more string in the pool. -/
def pooling (m : Machine) (units : List UInt16) (r : Ref) : Machine :=
  { m with interned := m.interned.insert (Units.key units) r }

theorem pooled?_pooling :
    (m.pooling units r).pooled? units' = if units = units' then some r else m.pooled? units' := by
  rw [pooled?, pooling, Std.TreeMap.getElem?_insert]
  simp only [Std.LawfulEqCmp.compare_eq_iff_eq, Units.key_injective.eq_iff]
  rfl

theorem size_pooling (h : m.pooled? units = none) : (m.pooling units r).interned.size = m.interned.size + 1 := by
  have hfresh : m.interned.contains (Units.key units) = false := by
    rw [Std.TreeMap.contains_eq_isSome_getElem?]
    exact Option.isSome_eq_false_iff.2 (Option.isNone_iff_eq_none.2 h)
  rw [pooling, Std.TreeMap.size_insert, hfresh]
  rfl

theorem grown_pooling : m.Grown (m.pooling units r) where
  outlines := rfl
  slots _ := rfl
  stringClass := rfl
  charArrayClass := rfl
  size := Nat.le_refl _
  heap _ _ := rfl

end Machine

theorem M.run_internWith (units : List UInt16) (make : M Ref) (m : Machine) :
    internWith units make m =
      match m.pooled? units with
      | some r => .ok r m
      | none =>
        match make m with
        | .ok r m' => .ok r (m'.pooling units r)
        | .error h m' => .error h m' := by
  rw [internWith, run_bind (run_get m)]
  change (match m.pooled? units with | some r => _ | none => _ : M Ref) m = _
  cases m.pooled? units with
  | some r => rfl
  | none =>
    dsimp only
    rw [bind_apply]
    cases make m <;> rfl

/-! ## Calls -/

/-- A call that asks for a pooled string: of units or of a text, by the machine itself, of the units of a string, by Java
code, or of the units of a constant. -/
inductive StringCall where
  | sequence (units : List UInt16)
  | text (s : String)
  | receiver (r : Ref)
  | constant (c : ClassId) (index : Nat)

namespace StringCall

/-- What a call does. -/
def perform : StringCall → M Ref
  | .sequence units => internUnits units
  | .text s => intern s
  | .receiver r => internObject r
  | .constant c index => do
    match ← Resolution.entry c index with
    | .string units known => Linking.stringConstant c index units known
    | _ => crash

/-- A call asks for units: those of a receiver that is a string, or others of which a string can be made, and which those of
a constant are that is one. -/
def Asks (m : Machine) : StringCall → List UInt16 → Prop
  | .sequence units, asked => asked = units ∧ Machine.InOneArray asked
  | .text s, asked => asked = Units.ofString s ∧ Machine.InOneArray asked
  | .receiver r, asked => m.Holds r asked
  | .constant c index, asked =>
    ∃ known, (m.classAt c).pool.getD index .empty = .string asked known ∧ Machine.InOneArray asked

/-- What code that runs makes a call by: the native method of strings makes that for its receiver, and the instruction that
pushes a constant makes that for a constant that is a string. -/
inductive Made (m : Machine) : StringCall → M Unit → Prop where
  | native {a : Activation} {rest : List Frame} {r : Ref} {act : Native} (s : Services) (hframes : m.frames = .active a :: rest)
      (hreceiver : a.locals[0]?.map Slot.ref? = some (some r))
      (hact : Natives.standard.find? "java/lang/String" "intern" "()Ljava/lang/String;" = some act) :
      Made m (.receiver r) (act s)
  | instruction {a : Activation} {rest : List Frame} {index : Nat} {units : List UInt16} {known : Option Ref} (s : Context)
      (hframes : m.frames = .active a :: rest)
      (hentry : (m.classAt a.method.owner).pool.getD index .empty = .string units known) :
      Made m (.constant a.method.owner index) (Execute.constant s index)

section made

variable {m : Machine} {a : Activation} {rest : List Frame} {units : List UInt16} {known : Option Ref} {index : Nat}

/-- The native method of strings makes the call for its receiver. -/
theorem native_intern {r : Ref} (hframes : m.frames = .active a :: rest)
    (hreceiver : a.locals[0]?.map Slot.ref? = some (some r)) (s : Services) :
    ∃ act, Natives.standard.find? "java/lang/String" "intern" "()Ljava/lang/String;" = some act ∧
      act s m = (do pushRef (some (← (StringCall.receiver r).perform))) m := by
  refine ⟨_, Natives.find?_standard 75 (by decide +kernel) rfl, ?_⟩
  have hrun : M.receiver m = .ok r m := by
    rw [M.receiver, run_bind (run_localRef hframes hreceiver)]
    rfl
  dsimp only
  rw [run_bind hrun]
  rfl

/-- The instruction that pushes a constant makes the call for a constant that is a string. -/
theorem constant_string (hframes : m.frames = .active a :: rest)
    (h : (m.classAt a.method.owner).pool.getD index .empty = .string units known) (s : Context) :
    Execute.constant s index m = (do pushRef (some (← (StringCall.constant a.method.owner index).perform))) m := by
  have hholder : Execute.holder m = .ok a.method.owner m := by
    have hactivation : activation m = .ok a m := by rw [activation, hframes]
    rw [Execute.holder, run_bind hactivation]
    rfl
  rw [Execute.constant, run_bind hholder, run_bind (run_entry h (by simp)), bind_apply, perform,
    run_bind (run_entry h (by simp))]
  exact bind_apply ..

end made

/-- What makes a call pushes the string that the call is answered with. -/
theorem Made.run {m : Machine} {call : StringCall} {act : M Unit} (h : call.Made m act) :
    act m = (do pushRef (some (← call.perform))) m := by
  cases h with
  | native s hframes hreceiver hact =>
    obtain ⟨act', hact', hrun⟩ := native_intern hframes hreceiver s
    rwa [Option.some_inj.1 (hact.symm.trans hact')]
  | instruction s hframes hentry => exact constant_string hframes hentry s

end StringCall

/-- A call with the units that it asked for, and the string that it was answered with. -/
structure StringAnswer where
  call : StringCall
  units : List UInt16
  string : Ref

namespace Machine

/-- What may happen between calls: the pool of strings stays, constants remember no strings but those that they were
answered with, pooled strings stay strings, and the arrays of their units are not written. -/
structure SparesArrays (m m' : Machine) : Prop where
  interned : m'.interned = m.interned
  constants : ∀ c index units r, (m'.classAt c).pool.getD index .empty = .string units (some r) →
    (m.classAt c).pool.getD index .empty = .string units (some r)
  strings : m.HasStrings → m'.HasStrings
  size : m.heap.size ≤ m'.heap.size
  string : ∀ units r, m.pooled? units = some r → m.IsString r → m'.IsString r
  arrays : ∀ units r a, m.pooled? units = some r → m.HasValue r (some a) →
    (m'.objectAt a).elements = (m.objectAt a).elements

/-- Between calls the pooled strings keep their arrays too. -/
structure SparesStrings (m m' : Machine) : Prop extends SparesArrays m m' where
  values : ∀ units r value, m.pooled? units = some r → m.HasValue r value → m'.HasValue r value

/-- Calls from a machine on, and what happens between them. The answers are noted, the latest first. -/
inductive Interning (between : Machine → Machine → Prop) (m₀ : Machine) : List StringAnswer → Machine → Prop where
  | start : Interning between m₀ [] m₀
  | between {log m m'} (h : Interning between m₀ log m) (hbetween : between m m') : Interning between m₀ log m'
  | call {log m m' call units r} (h : Interning between m₀ log m) (hasks : call.Asks m units)
      (hrun : call.perform m = .ok r m') : Interning between m₀ (⟨call, units, r⟩ :: log) m'

/-- No string is pooled yet, and no constant remembers one. -/
structure Unpooled (m : Machine) : Prop where
  strings : m.HasStrings
  interned : m.interned = {}
  constants : ∀ c index units r, (m.classAt c).pool.getD index .empty ≠ .string units (some r)

/-- The pool holds what calls were answered with. -/
structure Pools (m : Machine) (log : List StringAnswer) : Prop where
  strings : m.HasStrings
  pooled : ∀ units r, m.pooled? units = some r ↔ ∃ e ∈ log, e.units = units ∧ e.string = r
  holds : ∀ e ∈ log, m.Holds e.string e.units
  constants : ∀ c index units r, (m.classAt c).pool.getD index .empty = .string units (some r) → m.pooled? units = some r
  size : m.interned.size = (log.map StringAnswer.units).toFinset.card

variable {m m' : Machine} {log : List StringAnswer} {units : List UInt16} {r : Ref} {call : StringCall}

theorem Unpooled.pools (h : m.Unpooled) : m.Pools [] where
  strings := h.strings
  pooled units r := by simp [pooled?, h.interned]
  holds e he := by cases he
  constants c index units r hknown := absurd hknown (h.constants c index units r)
  size := by rw [h.interned]; rfl

theorem Pools.between (h : m.Pools log) (hspares : m.SparesStrings m') : m'.Pools log where
  strings := hspares.strings h.strings
  pooled units r := by rw [pooled?, hspares.interned]; exact h.pooled units r
  holds e he := by
    have hpooled := (h.pooled e.units e.string).2 ⟨e, he, rfl, rfl⟩
    obtain ⟨hvalid, hstring, hspells⟩ := h.holds e he
    refine ⟨Nat.lt_of_lt_of_le hvalid hspares.size, hspares.string _ _ hpooled hstring, ?_⟩
    rcases spells_iff.1 hspells with ⟨hvalue, hunits⟩ | ⟨a, cs, hvalue, helements, hunits⟩
    · exact spells_iff.2 (.inl ⟨hspares.values _ _ _ hpooled hvalue, hunits⟩)
    · refine spells_iff.2 (.inr ⟨a, cs, hspares.values _ _ _ hpooled hvalue, ?_, hunits⟩)
      rw [hspares.arrays _ _ _ hpooled hvalue, helements]
  constants c index units r hknown := by
    rw [pooled?, hspares.interned]
    exact h.constants c index units r (hspares.constants c index units r hknown)
  size := by rw [hspares.interned, h.size]

/-! ## What one call preserves -/

/-- An answer from the pool is noted. -/
theorem Pools.found (h : m.Pools log) (hpooled : m.pooled? units = some r) : m.Pools (⟨call, units, r⟩ :: log) := by
  obtain ⟨e, he, rfl, rfl⟩ := (h.pooled units r).1 hpooled
  refine ⟨h.strings, fun units' r' => ?_, ?_, h.constants, ?_⟩
  · rw [h.pooled]
    constructor
    · rintro ⟨e', he', hunits, hstring⟩
      exact ⟨e', List.mem_cons_of_mem _ he', hunits, hstring⟩
    · rintro ⟨e', he', hunits, hstring⟩
      rcases List.mem_cons.1 he' with rfl | he'
      · exact ⟨e, he, hunits, hstring⟩
      · exact ⟨e', he', hunits, hstring⟩
  · intro e' he'
    rcases List.mem_cons.1 he' with rfl | he'
    · exact h.holds e he
    · exact h.holds e' he'
  · have hseen : e.units ∈ (log.map StringAnswer.units).toFinset := List.mem_toFinset.2 (List.mem_map_of_mem he)
    rw [h.size, List.map_cons, List.toFinset_cons, Finset.insert_eq_of_mem hseen]

/-- A string that is added to the pool is noted. -/
theorem Pools.added (h : m.Pools log) (hnone : m.pooled? units = none) (hgrown : m.Grown m')
    (hinterned : m'.interned = m.interned) (hclasses : m'.classes = m.classes) (hr : m'.Holds r units) :
    (m'.pooling units r).Pools (⟨call, units, r⟩ :: log) := by
  have hpooled (units' : List UInt16) : m'.pooled? units' = m.pooled? units' := by rw [pooled?, hinterned, pooled?]
  have hunseen : ∀ e ∈ log, e.units ≠ units := by
    rintro e he rfl
    rw [(h.pooled e.units e.string).2 ⟨e, he, rfl, rfl⟩] at hnone
    cases hnone
  refine ⟨(hgrown.trans grown_pooling).hasStrings h.strings, fun units' r' => ?_, ?_, ?_, ?_⟩
  · rw [pooled?_pooling, hpooled]
    constructor
    · intro hsome
      split at hsome
      · next hunits => exact ⟨_, List.mem_cons_self, hunits, Option.some_inj.1 hsome⟩
      · obtain ⟨e, he, hunits, hstring⟩ := (h.pooled units' r').1 hsome
        exact ⟨e, List.mem_cons_of_mem _ he, hunits, hstring⟩
    · rintro ⟨e, he, rfl, rfl⟩
      rcases List.mem_cons.1 he with rfl | he
      · rw [if_pos rfl]
      · rw [if_neg (hunseen e he).symm]
        exact (h.pooled _ _).2 ⟨e, he, rfl, rfl⟩
  · intro e he
    rcases List.mem_cons.1 he with rfl | he
    · exact grown_pooling.holds hr
    · exact (hgrown.trans grown_pooling).holds (h.holds e he)
  · intro c index units' r' hknown
    have hold := h.constants c index units' r' (by rwa [classAt, ← hclasses])
    rw [pooled?_pooling, if_neg, hpooled, hold]
    rintro rfl
    rw [hold] at hnone
    cases hnone
  · have hfresh : units ∉ (log.map StringAnswer.units).toFinset := by
      simpa using hunseen
    rw [size_pooling ((hpooled units).trans hnone), hinterned, h.size, List.map_cons, List.toFinset_cons,
      Finset.card_insert_of_notMem hfresh]

/-- What an answer is: from the pool if it holds the units, and else what is made for them. -/
theorem Pools.internWith (h : m.Pools log) (call : StringCall) (make : M Ref)
    (hmake : ∃ r m', make m = .ok r m' ∧ m.Grown m' ∧ m'.Holds r units ∧ m'.interned = m.interned ∧
      m'.classes = m.classes) :
    ∃ r m', M.internWith units make m = .ok r m' ∧ m'.Pools (⟨call, units, r⟩ :: log) ∧
      (m.pooled? units = some r ∨ m.pooled? units = none ∧ ∃ m', make m = .ok r m') := by
  rw [run_internWith]
  cases hpooled : m.pooled? units with
  | some r => exact ⟨r, m, rfl, h.found hpooled, .inl rfl⟩
  | none =>
    obtain ⟨r, m', hrun, hgrown, hr, hinterned, hclasses⟩ := hmake
    rw [hrun]
    exact ⟨r, _, rfl, h.added hpooled hgrown hinterned hclasses hr, .inr ⟨rfl, m', rfl⟩⟩

/-- The machine in which a constant remembers its string. -/
def remembering (m : Machine) (c : ClassId) (index : Nat) (units : List UInt16) (r : Ref) : Machine :=
  { m with classes := m.classes.modify c.index fun k =>
    { k with pool := k.pool.setIfInBounds index (.string units (some r)) } }

theorem grown_remembering (m : Machine) (c : ClassId) (index : Nat) (units : List UInt16) (r : Ref) :
    m.Grown (m.remembering c index units r) where
  outlines := by
    refine outline_modify (f := fun k => { k with pool := k.pool.setIfInBounds index (.string units (some r)) }) ?_
    exact fun _ => rfl
  slots k := by
    rw [remembering, classAt_modify]
    split <;> rfl
  stringClass := rfl
  charArrayClass := rfl
  size := Nat.le_refl _
  heap _ _ := rfl

theorem Pools.remembering (h : m.Pools log) (c : ClassId) (index : Nat) (hpooled : m.pooled? units = some r) :
    (m.remembering c index units r).Pools log where
  strings := (m.grown_remembering c index units r).hasStrings h.strings
  pooled := h.pooled
  holds e he := (m.grown_remembering c index units r).holds (h.holds e he)
  constants c' index' units' r' hknown := by
    change m.pooled? units' = some r'
    rw [Machine.remembering, classAt_modify] at hknown
    split at hknown
    · rw [Array.getD_eq_getD_getElem?, Array.getElem?_setIfInBounds] at hknown
      split at hknown
      · split at hknown
        · cases hknown
          exact hpooled
        · cases hknown
      · rw [← Array.getD_eq_getD_getElem?] at hknown
        exact h.constants c' index' units' r' hknown
    · exact h.constants c' index' units' r' hknown
  size := h.size

/-- Every call is answered, and its answer is noted. It is the string that is pooled for the units; if there is none, it is
the receiver. -/
theorem Pools.perform (h : m.Pools log) (hasks : call.Asks m units) :
    ∃ r m', call.perform m = .ok r m' ∧ m'.Pools (⟨call, units, r⟩ :: log) ∧
      (m.pooled? units = some r ∨ m.pooled? units = none ∧ ∀ x, call = .receiver x → r = x) := by
  have hnew (hlength : InOneArray units) := h.strings.exists_newString hlength
  cases call with
  | sequence units' =>
    obtain ⟨rfl, hlength⟩ := hasks
    obtain ⟨r, m', hrun, hpools, hor⟩ := h.internWith (.sequence units) _ (hnew hlength)
    exact ⟨r, m', hrun, hpools, hor.imp_right fun hnone => ⟨hnone.1, nofun⟩⟩
  | text s =>
    obtain ⟨rfl, hlength⟩ := hasks
    obtain ⟨r, m', hrun, hpools, hor⟩ := h.internWith (.text s) _ (hnew hlength)
    exact ⟨r, m', hrun, hpools, hor.imp_right fun hnone => ⟨hnone.1, nofun⟩⟩
  | receiver x =>
    have hreceiver : m.Holds x units := hasks
    obtain ⟨r, m', hrun, hpools, hor⟩ := h.internWith (.receiver x) (pure x) ⟨x, m, rfl, .refl m, hreceiver, rfl, rfl⟩
    refine ⟨r, m', ?_, hpools, hor.imp_right fun hnone => ⟨hnone.1, fun x' hx => ?_⟩⟩
    · rw [StringCall.perform, internObject, run_bind hreceiver.spells]
      exact hrun
    · obtain ⟨m'', hpure⟩ := hnone.2
      cases hx
      cases hpure
      rfl
  | constant c index =>
    obtain ⟨known, hentry, hlength⟩ := hasks
    have hread := M.run_entry hentry (by simp)
    cases known with
    | some r =>
      have hpooled := h.constants c index units r hentry
      refine ⟨r, m, ?_, h.found hpooled, .inl hpooled⟩
      rw [StringCall.perform, run_bind hread]
      rfl
    | none =>
      obtain ⟨r, m', hrun, hpools, hor⟩ := h.internWith (.constant c index) _ (hnew hlength)
      have hpooled := (hpools.pooled units r).2 ⟨_, List.mem_cons_self, rfl, rfl⟩
      refine ⟨r, m'.remembering c index units r, ?_, hpools.remembering c index hpooled,
        hor.imp_right fun hnone => ⟨hnone.1, nofun⟩⟩
      have hunits : internUnits units m = .ok r m' := hrun
      rw [StringCall.perform, run_bind hread]
      dsimp only
      rw [Linking.stringConstant, run_bind hunits]
      rfl

/-! ## What a whole run comes to -/

/-- The pool holds just the answers of a run. -/
theorem Interning.pools {m₀ : Machine} (h₀ : m₀.Unpooled) (h : Interning SparesStrings m₀ log m) : m.Pools log := by
  induction h with
  | start => exact h₀.pools
  | between _ hspares ih => exact ih.between hspares
  | call _ hasks hrun ih =>
    obtain ⟨r, m', hperform, hpools, -⟩ := ih.perform hasks
    cases hrun.symm.trans hperform
    exact hpools

/-- A receiver is its own answer if nothing was pooled for its units, or it was. -/
theorem Interning.receiver {m₀ : Machine} (h₀ : m₀.Unpooled) (h : Interning SparesStrings m₀ log m) {x : Ref}
    {e : StringAnswer} {before : List StringAnswer} (hsuffix : e :: before <:+ log) (hcall : e.call = .receiver x) :
    e.string = x ↔ (∀ e' ∈ before, e'.units ≠ e.units) ∨ ∃ e' ∈ before, e'.units = e.units ∧ e'.string = x := by
  induction h with
  | start => simp at hsuffix
  | between _ _ ih => exact ih hsuffix
  | @call log m m' call units r hbefore hasks hrun ih =>
    rcases List.suffix_cons_iff.1 hsuffix with hlast | hearlier
    · cases hlast
      have hpools := hbefore.pools h₀
      obtain ⟨r', m'', hperform, -, hor⟩ := hpools.perform hasks
      cases hrun.symm.trans hperform
      rw [← hpools.pooled]
      rcases hor with hpooled | ⟨hnone, hreceiver⟩
      · rw [hpooled, Option.some_inj]
        refine (or_iff_right fun hunseen => ?_).symm
        obtain ⟨e, he, hunits, -⟩ := (hpools.pooled units r).1 hpooled
        exact hunseen e he hunits
      · refine iff_of_true (hreceiver x hcall) (.inl ?_)
        rintro e he rfl
        rw [(hpools.pooled e.units e.string).2 ⟨e, he, rfl, rfl⟩] at hnone
        cases hnone
    · exact ih hearlier

end Machine

/-- Strings are pooled once. Whatever calls there were, as long as nobody else wrote to pooled strings: every call is
answered with a string of just the units that it asked for, which it keeps, and the code that makes the call pushes the
answer; answers are the same string just where the units are; a receiver is its own answer just if none was pooled for its
units before, or it was; and the pool has as many strings as there were different units. -/
theorem strings_pooled_once {m₀ m : Machine} {log : List StringAnswer} (h₀ : m₀.Unpooled)
    (h : Machine.Interning Machine.SparesStrings m₀ log m) :
    (∀ call units, StringCall.Asks m call units →
      ∃ r m', call.perform m = .ok r m' ∧ m'.IsString r ∧ m'.Spells r units ∧
        ∀ act, call.Made m act → act m = pushRef (some r) m') ∧
    (∀ e ∈ log, m.IsString e.string ∧ m.Spells e.string e.units) ∧
    (∀ e ∈ log, ∀ e' ∈ log, e.string = e'.string ↔ e.units = e'.units) ∧
    (∀ x e before, e :: before <:+ log → e.call = .receiver x →
      (e.string = x ↔ (∀ e' ∈ before, e'.units ≠ e.units) ∨ ∃ e' ∈ before, e'.units = e.units ∧ e'.string = x)) ∧
    m.interned.size = (log.map StringAnswer.units).toFinset.card := by
  have hpools := h.pools h₀
  refine ⟨fun call units hasks => ?_, fun e he => ?_, fun e he e' he' => ⟨fun hstring => ?_, fun hunits => ?_⟩,
    fun x e before => h.receiver h₀, hpools.size⟩
  · obtain ⟨r, m', hrun, hpools', -⟩ := hpools.perform hasks
    obtain ⟨-, hstring, hspells⟩ := hpools'.holds _ List.mem_cons_self
    exact ⟨r, m', hrun, hstring, hspells, fun act hact => hact.run.trans (run_bind hrun _)⟩
  · exact ⟨(hpools.holds e he).string, (hpools.holds e he).spells⟩
  · exact (hpools.holds e he).spells.unique (hstring ▸ (hpools.holds e' he').spells)
  · have hsome := (hpools.pooled e.units e.string).2 ⟨e, he, rfl, rfl⟩
    rw [(hpools.pooled e.units e'.string).2 ⟨e', he', hunits.symm, rfl⟩] at hsome
    exact (Option.some_inj.1 hsome).symm

/-- A machine with the classes that strings need, a string without units and an array of one. A constant is without
units too. -/
def scriptorium : Machine where
  options := default
  classes := #[{ name := "[C", flags := default }, {
    name := "java/lang/String", flags := default, instanceSlots := 1, pool := #[.empty, .string [] none],
    fields := [{ owner := ⟨1⟩, flags := default, name := "value", desc := "[C" }] }]
  heap := #[{ owner := ⟨1⟩, fields := #[.null] }, { owner := ⟨0⟩, elements := some (.chars #[97]) }]
  stringClass := some ⟨1⟩
  charArrayClass := some ⟨0⟩

theorem unpooled_scriptorium : scriptorium.Unpooled where
  strings := ⟨⟨⟨0⟩, rfl⟩, ⟨1⟩, _, rfl, by decide, rfl, rfl, by decide⟩
  interned := rfl
  constants c index units r := by
    obtain ⟨_ | _ | c⟩ := c
    · exact nofun
    · obtain _ | _ | index := index <;> exact nofun
    · exact nofun

theorem holds_scriptorium : scriptorium.Holds ⟨0⟩ [] where
  valid := by decide
  string := ⟨⟨1⟩, rfl, Machine.assignableWithin_refl _ _⟩
  spells := rfl

/-- The string without units is pooled when Java code asks for it. -/
theorem run_receiver_scriptorium :
    (StringCall.receiver ⟨0⟩).perform scriptorium = .ok ⟨0⟩ (scriptorium.pooling [] ⟨0⟩) := by
  rw [StringCall.perform, internObject, run_bind holds_scriptorium.spells, run_internWith]
  rfl

/-- The constant is the string that was pooled before, since both are without units. -/
theorem strings_pooled_once_scriptorium :
    ∃ m r, Machine.Interning Machine.SparesStrings scriptorium
      [⟨.constant ⟨1⟩ 1, [], r⟩, ⟨.receiver ⟨0⟩, [], ⟨0⟩⟩] m ∧ r = ⟨0⟩ ∧ m.interned.size = 1 := by
  have hfirst : Machine.Interning Machine.SparesStrings scriptorium [⟨.receiver ⟨0⟩, [], ⟨0⟩⟩] _ :=
    .call .start holds_scriptorium run_receiver_scriptorium
  have hasks : StringCall.Asks (scriptorium.pooling [] ⟨0⟩) (.constant ⟨1⟩ 1) [] := ⟨none, rfl, by decide⟩
  obtain ⟨r, m, hrun, -⟩ := (strings_pooled_once unpooled_scriptorium hfirst).1 _ _ hasks
  have hsecond := hfirst.call hasks hrun
  obtain ⟨-, -, hsame, -, hsize⟩ := strings_pooled_once unpooled_scriptorium hsecond
  exact ⟨m, r, hsecond, (hsame _ List.mem_cons_self _ (List.mem_cons_of_mem _ List.mem_cons_self)).2 rfl, hsize⟩

/-- A string that is pooled may get other units by another array in its field, and the pool goes on to answer with it. -/
theorem pooled_string_respelled :
    ¬ ∀ (m₀ m m' : Machine) (log : List StringAnswer) (call : StringCall) (units : List UInt16) (r : Ref), m₀.Unpooled →
      Machine.Interning Machine.SparesArrays m₀ log m → StringCall.Asks m call units → call.perform m = .ok r m' →
        m'.Spells r units := by
  intro hclaim
  let m := scriptorium.pooling [] ⟨0⟩
  let respelled := m.withFields ⟨0⟩ #[.ref ⟨1⟩]
  have hcores : respelled.classes.map Class.core = m.classes.map Class.core := rfl
  have hpooled : respelled.pooled? [] = some ⟨0⟩ := (Machine.pooled?_pooling (m := scriptorium)).trans (if_pos rfl)
  have hvalid : (⟨0⟩ : Ref).index < m.heap.size := by decide
  have hspares : m.SparesArrays respelled := by
    refine ⟨rfl, fun _ _ _ _ hknown => hknown, fun h => ⟨h.chars, ?_⟩, Nat.le_of_eq Array.size_modify.symm, ?_, ?_⟩
    · obtain ⟨c, f, hc, hvalid, hf, hrest⟩ := h.value
      exact ⟨c, f, hc, hvalid, (Machine.lookupField_congr hcores c _ _).trans hf, hrest⟩
    · rintro units r - ⟨c, hc, hassignable⟩
      refine ⟨c, hc, ?_⟩
      have howner : respelled.classOf r = m.classOf r := by
        rw [Machine.classOf, Machine.objectAt_withFields m hvalid]
        split <;> rfl
      rw [howner, Machine.isAssignable_congr hcores, hassignable]
    · intro units r a _ _
      rw [Machine.objectAt_withFields m hvalid]
      split <;> rfl
  have hrun : (StringCall.sequence []).perform respelled = .ok ⟨0⟩ respelled := by
    change internWith [] _ respelled = _
    rw [run_internWith, hpooled]
  have hspells : respelled.Spells ⟨0⟩ [97] := rfl
  have hfirst : Machine.Interning Machine.SparesArrays scriptorium [⟨.receiver ⟨0⟩, [], ⟨0⟩⟩] m :=
    .call .start holds_scriptorium run_receiver_scriptorium
  have hother := hclaim scriptorium respelled respelled _ (.sequence []) [] ⟨0⟩ unpooled_scriptorium
    (hfirst.between hspares) ⟨rfl, by decide⟩ hrun
  cases hspells.unique hother

end JavaMachine
