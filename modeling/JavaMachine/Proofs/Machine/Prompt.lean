import JavaMachine.Proofs.Machine.Operations

/-!
Actions that end. An action is `Prompt` if it never gives up for want of levels: whatever it halts for, it is not
that it is stuck. Main results: actions that are built from prompt ones are prompt, and so are those on the heap,
on pooled strings and on texts that the definition of a class needs.
-/

namespace JavaMachine

open M

namespace M

variable {α β : Type}

/-- If the action halts then it is not stuck. -/
def Prompt (act : M α) : Prop := ∀ m h m', act m = .error h m' → h ≠ .stuck

/-! ## Building actions -/

/-- An action that never halts. -/
theorem prompt_of_ok {act : M α} (h : ∀ m, ∃ a m', act m = .ok a m') : Prompt act := by
  intro m e m' he
  obtain ⟨a, m'', hok⟩ := h m
  rw [hok] at he
  cases he

@[grind ←]
theorem prompt_pure {a : α} : Prompt (pure a : M α) := prompt_of_ok fun _ => ⟨_, _, rfl⟩

@[grind ←]
theorem prompt_get : Prompt (get : M Machine) := prompt_of_ok fun _ => ⟨_, _, rfl⟩

@[grind ←]
theorem prompt_modify {f : Machine → Machine} : Prompt (modify f : M Unit) := prompt_of_ok fun _ => ⟨_, _, rfl⟩

theorem prompt_throw {h : Halt} (hh : h ≠ .stuck) : Prompt (throw h : M α) := by
  rintro m e m' ⟨⟩
  exact hh

@[grind ←]
theorem prompt_bind {act : M α} {f : α → M β} (ha : Prompt act) (hf : ∀ a, Prompt (f a)) : Prompt (act >>= f) := by
  intro m e m' he
  rw [bind_apply] at he
  cases hact : act m with
  | ok a m'' =>
    rw [hact] at he
    exact hf a m'' e m' he
  | error e' m'' =>
    rw [hact] at he
    cases he
    exact ha m e m' hact

@[grind ←]
theorem prompt_map {act : M α} {f : α → β} (h : Prompt act) : Prompt (f <$> act) :=
  prompt_bind h fun _ => prompt_pure

@[grind ←]
theorem prompt_fatal {message : String} : Prompt (fatal message : M α) := prompt_throw nofun

@[grind ←]
theorem prompt_crash : Prompt (crash : M α) := prompt_throw nofun

@[grind ←]
theorem prompt_outside {i : Int} {length : Nat} : Prompt (outside i length : M α) := prompt_throw nofun

@[grind ←]
theorem prompt_some! {v : Option α} : Prompt (some! v) := by
  cases v with
  | none => exact prompt_crash
  | some a => exact prompt_pure

theorem nameHalt?_ne_stuck (m : Machine) (c : ClassId) : m.nameHalt? c ≠ some .stuck := by
  unfold Machine.nameHalt?
  split <;> nofun

theorem elementHalt?_ne_stuck (m : Machine) (c : ClassId) : m.elementHalt? c ≠ some .stuck := by
  unfold Machine.elementHalt? Machine.nameHalt?
  split
  · nofun
  · split <;> nofun

theorem prompt_haltFor {h : Option Halt} (hh : h ≠ some .stuck) : Prompt (haltFor h) := by
  cases h with
  | none => exact prompt_pure
  | some h => exact prompt_throw fun hs => hh (congrArg some hs)

/-! ## Looks at the machine and changes of it -/

@[grind ←]
theorem prompt_classAt {c : ClassId} : Prompt (classAt c) := prompt_of_ok fun _ => ⟨_, _, rfl⟩

@[grind ←]
theorem prompt_objectAt {r : Ref} : Prompt (objectAt r) := prompt_of_ok fun _ => ⟨_, _, rfl⟩

@[grind ←]
theorem prompt_classOf {r : Ref} : Prompt (classOf r) := prompt_of_ok fun _ => ⟨_, _, rfl⟩

@[grind ←]
theorem prompt_isArrayClass {c : ClassId} : Prompt (isArrayClass c) :=
  prompt_bind prompt_get fun m => prompt_bind (prompt_haltFor (nameHalt?_ne_stuck m c)) fun _ => prompt_pure

@[grind ←]
theorem prompt_allocate {o : Object} : Prompt (allocate o) := prompt_of_ok fun _ => ⟨_, _, rfl⟩

@[grind ←]
theorem prompt_updateClass {c : ClassId} {f : Class → Class} : Prompt (updateClass c f) := prompt_modify

@[grind ←]
theorem prompt_updateObject {r : Ref} {f : Object → Object} : Prompt (updateObject r f) := prompt_modify

@[grind ←]
theorem prompt_writeOut {bytes : List UInt8} : Prompt (writeOut bytes) := prompt_modify

@[grind ←]
theorem prompt_newObject {c : ClassId} : Prompt (newObject c) := by unfold newObject; grind

@[grind ←]
theorem prompt_setSlot {r : Ref} {i : Int} {v : Slot} : Prompt (setSlot r i v) := by unfold setSlot; grind

@[grind ←]
theorem prompt_field {r : Ref} {name desc : String} : Prompt (field r name desc) := by unfold field; grind

@[grind ←]
theorem prompt_setRefField {r : Ref} {name desc : String} {v : Option Ref} :
    Prompt (setRefField r name desc v) := by unfold setRefField; grind

@[grind ←]
theorem prompt_newChars {units : List UInt16} : Prompt (newChars units) := by
  unfold newChars
  refine prompt_bind prompt_get fun m => prompt_bind prompt_some! fun c => ?_
  split
  · exact prompt_throw nofun
  · exact prompt_allocate

@[grind ←]
theorem prompt_newStringUnits {units : List UInt16} : Prompt (newStringUnits units) := by
  unfold newStringUnits; grind

@[grind ←]
theorem prompt_newString {text : String} : Prompt (newString text) := prompt_newStringUnits

@[grind ←]
theorem prompt_internUnits {units : List UInt16} : Prompt (internUnits units) := by
  unfold internUnits internWith; grind

@[grind ←]
theorem prompt_identityHash {r : Ref} : Prompt (identityHash r) := by
  unfold identityHash
  refine prompt_bind prompt_objectAt fun o => ?_
  split
  · exact prompt_pure
  · refine prompt_bind prompt_get fun m => prompt_bind prompt_modify fun _ => ?_
    exact prompt_bind prompt_updateObject fun _ => prompt_pure

@[grind ←]
theorem prompt_fieldText {f : Field} : Prompt (fieldText f) := by unfold fieldText; grind

@[grind ←]
theorem prompt_loaderText {l : Nat} : Prompt (loaderText l) := by unfold loaderText loaderMirror; grind

end M

namespace Linking

@[grind ←]
theorem prompt_stringConstant {c : ClassId} {index : Nat} {units : List UInt16} {known : Option Ref} :
    Prompt (stringConstant c index units known) := by unfold stringConstant; grind

@[grind ←]
theorem prompt_reportLoaded {k : Class} {size : Nat} {source : String} :
    Prompt (reportLoaded k size source) := by unfold reportLoaded; grind

end Linking

end JavaMachine
