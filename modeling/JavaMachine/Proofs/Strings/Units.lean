import JavaMachine.Proofs.Arrays.Elements
import JavaMachine.Proofs.Bytes.BigEndian
import JavaMachine.Proofs.Fields.Values
import JavaMachine.Proofs.Machine.Outlines
import JavaMachine.Proofs.Subtypes.Assignable

/-!
Strings and their units. The bytes of units are a key for them (`Units.key_injective`). What a string spells is read
from the array in its field (`Machine.spells_iff`), so it stays the same where objects are added and pools and mirrors
of classes change only (`Machine.Grown`). A new string spells what it is made of (`Machine.HasStrings.exists_newString`).
-/

namespace JavaMachine

open M Text

/-! ## Keys -/

/-- Units are told apart by their bytes. -/
theorem Units.key_injective : Function.Injective Units.key := by
  intro us
  induction us with
  | nil =>
    intro vs h
    cases vs with
    | nil => rfl
    | cons v vs => cases h
  | cons u us ih =>
    intro vs h
    cases vs with
    | nil => cases h
    | cons v vs =>
      obtain ⟨hhigh, hlow, hrest⟩ :
          (u >>> 8).toUInt8 = (v >>> 8).toUInt8 ∧ u.toUInt8 = v.toUInt8 ∧ Units.key us = Units.key vs := by
        simpa [Units.key, BigEndian.bytes16] using h
      rw [ih hrest, ← BigEndian.word16_bytes u, hhigh, hlow, BigEndian.word16_bytes]

/-! ## Reading strings -/

theorem M.run_getRefField (m : Machine) (r : Ref) (name desc : String) :
    getRefField r name desc m =
      match m.instanceField? r name desc with
      | none => .error (.fatal s!"{(m.classAt (m.classOf r)).name} has no instance field {name} {desc}") m
      | some f =>
        match (m.objectAt r).fields[f.slot]? with
        | some x => .ok x.ref? m
        | none => .error (.index f.slot (m.objectAt r).fields.size) m := by
  rw [getRefField]
  cases hf : m.instanceField? r name desc with
  | none =>
    have hfield : field r name desc m =
        .error (.fatal s!"{(m.classAt (m.classOf r)).name} has no instance field {name} {desc}") m := by
      rw [field, run_bind (run_get m), hf]
      rfl
    rw [bind_apply, hfield]
  | some f =>
    have hfield : field r name desc m = .ok f m := by
      rw [field, run_bind (run_get m), hf]
      rfl
    have hread : Slots.read f.slot (m.objectAt r).fields =
        match (m.objectAt r).fields[f.slot]? with
        | some x => .ok x (m.objectAt r).fields
        | none => .error ⟨f.slot⟩ (m.objectAt r).fields := by
      rw [Slots.read, if_neg (by omega)]
      rfl
    rw [run_bind hfield, bind_apply, slotOf, run_bind (run_objectAt r m), hread]
    dsimp only
    cases (m.objectAt r).fields[f.slot]? <;> rfl

/-- Reading a field leaves the machine as it is. -/
theorem M.eq_of_getRefField {m m' : Machine} {r : Ref} {name desc : String} {v : Option Ref}
    (h : getRefField r name desc m = .ok v m') : m' = m := by
  rw [run_getRefField] at h
  split at h
  · cases h
  · split at h <;> cases h
    rfl

namespace Machine

/-- An object is a string. -/
def IsString (m : Machine) (r : Ref) : Prop := ∃ c, m.stringClass = some c ∧ m.isAssignable c (m.classOf r) = true

/-- A string has units. -/
def Spells (m : Machine) (r : Ref) (units : List UInt16) : Prop := unitsOf (some r) m = .ok units m

/-- The field that a string keeps its units in has a reference. -/
def HasValue (m : Machine) (r : Ref) (value : Option Ref) : Prop := getRefField r "value" "[C" m = .ok value m

variable {m m' : Machine} {r : Ref} {units units' : List UInt16} {value : Option Ref}

theorem hasValue_iff : m.HasValue r value ↔ ∃ f x, m.instanceField? r "value" "[C" = some f ∧
    (m.objectAt r).fields[f.slot]? = some x ∧ x.ref? = value := by
  rw [HasValue, run_getRefField]
  cases m.instanceField? r "value" "[C" with
  | none => simp
  | some f => cases hx : (m.objectAt r).fields[f.slot]? <;> simp [hx]

theorem run_unitsOf (m : Machine) (r : Ref) :
    unitsOf (some r) m =
      match getRefField r "value" "[C" m with
      | .ok none m' => .ok [] m'
      | .ok (some a) m' =>
        match (m'.objectAt a).elements with
        | some (.chars cs) => .ok cs.toList m'
        | _ => .error .null m'
      | .error h m' => .error h m' := by
  rw [unitsOf, bind_apply]
  cases getRefField r "value" "[C" m with
  | error h m' => rfl
  | ok value m' =>
    cases value with
    | none => rfl
    | some a =>
      dsimp only
      rw [run_bind (run_objectAt a m')]
      cases (m'.objectAt a).elements with
      | none => rfl
      | some e => cases e <;> rfl

/-- A string without a value has no units, another one those of its value. -/
theorem spells_iff : m.Spells r units ↔
    m.HasValue r none ∧ units = [] ∨
      ∃ a cs, m.HasValue r (some a) ∧ (m.objectAt a).elements = some (.chars cs) ∧ cs.toList = units := by
  rw [Spells, run_unitsOf]
  simp only [HasValue]
  cases hvalue : getRefField r "value" "[C" m with
  | error h m' => simp
  | ok value m' =>
    obtain rfl := M.eq_of_getRefField hvalue
    cases value with
    | none => simp [eq_comm]
    | some a => cases helements : (m'.objectAt a).elements with
      | none => simp [helements]
      | some e => cases e <;> simp [helements]

theorem Spells.unique (h : m.Spells r units) (h' : m.Spells r units') : units = units' := by
  cases h.symm.trans h'
  rfl

/-! ## Machines in which strings are the same -/

/-- The classes that strings need are there, and strings have a field for their units. -/
structure HasStrings (m : Machine) : Prop where
  chars : ∃ c, m.charArrayClass = some c
  value : ∃ c f, m.stringClass = some c ∧ c.index < m.classes.size ∧ m.lookupField c "value" "[C" = some f ∧
    f.isStatic = false ∧ f.slot < (m.classAt c).instanceSlots

/-- A machine has all objects of another, and the same classes but for their pools, their variables and their mirrors. -/
structure Grown (m m' : Machine) : Prop where
  outlines : m'.classes.map Class.outline = m.classes.map Class.outline
  slots : ∀ c, (m'.classAt c).instanceSlots = (m.classAt c).instanceSlots
  stringClass : m'.stringClass = m.stringClass
  charArrayClass : m'.charArrayClass = m.charArrayClass
  size : m.heap.size ≤ m'.heap.size
  heap : ∀ i < m.heap.size, m'.heap[i]? = m.heap[i]?

namespace Grown

variable (h : m.Grown m')
include h

theorem objectAt (hr : r.index < m.heap.size) : m'.objectAt r = m.objectAt r := by
  rw [Machine.objectAt, Machine.objectAt, Array.getD_eq_getD_getElem?, Array.getD_eq_getD_getElem?, h.heap _ hr]

theorem isString (hr : r.index < m.heap.size) (hstring : m.IsString r) : m'.IsString r := by
  obtain ⟨c, hc, hassignable⟩ := hstring
  refine ⟨c, h.stringClass.trans hc, ?_⟩
  rw [classOf, h.objectAt hr, isAssignable_congr (cores_of_outlines h.outlines)]
  exact hassignable

theorem hasValue (hr : r.index < m.heap.size) (hvalue : m.HasValue r value) : m'.HasValue r value := by
  obtain ⟨f, x, hf, hx, hv⟩ := hasValue_iff.1 hvalue
  refine hasValue_iff.2 ⟨f, x, ?_, h.objectAt hr ▸ hx, hv⟩
  rw [instanceField?, classOf, h.objectAt hr, lookupField_congr (cores_of_outlines h.outlines)]
  exact hf

theorem spells (hr : r.index < m.heap.size) (hspells : m.Spells r units) : m'.Spells r units := by
  rcases spells_iff.1 hspells with ⟨hvalue, rfl⟩ | ⟨a, cs, hvalue, helements, rfl⟩
  · exact spells_iff.2 (.inl ⟨h.hasValue hr hvalue, rfl⟩)
  · refine spells_iff.2 (.inr ⟨a, cs, h.hasValue hr hvalue, ?_, rfl⟩)
    rw [h.objectAt (lt_of_elements helements)]
    exact helements

theorem hasStrings (hstrings : m.HasStrings) : m'.HasStrings where
  chars := h.charArrayClass ▸ hstrings.chars
  value := by
    obtain ⟨c, f, hc, hvalid, hf, hstatic, hslot⟩ := hstrings.value
    refine ⟨c, f, h.stringClass.trans hc, ?_, ?_, hstatic, ?_⟩
    · rwa [size_congr (cores_of_outlines h.outlines)]
    · rwa [lookupField_congr (cores_of_outlines h.outlines)]
    · rwa [h.slots]

end Grown

theorem Grown.refl (m : Machine) : m.Grown m where
  outlines := rfl
  slots _ := rfl
  stringClass := rfl
  charArrayClass := rfl
  size := Nat.le_refl _
  heap _ _ := rfl

theorem Grown.trans {m'' : Machine} (h : m.Grown m') (h' : m'.Grown m'') : m.Grown m'' where
  outlines := h'.outlines.trans h.outlines
  slots c := (h'.slots c).trans (h.slots c)
  stringClass := h'.stringClass.trans h.stringClass
  charArrayClass := h'.charArrayClass.trans h.charArrayClass
  size := Nat.le_trans h.size h'.size
  heap i hi := (h'.heap i (Nat.lt_of_lt_of_le hi h.size)).trans (h.heap i hi)

/-! ## New strings -/

/-- The machine with one more object. -/
def withObject (m : Machine) (o : Object) : Machine := { m with heap := m.heap.push o }

theorem objectAt_withObject (m : Machine) (o : Object) : (m.withObject o).objectAt ⟨m.heap.size⟩ = o := by
  simp [withObject, Machine.objectAt, Array.getD_eq_getD_getElem?]

theorem size_withObject (m : Machine) (o : Object) : (m.withObject o).heap.size = m.heap.size + 1 := Array.size_push ..

theorem grown_withObject (m : Machine) (o : Object) : m.Grown (m.withObject o) where
  outlines := rfl
  slots _ := rfl
  stringClass := rfl
  charArrayClass := rfl
  size := by
    rw [size_withObject]
    omega
  heap i hi := by rw [withObject, Array.getElem?_push, if_neg (by omega)]

theorem withFields_withObject (m : Machine) (o : Object) (fields : Slots) :
    (m.withObject o).withFields ⟨m.heap.size⟩ fields = m.withObject { o with fields } := by
  refine congrArg (fun heap => { m with heap }) (Array.ext_getElem? fun i => ?_)
  rw [withObject, Array.getElem?_modify, Array.getElem?_push, Array.getElem?_push]
  grind

/-- The machine with a new string and the array of its units. -/
def withString (m : Machine) (chars c : ClassId) (f : Field) (units : List UInt16) : Machine :=
  (m.withObject { owner := chars, elements := some (.chars units.toArray) }).withObject
    { owner := c, fields := (Slots.ofSize (m.classAt c).instanceSlots).setIfInBounds f.slot (.ref ⟨m.heap.size⟩) }

/-- The units of a string are in one array, the length of which is a number of 32 bits. -/
def InOneArray (units : List UInt16) : Prop := units.length < 2 ^ 31

instance (units : List UInt16) : Decidable (InOneArray units) := inferInstanceAs (Decidable (_ < _))

theorem run_newChars {chars : ClassId} (hchars : m.charArrayClass = some chars) {units : List UInt16}
    (hlength : InOneArray units) :
    newChars units m = .ok ⟨m.heap.size⟩ (m.withObject { owner := chars, elements := some (.chars units.toArray) }) := by
  have hlength : (Int32.ofNat units.length).toInt = units.length := Int32.toInt_ofNat_of_lt hlength
  have howner : (M.some! m.charArrayClass : M ClassId) m = .ok chars m := by rw [hchars]; rfl
  have hnegative : ¬ Int32.ofNat units.length < 0 := by
    rw [Int32.lt_iff_toInt_lt, hlength]
    have hzero : (0 : Int32).toInt = 0 := rfl
    omega
  rw [newChars, run_bind (run_get m), run_bind howner, if_neg hnegative, hlength, Int.toNat_natCast, List.take_length]
  rfl

/-- A string that is made has its units in a new array. -/
theorem run_newStringUnits {chars c : ClassId} {f : Field} (hchars : m.charArrayClass = some chars)
    (hc : m.stringClass = some c) (hvalid : c.index < m.classes.size) (hf : m.lookupField c "value" "[C" = some f)
    (hstatic : f.isStatic = false) (hslot : f.slot < (m.classAt c).instanceSlots) {units : List UInt16}
    (hlength : InOneArray units) : newStringUnits units m = .ok ⟨m.heap.size + 1⟩ (m.withString chars c f units) := by
  have hsome {α : Type} {v : Option α} {a : α} (h : v = some a) (m : Machine) : M.some! v m = .ok a m := h ▸ rfl
  have hallocate (o : Object) (m : Machine) : allocate o m = .ok ⟨m.heap.size⟩ (m.withObject o) := rfl
  let array := m.withObject { owner := chars, elements := some (.chars units.toArray) }
  let blank : Object := { owner := c, fields := Slots.ofSize (m.classAt c).instanceSlots }
  have hsize : array.heap.size = m.heap.size + 1 := m.size_withObject _
  have hnew : newObject c array = .ok ⟨array.heap.size⟩ (array.withObject blank) := by
    have hclass : array.classes[c.index]? = some (m.classAt c) := by
      change m.classes[c.index]? = _
      rw [Machine.classAt, Array.getD_eq_getD_getElem?, Array.getElem?_eq_getElem hvalid]
      rfl
    rw [newObject, run_bind (run_get _), run_bind (hsome hclass _), hallocate]
  have hobject := array.objectAt_withObject blank
  have hset : setRefField ⟨array.heap.size⟩ "value" "[C" (some ⟨m.heap.size⟩) (array.withObject blank) =
      .ok () (m.withString chars c f units) := by
    have hinstance : (array.withObject blank).instanceField? ⟨array.heap.size⟩ "value" "[C" = some f := by
      have hcores : (array.withObject blank).classes.map Class.core = m.classes.map Class.core := rfl
      rw [instanceField?, classOf, hobject, lookupField_congr hcores, hf]
      exact if_neg (by simp [hstatic])
    have hfield : M.field ⟨array.heap.size⟩ "value" "[C" (array.withObject blank) = .ok f (array.withObject blank) := by
      rw [M.field, run_bind (run_get _), hinstance]
      rfl
    have hread (r : Ref) : M.objectAt r (array.withObject blank) =
      .ok ((array.withObject blank).objectAt r) (array.withObject blank) := rfl
    have hroom : f.slot < blank.fields.size := by simpa [blank, Slots.ofSize] using hslot
    rw [setRefField, run_bind hfield, setSlot, run_bind (hread _), hobject, Slots.write_eq hroom]
    exact congrArg (EStateM.Result.ok ()) (array.withFields_withObject blank _)
  rw [newStringUnits, run_bind (run_newChars hchars hlength), run_bind (run_get _),
    run_bind (hsome (v := array.stringClass) hc _), run_bind hnew, run_bind hset, hsize]
  rfl

/-- What a string is that was just made or that is there already. -/
structure Holds (m : Machine) (r : Ref) (units : List UInt16) : Prop where
  valid : r.index < m.heap.size
  string : m.IsString r
  spells : m.Spells r units

theorem Grown.holds (h : m.Grown m') (hr : m.Holds r units) : m'.Holds r units :=
  ⟨Nat.lt_of_lt_of_le hr.valid h.size, h.isString hr.valid hr.string, h.spells hr.valid hr.spells⟩

/-- A new string has its units. -/
theorem HasStrings.exists_newString (h : m.HasStrings) (hlength : InOneArray units) :
    ∃ r m', newStringUnits units m = .ok r m' ∧ m.Grown m' ∧ m'.Holds r units ∧ m'.interned = m.interned ∧
      m'.classes = m.classes := by
  obtain ⟨chars, hchars⟩ := h.chars
  obtain ⟨c, f, hc, hvalid, hf, hstatic, hslot⟩ := h.value
  let array := m.withObject { owner := chars, elements := some (.chars units.toArray) }
  have hgrown : array.Grown (m.withString chars c f units) := array.grown_withObject _
  have hsize : array.heap.size = m.heap.size + 1 := m.size_withObject _
  have hcores : (m.withString chars c f units).classes.map Class.core = m.classes.map Class.core := rfl
  have hobject : (m.withString chars c f units).objectAt ⟨m.heap.size + 1⟩ =
      { owner := c, fields := (Slots.ofSize (m.classAt c).instanceSlots).setIfInBounds f.slot (.ref ⟨m.heap.size⟩) } :=
    hsize ▸ array.objectAt_withObject _
  have helements : ((m.withString chars c f units).objectAt ⟨m.heap.size⟩).elements = some (.chars units.toArray) := by
    rw [hgrown.objectAt (hsize ▸ Nat.lt_succ_self _)]
    exact congrArg Object.elements (m.objectAt_withObject _)
  refine ⟨_, _, run_newStringUnits hchars hc hvalid hf hstatic hslot hlength, (m.grown_withObject _).trans hgrown,
    ⟨?_, ⟨c, hc, ?_⟩, spells_iff.2 (.inr ⟨⟨m.heap.size⟩, _, ?_, helements, List.toList_toArray⟩)⟩, rfl, rfl⟩
  · exact Nat.lt_of_lt_of_eq (Nat.lt_succ_self _) ((array.size_withObject _).trans (congrArg (· + 1) hsize)).symm
  · rw [classOf, hobject]
    exact assignableWithin_refl _ _
  · refine hasValue_iff.2 ⟨f, .ref ⟨m.heap.size⟩, ?_, ?_, rfl⟩
    · rw [instanceField?, classOf, hobject, lookupField_congr hcores, hf]
      exact if_neg (by simp [hstatic])
    · rw [hobject, Slots.ofSize, Array.getElem?_setIfInBounds_self_of_lt (by rw [Array.size_replicate]; exact hslot)]

end Machine

end JavaMachine
