import JavaMachine.Machine.Native.System
import JavaMachine.Proofs.Machine.Outlines

/-!
Elements of arrays, of all kinds alike. Elements are those of an array with a range `Replaced` if they are of its kind, as
many, and each of them is that of the array or of the range, by its place; copying a range gives such elements
(`replaced_copyRange?`). Other elements in an array leave the classes of objects and the relations between classes as
they are (`Machine.isAssignable_withElements`).
-/

namespace JavaMachine

open M

/-! ## Ranges -/

section ranges

variable {α : Type} {source target : Array α} {start place count : Nat}

theorem size_copyRange (hsource : start + count ≤ source.size) (htarget : place + count ≤ target.size) :
    (copyRange source start target place count).size = target.size := by
  simp only [copyRange, Array.size_append, Array.size_extract]
  omega

/-- An element of an array with a range replaced is one of the range or one of the array. -/
theorem getElem?_copyRange (hsource : start + count ≤ source.size) (htarget : place + count ≤ target.size) (i : Nat) :
    (copyRange source start target place count)[i]? =
      if place ≤ i ∧ i < place + count then source[start + (i - place)]? else target[i]? := by
  have hbefore : (target.extract 0 place).size = place := by
    rw [Array.size_extract]
    omega
  have hrange : (target.extract 0 place ++ source.extract start (start + count)).size = place + count := by
    rw [Array.size_append, hbefore, Array.size_extract]
    omega
  rw [copyRange, Array.getElem?_append, hrange]
  by_cases hlast : i < place + count
  · rw [if_pos hlast, Array.getElem?_append, hbefore]
    by_cases hfirst : i < place
    · rw [if_pos hfirst, if_neg (by omega), Array.getElem?_extract, if_pos (by omega), Nat.zero_add]
    · rw [if_neg hfirst, if_pos (by omega), Array.getElem?_extract, if_pos (by omega)]
  · rw [if_neg hlast, if_neg (by omega), Array.getElem?_extract]
    split
    · exact congrArg (target[·]?) (by omega)
    · exact (Array.getElem?_eq_none (by omega)).symm

end ranges

/-! ## Elements of all kinds -/

/-- An element of an array. -/
inductive Element where
  | byte (v : Int8)
  | char (v : UInt16)
  | short (v : Int16)
  | int (v : Int32)
  | long (v : Int64)
  | float (bits : UInt32)
  | double (bits : UInt64)
  | ref (r : Option Ref)

namespace Elements

/-- The element at an index. -/
def get? : Elements → Nat → Option Element
  | .bytes a, i => a[i]?.map .byte
  | .chars a, i => a[i]?.map .char
  | .shorts a, i => a[i]?.map .short
  | .ints a, i => a[i]?.map .int
  | .longs a, i => a[i]?.map .long
  | .floats a, i => a[i]?.map .float
  | .doubles a, i => a[i]?.map .double
  | .refs a, i => a[i]?.map .ref

/-- Elements are others with as many of a third array, from a place on, in a range. -/
structure Replaced (changed source : Elements) (start : Nat) (target : Elements) (place count : Nat) : Prop where
  kind : changed.kindText = target.kindText
  length : changed.length = target.length
  get? : ∀ i, changed.get? i =
    if place ≤ i ∧ i < place + count then source.get? (start + (i - place)) else target.get? i

variable {source target changed : Elements} {start place count : Nat}

/-- Elements that a range was copied to have this range replaced. -/
theorem replaced_copyRange? (h : source.copyRange? start target place count = some changed)
    (hsource : start + count ≤ source.length) (htarget : place + count ≤ target.length) :
    changed.Replaced source start target place count := by
  cases source <;> cases target <;> cases h <;> refine ⟨rfl, size_copyRange hsource htarget, fun i => ?_⟩ <;>
    rw [get?, getElem?_copyRange hsource htarget i] <;> split <;> rfl

/-- A range of elements of one kind can be copied. -/
theorem copyRange?_of_kind (start place count : Nat) (h : source.kindText = target.kindText) :
    ∃ changed, source.copyRange? start target place count = some changed := by
  cases source <;> cases target <;> first | exact ⟨_, rfl⟩ | simp [kindText] at h

theorem exists_refs_of_kind {a : Array (Option Ref)} (h : (refs a).kindText = target.kindText) : ∃ b, target = refs b := by
  cases target <;> first | exact ⟨_, rfl⟩ | simp [kindText] at h

theorem get?_refs (a : Array (Option Ref)) (i : Nat) : (refs a).get? i = a[i]?.map .ref := rfl

end Elements

/-! ## Other elements in an array -/

namespace Machine

variable (m : Machine)

/-- The machine with other elements in an array. -/
def withElements (r : Ref) (e : Elements) : Machine :=
  { m with heap := m.heap.modify r.index fun o => { o with elements := some e } }

variable {m} {r r' : Ref} {e e' : Elements}

theorem objectAt_withElements (hr : r.index < m.heap.size) :
    (m.withElements r e).objectAt r' =
      if r = r' then { m.objectAt r' with elements := some e } else m.objectAt r' := by
  refine (objectAt_modify m r r' fun o => { o with elements := some e }).trans ?_
  by_cases h : r = r'
  · rw [if_pos ⟨h, hr⟩, if_pos h]
  · rw [if_neg fun h' => h h'.1, if_neg h]

theorem elements_withElements (hr : r.index < m.heap.size) : ((m.withElements r e).objectAt r).elements = some e := by
  rw [objectAt_withElements hr, if_pos rfl]

theorem classOf_withElements : (m.withElements r e).classOf r' = m.classOf r' := by
  rw [classOf, withElements, objectAt_modify]
  split <;> rfl

theorem isAssignable_withElements (target source : ClassId) :
    (m.withElements r e).isAssignable target source = m.isAssignable target source :=
  have hcores : (m.withElements r e).classes.map Class.core = m.classes.map Class.core := rfl
  isAssignable_congr hcores target source

theorem testHalt?_withElements (target source : ClassId) :
    (m.withElements r e).testHalt? target source = m.testHalt? target source :=
  have hcores : (m.withElements r e).classes.map Class.core = m.classes.map Class.core := rfl
  testHalt?_congr hcores target source

/-- A change of an object depends on what it makes of this object only. -/
theorem modify_congr {f g : Object → Object} (h : f (m.objectAt r) = g (m.objectAt r)) :
    m.heap.modify r.index f = m.heap.modify r.index g := by
  refine Array.ext_getElem? fun i => ?_
  rw [Array.getElem?_modify, Array.getElem?_modify]
  split
  · next hi =>
    subst hi
    rw [objectAt, Array.getD_eq_getD_getElem?] at h
    cases ho : m.heap[r.index]? with
    | none => rfl
    | some o =>
      rw [ho, Option.getD_some] at h
      exact congrArg some h
  · rfl

theorem withElements_withElements : (m.withElements r e).withElements r e' = m.withElements r e' := by
  refine congrArg (fun heap => { m with heap }) (Array.ext_getElem? fun i => ?_)
  rw [withElements, Array.getElem?_modify, Array.getElem?_modify, Array.getElem?_modify]
  split
  · cases m.heap[i]? <;> rfl
  · rfl

theorem withElements_self (h : (m.objectAt r).elements = some e) : m.withElements r e = m := by
  have hsame : m.heap.modify r.index (fun o => { o with elements := some e }) = m.heap.modify r.index id :=
    modify_congr (by rw [← h]; rfl)
  have hid : m.heap.modify r.index id = m.heap := by
    refine Array.ext_getElem? fun i => ?_
    rw [Array.getElem?_modify, Option.map_id, id_eq, ite_self]
  exact congrArg (fun heap => { m with heap }) (hsame.trans hid)

end Machine

end JavaMachine
