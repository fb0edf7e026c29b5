import JavaMachine.Machine.Hierarchy
import JavaMachine.Text.Units

/-!
The heap: allocating objects, arrays and strings, fields by name, mirrors of classes, identity hashes and
the pool of strings.
-/

namespace JavaMachine

open Text

namespace Machine

/-- The instance field of that name and descriptor of an object. -/
def instanceField? (m : Machine) (r : Ref) (name desc : String) : Option Field :=
  match m.lookupField (m.classOf r) name desc with
  | some f => if f.isStatic then none else some f
  | none => none

/-- The reference in an instance field, which is null if the field is missing. -/
def refField (m : Machine) (r : Ref) (name desc : String) : Option Ref :=
  match m.instanceField? r name desc with
  | some f => ((m.objectAt r).fields.getD f.slot .null).ref?
  | none => none

/-- The descriptor of strings. -/
def stringDesc : String := "Ljava/lang/String;"

/-- The descriptor of throwables. -/
def throwableDesc : String := "Ljava/lang/Throwable;"

/-- The units of a string object; an object without them has none. -/
def units (m : Machine) (r : Ref) : List UInt16 :=
  match m.refField r "value" "[C" with
  | some v =>
    match (m.objectAt v).elements with
    | some (.chars a) => a.toList
    | _ => []
  | none => []

/-- The text of a string object. -/
def text (m : Machine) (r : Option Ref) : String :=
  match r with
  | some r => Units.toString (m.units r)
  | none => ""

end Machine

namespace M

/-- Adds an object to the heap. -/
def allocate (o : Object) : M Ref := fun m => .ok ⟨m.heap.size⟩ { m with heap := m.heap.push o }

/-- A new instance with all fields zero. Its class has to be there. -/
def newObject (c : ClassId) : M Ref := do
  let k ← some! (← get).classes[c.index]?
  allocate { owner := c, fields := Slots.ofSize k.instanceSlots }

/-- A new array with all elements zero. -/
def newArray (c : ClassId) (n : Int32) : M Ref := do
  allocate { owner := c, elements := ← some! (Elements.ofClassName? (← classAt c).name n.toInt.toNat) }

/-- The elements of a reference array. -/
def refsOf (r : Ref) : M (Array (Option Ref)) := do
  match (← objectAt r).elements with
  | some (.refs a) => return a
  | _ => crash

/-- Sets the elements of an array. -/
def setElements (r : Ref) (e : Elements) : M Unit := updateObject r fun o => { o with elements := some e }

/-- The length of an array. -/
def arrayLength (r : Ref) : M Int32 := do
  match (← objectAt r).elements with
  | some e => return Int32.ofNat e.length
  | none => fatal s!"arraylength on non-array {(← classOf r).name}"

/-- An instance field by name, which has to be there. -/
def field (r : Ref) (name desc : String) : M Field := do
  match (← get).instanceField? r name desc with
  | some f => return f
  | none => fatal s!"{(← classOf r).name} has no instance field {name} {desc}"

/-- Whether an object has an instance field. -/
def hasField (r : Ref) (name desc : String) : M Bool := do
  return ((← get).instanceField? r name desc).isSome

/-- A slot of an object. -/
def slotOf (r : Ref) (i : Int) : M Slot := do
  match Slots.read i (← objectAt r).fields with
  | .ok v _ => return v
  | .error e fields => outside e.index fields.size

/-- Sets a slot of an object. -/
def setSlot (r : Ref) (i : Int) (v : Slot) : M Unit := do
  match Slots.write i v (← objectAt r).fields with
  | .ok _ fields => updateObject r fun o => { o with fields }
  | .error e fields => outside e.index fields.size

/-- Reads a reference field. -/
def getRefField (r : Ref) (name desc : String) : M (Option Ref) := do
  return (← slotOf r (← field r name desc).slot).ref?

/-- Writes a reference field. -/
def setRefField (r : Ref) (name desc : String) (v : Option Ref) : M Unit := do
  setSlot r (← field r name desc).slot (.ofRef v)

/-- Reads a number field. -/
def getIntField (r : Ref) (name : String) : M Int32 := do
  return (← slotOf r (← field r name "I").slot).int

/-- Writes a number field. -/
def setIntField (r : Ref) (name : String) (v : Int32) : M Unit := do
  setSlot r (← field r name "I").slot (.num v)

/-- Writes a reference field if there is one. -/
def setRefIfPresent (r : Ref) (name desc : String) (v : Option Ref) : M Unit := do
  if ← hasField r name desc then setRefField r name desc v

/-- Writes a number field if there is one. -/
def setIntIfPresent (r : Ref) (name : String) (v : Int32) : M Unit := do
  if ← hasField r name "I" then setIntField r name v

/-! ## Strings -/

/-- The units of a string object. -/
def unitsOf (r : Option Ref) : M (List UInt16) := do
  match r with
  | none => return []
  | some r =>
    match ← getRefField r "value" "[C" with
    | none => return []
    | some v =>
      match (← objectAt v).elements with
      | some (.chars a) => return a.toList
      | _ => crash

/-- The text of a string object; null has none. -/
def textOf (r : Option Ref) : M String := return Units.toString (← unitsOf r)

/-- A new array of units for a string. Its length is a number of 32 bits: a negative one stops the machine, and units
beyond it are left out. -/
def newChars (units : List UInt16) : M Ref := do
  let n := Int32.ofNat units.length
  let owner ← some! (← get).charArrayClass
  if n < 0 then throw (.crash "runtime error: makeslice: len out of range")
  else allocate { owner, elements := some (.chars (units.take n.toInt.toNat).toArray) }

/-- A new string of units. -/
def newStringUnits (units : List UInt16) : M Ref := do
  let chars ← newChars units
  let o ← newObject (← some! (← get).stringClass)
  setRefField o "value" "[C" (some chars)
  return o

/-- A new string. -/
def newString (s : String) : M Ref := newStringUnits (Units.ofString s)

/-- The pooled string of a unit sequence, which `make` provides if there is none. -/
def internWith (units : List UInt16) (make : M Ref) : M Ref := do
  let key := Units.key units
  match (← get).interned[key]? with
  | some r => return r
  | none =>
    let r ← make
    modify fun m => { m with interned := m.interned.insert key r }
    return r

/-- The pooled string of a unit sequence. -/
def internUnits (units : List UInt16) : M Ref := internWith units (newStringUnits units)

/-- The pooled string of a text. -/
def intern (s : String) : M Ref := internUnits (Units.ofString s)

/-- The pooled string that equals a string object; the object itself becomes it if there is none. -/
def internObject (r : Ref) : M Ref := do internWith (← unitsOf (some r)) (pure r)

/-! ## Identity -/

/-- What identity hashes grow by. -/
def hashStep : Int32 := 0x61c88647

/-- The identity hash of an object, chosen when it is first asked for and never zero. -/
def identityHash (r : Ref) : M Int32 := do
  let o ← objectAt r
  if o.hash ≠ 0 then return o.hash
  let next := (← get).hashSeed + hashStep
  let h := if next = 0 then 1 else next
  modify fun m => { m with hashSeed := next }
  updateObject r fun o => { o with hash := h }
  return h

/-- An object, which has to be there. -/
def present (r : Ref) : M Object := do some! (← get).heap[r.index]?

/-- Whether an object may be stored in a variable of a class. -/
def isInstance (r : Ref) (c : ClassId) : M Bool := do assignable c ((← get).classOf r)

/-! ## Mirrors -/

/-- The loader object of a loader; the bootstrap loader has none. -/
def loaderMirror (l : Nat) : M (Option Ref) := do return ((← get).loaderAt l).mirror

/-- The object that stands for a class, made when it is first asked for. -/
def mirror (c : ClassId) : M Ref := do
  let k ← classAt c
  match k.mirror with
  | some r => return r
  | none =>
    match (← get).classClass with
    | none => fatal s!"mirror of {k.name} requested before java/lang/Class is loaded"
    | some cc =>
      let r ← newObject cc
      updateObject r fun o => { o with attached := some (.class c) }
      setRefIfPresent r "classLoader" "Ljava/lang/ClassLoader;" (← loaderMirror k.loader)
      updateClass c fun k => { k with mirror := some r }
      return r

/-- The class that a mirror stands for. -/
def mirrored (r : Ref) : M (Option ClassId) := return (← objectAt r).mirrored?

/-- The loader of a loader object; null stands for the bootstrap loader. -/
def loaderOf (r : Option Ref) : M Nat := do
  match r with
  | none => return 0
  | some r =>
    match (← objectAt r).attached with
    | some (.loader l) => return l
    | _ =>
      let l := (← get).loaders.size
      modify fun m => { m with loaders := m.loaders.push { mirror := some r } }
      updateObject r fun o => { o with attached := some (.loader l) }
      return l

end M

end JavaMachine
