import JavaMachine.Machine.Execute.Array
import JavaMachine.Machine.Initialization

/-!
Instructions on objects and their classes: constants, creation of objects and arrays, type tests, and
monitors, which only test for null because threads are not preempted.
-/

namespace JavaMachine.Execute

open M Throwing

/-- The class of the method that runs. -/
def holder : M ClassId := return (← activation).method.owner

/-- Where in which method something is wrong. -/
def place : M (String × Int) := do
  let a ← activation
  return (← methodText a.method, a.pc)

/-- Resolves a class entry and goes on with it. -/
def withClass (s : Context) (index : Nat) (next : ClassId → M Unit) : M Unit := do
  s.orThrow (Resolution.classEntry s.toServices (← holder) index) next

/-- Pushes a constant of one slot. -/
def constant (s : Context) (index : Nat) : M Unit := do
  let c ← holder
  match ← Resolution.entry c index with
  | .int v => pushInt v
  | .float bits => pushFloat bits
  | .string units known => pushRef (some (← Linking.stringConstant c index units known))
  | .class .. => withClass s index fun k => do pushRef (some (← mirror k))
  | .unsupported tag =>
    s.throwNew Throwables.internal s!"ldc of constant tag {tag.toNat} is not supported"
  | e =>
    let (method, pc) ← place
    fatal s!"{method}: ldc of {e.kind} at pc {pc}"

/-- Pushes a constant of two slots. -/
def wideConstant (index : Nat) : M Unit := do
  match ← Resolution.entry (← holder) index with
  | .long v => pushLong v
  | .double bits => pushDouble bits
  | e =>
    let (method, pc) ← place
    fatal s!"{method}: ldc2_w of {e.kind} at pc {pc}"

/-- Pushes a new object of an initialized class. -/
def new (s : Context) (index : Nat) : M Unit :=
  withClass s index fun c => do
    let k ← classAt c
    if k.isInterface || k.isAbstract then s.throwNew Throwables.instantiation k.javaName
    else if ← Initialization.ensure s c then pushRef (some (← newObject c))

/-- Throws for a negative number of elements. -/
def negativeSize (s : Context) (n : Int32) : M Unit :=
  s.throwNew Throwables.negativeSize (toString n.toInt)

/-- Pushes a new array of numbers. -/
def newNumberArray (s : Context) (code : UInt8) : M Unit := do
  match arrayTypeDescriptor? code with
  | none =>
    let (method, pc) ← place
    fatal s!"{method}: newarray with type {code.toNat} at pc {pc}"
  | some name =>
    let n ← popInt
    if n < 0 then negativeSize s n
    else s.orThrow (s.loadBoot name) fun c => do pushRef (some (← newArray c n))

/-- Pushes a new array of references. -/
def newRefArray (s : Context) (index : Nat) : M Unit := do
  let n ← popInt
  withClass s index fun component => do
    if n < 0 then negativeSize s n
    else s.orThrow (Linking.arrayClassOf s.toServices component) fun c => do pushRef (some (← newArray c n))

/-- A new array of arrays, one dimension for each count. Elements below the last dimension are null or
zero. -/
def newMultiArray (c : ClassId) : List Int32 → M Ref
  | [] => outside 0 0
  | [n] => newArray c n
  | n :: rest => do
    let r ← newArray c n
    let e := (← objectAt r).elements
    if !(e.map (Elements.holds .ref)).getD false then wrongElements .ref e
    else if n = 0 then return r
    else
      let component ← some! (← classAt c).component
      let rows ← (List.replicate n.toInt.toNat ()).mapM fun _ => newMultiArray component rest
      setElements r (.refs (rows.map some).toArray)
      return r

/-- Pops counts; the one on top is the last. -/
def popCounts : Nat → List Int32 → M (List Int32)
  | 0, counts => return counts
  | n + 1, counts => do
    let v ← popInt
    popCounts n (v :: counts)

/-- Pushes a new array of several dimensions. -/
def newArrays (s : Context) (index dimensions : Nat) : M Unit := do
  let counts ← popCounts dimensions []
  withClass s index fun c => do
    match counts.find? (· < 0) with
    | some n => negativeSize s n
    | none => pushRef (some (← newMultiArray c counts))

/-- Pops an array and pushes its length. -/
def pushLength (s : Context) : M Unit := do
  match ← popRef with
  | none => s.throwNew Throwables.nullPointer ""
  | some r => pushInt (← arrayLength r)

/-- Tests that the object on top is of a class. -/
def checkCast (s : Context) (index : Nat) : M Unit := do
  let top := (← onStack (OperandStack.peek 0)).ref?
  withClass s index fun c => do
    match top with
    | none => return ()
    | some r =>
      if !(← isInstance r c) then
        let held := (← classOf r).javaName
        let wanted := (← classAt c).javaName
        s.throwNew Throwables.classCast s!"{held} cannot be cast to {wanted}"

/-- Pops an object and pushes whether it is of a class. -/
def instanceOf (s : Context) (index : Nat) : M Unit := do
  let object ← popRef
  withClass s index fun c => do
    match object with
    | none => pushBool false
    | some r => pushBool (← isInstance r c)

/-- Pops an object to lock or unlock. -/
def monitor (s : Context) : M Unit := do
  if (← popRef).isNone then s.throwNew Throwables.nullPointer ""

end JavaMachine.Execute
