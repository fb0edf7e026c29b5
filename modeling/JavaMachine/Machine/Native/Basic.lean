import JavaMachine.Machine.Execute.Array
import JavaMachine.Machine.Interpreter

/-!
What native methods share: tests for null, classes behind mirrors, and objects of classes that the library
has to provide.
-/

namespace JavaMachine.Native

open M Throwing

/-- Goes on with a reference that is not null. -/
def notNull (s : Services) (r : Option Ref) (next : Ref → M Unit) : M Unit := do
  match r with
  | some r => next r
  | none => throwNull s

/-- The class behind a mirror, which has to be one. -/
def classBehind (r : Ref) : M ClassId := do some! (← mirrored r)

/-- The class that the receiver stands for. -/
def receiverClass : M ClassId := do classBehind (← receiver)

/-- The mirror of a class, or null. -/
def mirrorOrNull (c : Option ClassId) : M (Option Ref) := do
  match c with
  | some c => return some (← mirror c)
  | none => return none

/-- Goes on with a new object of a class of the library after initializing it. -/
def withNew (s : Services) (name : String) (next : Ref → M Unit) : M Unit :=
  orThrow s (s.loadBoot name) fun c =>
    orThrow s (s.initClass c) fun _ => do next (← newObject c)

/-- The elements of an array of bytes. -/
def bytesOf (r : Ref) : M (Array Int8) := do
  match (← objectAt r).elements with
  | some (.bytes a) => return a
  | e => wrongElements .byte e

/-- Whether a range lies in an array. -/
def inRange (array : Ref) (start count : Int32) : M Bool := do
  return 0 ≤ start && 0 ≤ count && start.toInt + count.toInt ≤ (← arrayLength array).toInt

/-- The bytes of a range of an array. -/
def bytesIn (array : Ref) (start count : Int32) : M (List UInt8) := do
  let a ← bytesOf array
  let first := start.toInt.toNat
  return (a.extract first (first + count.toInt.toNat)).toList.map Int8.toUInt8

/-- Does nothing. -/
def nothing : Native := fun _ => return ()

end JavaMachine.Native
