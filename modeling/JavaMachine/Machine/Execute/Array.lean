import JavaMachine.Machine.Instruction
import JavaMachine.Machine.Throwing

/-!
Array elements. Every access tests the reference and the index before it touches an element, and a store
of a reference tests its class.
-/

namespace JavaMachine

namespace Elements

/-- How messages name the kind of the elements. -/
def kindText : Elements → String
  | .bytes _ => "[]int8"
  | .chars _ => "[]uint16"
  | .shorts _ => "[]int16"
  | .ints _ => "[]int32"
  | .longs _ => "[]int64"
  | .floats _ => "[]float32"
  | .doubles _ => "[]float64"
  | .refs _ => "[]*vm.Object"

/-- The slots of an element; there are none if the elements are of another kind. -/
def load? : ElementKind → Elements → Nat → Option (List Slot)
  | .byte, .bytes a, i => some [.num (a.getD i 0).toInt32]
  | .char, .chars a, i => some [.num (a.getD i 0).toUInt32.toInt32]
  | .short, .shorts a, i => some [.num (a.getD i 0).toInt32]
  | .int, .ints a, i => some [.num (a.getD i 0)]
  | .long, .longs a, i => some [.lowHalf (a.getD i 0), .highHalf (a.getD i 0)]
  | .float, .floats a, i => some [.ofFloat (a.getD i 0)]
  | .double, .doubles a, i => some [.lowHalf (a.getD i 0).toInt64, .highHalf (a.getD i 0).toInt64]
  | .ref, .refs a, i => some [.ofRef (a.getD i none)]
  | _, _, _ => none

/-- Elements with one of them set from the low and the high half of a value; there are none if the elements
are of another kind. -/
def store? : ElementKind → Elements → Nat → (lo hi : Slot) → Option Elements
  | .byte, .bytes a, i, lo, _ => some (.bytes (a.setIfInBounds i lo.int.toInt8))
  | .char, .chars a, i, lo, _ => some (.chars (a.setIfInBounds i lo.int.toUInt32.toUInt16))
  | .short, .shorts a, i, lo, _ => some (.shorts (a.setIfInBounds i lo.int.toInt16))
  | .int, .ints a, i, lo, _ => some (.ints (a.setIfInBounds i lo.int))
  | .long, .longs a, i, lo, hi => some (.longs (a.setIfInBounds i (Slot.joinLong lo hi)))
  | .float, .floats a, i, lo, _ => some (.floats (a.setIfInBounds i lo.float))
  | .double, .doubles a, i, lo, hi => some (.doubles (a.setIfInBounds i (Slot.joinDouble lo hi)))
  | .ref, .refs a, i, lo, _ => some (.refs (a.setIfInBounds i lo.ref?))
  | _, _, _, _, _ => none

/-- Whether the elements are of the kind of an access. -/
def holds (kind : ElementKind) (e : Elements) : Bool := (e.load? kind 0).isSome

end Elements

/-- The text of the elements that a kind of access needs. -/
def ElementKind.text : ElementKind → String
  | .byte => "[]int8"
  | .char => "[]uint16"
  | .short => "[]int16"
  | .int => "[]int32"
  | .long => "[]int64"
  | .float => "[]float32"
  | .double => "[]float64"
  | .ref => "[]*vm.Object"

/-- Whether the elements take two slots. -/
def ElementKind.isWide : ElementKind → Bool
  | .long => true
  | .double => true
  | _ => false

namespace M

/-- Stops at elements of another kind than an access needs. -/
def wrongElements (kind : ElementKind) (e : Option Elements) : M α :=
  let held := (e.map Elements.kindText).getD "nil"
  throw (.crash s!"interface conversion: interface \x7b\x7d is {held}, not {kind.text}")

/-- The slots of an element at an index inside an array. -/
def loadElement (r : Ref) (kind : ElementKind) (i : Nat) : M (List Slot) := do
  let e := (← objectAt r).elements
  match e.bind fun e => e.load? kind i with
  | some slots => return slots
  | none => wrongElements kind e

/-- Sets an element at an index inside an array. -/
def storeElement (r : Ref) (kind : ElementKind) (i : Nat) (lo hi : Slot) : M Unit := do
  if ((← objectAt r).elements.map (Elements.holds kind)).getD false then
    updateObject r fun o => { o with elements := o.elements.bind fun e => e.store? kind i lo hi }
  else wrongElements kind (← objectAt r).elements

end M

namespace Execute

open M Throwing

/-- Tests a reference and an index. What is wrong with them is thrown. -/
def checkIndex (s : Context) (array : Option Ref) (i : Int32) : M (Option Ref) := do
  match array with
  | none =>
    s.throwNew Throwables.nullPointer ""
    return none
  | some r =>
    if i < 0 || (← arrayLength r) ≤ i then
      s.throwNew Throwables.arrayIndex (toString i.toInt)
      return none
    return some r

/-- Pops an index and an array, and goes on with them if they fit. -/
def withElement (s : Context) (next : Ref → Nat → M Unit) : M Unit := do
  let i ← popInt
  let array ← popRef
  match ← checkIndex s array i with
  | some r => next r i.toInt.toNat
  | none => return ()

/-- Pushes an element. -/
def arrayLoad (s : Context) (kind : ElementKind) : M Unit :=
  withElement s fun r i => do onStack (OperandStack.pushAll (← loadElement r kind i))

/-- Stores a reference whose class fits the array. -/
def storeRef (s : Context) (r : Ref) (i : Nat) (v : Slot) : M Unit := do
  match v.ref? with
  | none => storeElement r .ref i v .null
  | some value =>
    let component ← some! (← classOf r).component
    let o ← present value
    if ← assignable component o.owner then storeElement r .ref i v .null
    else s.throwNew Throwables.arrayStore (← classAt o.owner).javaName

/-- Pops a value and stores it in an element. A boolean keeps its lowest bit only. -/
def arrayStore (s : Context) (kind : ElementKind) : M Unit := do
  let hi ← if kind.isWide then pop else pure Slot.null
  let lo ← pop
  withElement s fun r i => do
    match kind with
    | .ref => storeRef s r i lo
    | .byte =>
      let narrow := if (← classOf r).name == "[Z" then .num (lo.int &&& 1) else lo
      storeElement r kind i narrow hi
    | _ => storeElement r kind i lo hi

end Execute

end JavaMachine
