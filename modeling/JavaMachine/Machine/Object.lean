import JavaMachine.Machine.Class

/-!
Objects of the heap: instances with their fields, and arrays with elements of one kind. Booleans and bytes
are both kept as signed bytes, floats and doubles as bit patterns.
-/

namespace JavaMachine

/-- The elements of an array. -/
inductive Elements where
  | bytes (a : Array Int8)
  | chars (a : Array UInt16)
  | shorts (a : Array Int16)
  | ints (a : Array Int32)
  | longs (a : Array Int64)
  | floats (a : Array UInt32)
  | doubles (a : Array UInt64)
  | refs (a : Array (Option Ref))
deriving DecidableEq, Repr

namespace Elements

/-- The number of elements. -/
def length : Elements → Nat
  | .bytes a => a.size
  | .chars a => a.size
  | .shorts a => a.size
  | .ints a => a.size
  | .longs a => a.size
  | .floats a => a.size
  | .doubles a => a.size
  | .refs a => a.size

/-- Elements of the kind that a letter of an array's name stands for, all zero or null. -/
def ofLetter (letter : Char) (n : Nat) : Elements :=
  match letter with
  | 'Z' => .bytes (Array.replicate n 0)
  | 'B' => .bytes (Array.replicate n 0)
  | 'C' => .chars (Array.replicate n 0)
  | 'S' => .shorts (Array.replicate n 0)
  | 'I' => .ints (Array.replicate n 0)
  | 'J' => .longs (Array.replicate n 0)
  | 'F' => .floats (Array.replicate n 0)
  | 'D' => .doubles (Array.replicate n 0)
  | _ => .refs (Array.replicate n none)

/-- Elements for a class name: its second letter tells the kind. A name of one letter has none. -/
def ofClassName? (name : String) (n : Nat) : Option Elements :=
  match name.toList with
  | [] => none
  | [c] => if c.toNat < 0x80 then none else some (ofLetter 'L' n)
  | c :: d :: _ => some (ofLetter (if c.toNat < 0x80 then d else 'L') n)

end Elements

/-- A frame as a stack trace shows it. -/
structure TraceElement where
  owner : String
  method : String
  file : String
  line : Int
deriving DecidableEq, Repr, Inhabited

/-- The text of a frame in a stack trace. -/
def TraceElement.text (e : TraceElement) : String :=
  let place :=
    if e.line = -2 then "(Native Method)"
    else if e.file ≠ "" ∧ 0 ≤ e.line then s!"({e.file}:{e.line})"
    else if e.file ≠ "" then s!"({e.file})"
    else "(Unknown Source)"
  s!"{e.owner}.{e.method}{place}"

/-- An open file with its position. -/
structure FileHandle where
  node : Nat
  path : String
  position : Nat := 0
  readable : Bool
  writable : Bool
  appending : Bool := false
deriving DecidableEq, Repr, Inhabited

/-- What the machine itself keeps with an object. -/
inductive Attachment where
  | class (id : ClassId)
  | thread (id : Nat)
  | trace (elements : List TraceElement)
  | file (handle : FileHandle)
  | loader (id : Nat)
deriving DecidableEq, Repr

/-- An object. Hash zero means that none was asked for yet. -/
structure Object where
  owner : ClassId
  fields : Slots := #[]
  elements : Option Elements := none
  attached : Option Attachment := none
  hash : Int32 := 0
deriving Repr, Inhabited

namespace Object

def isArray (o : Object) : Bool := o.elements.isSome

/-- A copy of fields and elements without identity. -/
def clone (o : Object) : Object := { owner := o.owner, fields := o.fields, elements := o.elements }

/-- The class that a mirror stands for. -/
def mirrored? (o : Object) : Option ClassId :=
  match o.attached with
  | some (.class c) => some c
  | _ => none

/-- The stack trace kept with a throwable. -/
def trace (o : Object) : List TraceElement :=
  match o.attached with
  | some (.trace t) => t
  | _ => []

end Object

end JavaMachine
