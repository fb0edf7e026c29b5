import JavaMachine.ClassFile.Attribute
import JavaMachine.ClassFile.Flags
import JavaMachine.Code.Opcode
import JavaMachine.Descriptor

/-!
Fields and methods of loaded classes. A native method has a body of two instructions: the one that calls
the implementation, and the return of its type.
-/

namespace JavaMachine

/-- The place of a class in the machine's table of classes. -/
structure ClassId where
  index : Nat
deriving DecidableEq, Repr, Inhabited, Hashable

/-- A declared field. An instance field has a place in objects, a static one in its class. -/
structure Field where
  owner : ClassId
  flags : Flags
  name : String
  desc : String
  slot : Nat := 0
  constant : UInt16 := 0
deriving DecidableEq, Repr, Inhabited

namespace Field

def isStatic (f : Field) : Bool := f.flags.isStatic

/-- How many slots the field takes. -/
def width (f : Field) : Nat := Descriptor.slotWidth f.desc

/-- Whether the field takes two slots: its type is that of longs or of doubles. -/
def isWide (f : Field) : Bool :=
  match f.desc.toList with
  | c :: _ => c == 'J' || c == 'D'
  | [] => false

end Field

/-- A row of an exception table. Catch type zero catches everything. -/
structure Handler where
  start : Nat
  stop : Nat
  entry : Nat
  catchType : UInt16
deriving DecidableEq, Repr, Inhabited

/-- Whether a row covers an instruction. -/
def Handler.covers (h : Handler) (pc : Int) : Bool := h.start ≤ pc && pc < h.stop

/-- A declared method. -/
structure Method where
  owner : ClassId
  flags : Flags
  name : String
  desc : String
  maxStack : Nat := 0
  maxLocals : Nat := 0
  code : Array UInt8 := #[]
  handlers : List Handler := []
  lines : List LineRow := []
  argSlots : Nat := 0
  params : List String := []
  result : String := "V"
  exceptions : List String := []
  annotations : List UInt8 := []
deriving DecidableEq, Repr, Inhabited

namespace Method

def isStatic (m : Method) : Bool := m.flags.isStatic
def isNative (m : Method) : Bool := m.flags.isNative
def isAbstract (m : Method) : Bool := m.flags.isAbstract
def isPrivate (m : Method) : Bool := m.flags.isPrivate
def isPublic (m : Method) : Bool := m.flags.isPublic

/-- The name of class initializers. -/
def clinitName : String := "<clinit>"

/-- The name of constructors. -/
def initName : String := "<init>"

def isClinit (m : Method) : Bool := m.name == clinitName
def isInit (m : Method) : Bool := m.name == initName

/-- The source line of an instruction: that of the entry with the greatest start not above it. Native
methods have line -2, and where no entry fits the line is -1. -/
def line (m : Method) (pc : Int) : Int :=
  if m.isNative then -2
  else
    (m.lines.foldl (fun (best : Int × Int) r =>
      let start : Int := r.start.toNat
      if start ≤ pc ∧ best.1 < start then (start, (r.line.toNat : Int)) else best) (-1, -1)).2

/-- The initializer of a class that declares none. -/
def emptyClinit (owner : ClassId) : Method where
  owner := owner
  flags := ⟨Flags.staticMask ||| Flags.syntheticMask⟩
  name := clinitName
  desc := "()V"
  code := #[Opcode.vreturn.toByte]

end Method

end JavaMachine
