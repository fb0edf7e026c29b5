import JavaMachine.ClassFile.Constant
import JavaMachine.Machine.Member
import JavaMachine.Machine.Slot

/-!
Loaded classes with their run-time constant pools. An entry of a pool remembers what it was resolved to.
-/

namespace JavaMachine

/-- How far a class has come. Only the thread that initializes a class may use it meanwhile. -/
inductive ClassState where
  | unlinked
  | linked
  | initializing (thread : Nat)
  | initialized
  | erroneous
deriving DecidableEq, Repr, Inhabited

/-- The name of a state. -/
def ClassState.text : ClassState → String
  | .unlinked => "unlinked"
  | .linked => "linked"
  | .initializing _ => "initializing"
  | .initialized => "initialized"
  | .erroneous => "erroneous"

/-- An entry of a run-time constant pool. -/
inductive PoolEntry where
  | empty
  | int (v : Int32)
  | float (bits : UInt32)
  | long (v : Int64)
  | double (bits : UInt64)
  | string (units : List UInt16) (object : Option Ref)
  | class (name : String) (resolved : Option ClassId)
  | field (owner name desc : String) (ownerClass : Option ClassId) (resolved : Option Field)
  | method (owner name desc : String) (onInterface : Bool) (ownerClass : Option ClassId)
      (resolved : Option Method)
  | unsupported (tag : UInt8)
deriving DecidableEq, Repr, Inhabited

/-- How messages name the kind of an entry. -/
def PoolEntry.kind : PoolEntry → String
  | .empty => "<nil>"
  | .int _ => "int32"
  | .float _ => "float32"
  | .long _ => "int64"
  | .double _ => "float64"
  | .string .. => "*vm.StringRef"
  | .class .. => "*vm.ClassRef"
  | .field .. => "*vm.FieldRef"
  | .method .. => "*vm.MethodRef"
  | .unsupported _ => "*vm.UnsupportedRef"

/-- A loaded class. Its loader is the one that defined it; loader 0 is the bootstrap loader. -/
structure Class where
  name : String
  flags : Flags
  loader : Nat := 0
  superName : String := ""
  interfaceNames : List String := []
  fields : List Field := []
  methods : List Method := []
  pool : Array PoolEntry := #[]
  sourceFile : String := ""
  annotations : List UInt8 := []
  super : Option ClassId := none
  interfaces : List ClassId := []
  instanceSlots : Nat := 0
  statics : Slots := #[]
  state : ClassState := .unlinked
  component : Option ClassId := none
  primitive : Option Char := none
  mirror : Option Ref := none
deriving Repr, Inhabited

namespace Class

/-- The name with dots. -/
def javaName (c : Class) : String := Descriptor.dotted c.name

def isArray (c : Class) : Bool := c.name.startsWith "["
def isPrimitive (c : Class) : Bool := c.primitive.isSome
def isInterface (c : Class) : Bool := c.flags.isInterface
def isAbstract (c : Class) : Bool := c.flags.isAbstract
def isPublic (c : Class) : Bool := c.flags.isPublic
def isFinal (c : Class) : Bool := c.flags.isFinal

/-- The package of the class. -/
def package (c : Class) : String := Descriptor.packageOf c.name

/-- The field descriptor that names the class. -/
def descriptor (c : Class) : String :=
  match c.primitive with
  | some letter => String.singleton letter
  | none => Descriptor.ofClassName c.name

/-- A method that the class declares. -/
def findMethod (c : Class) (name desc : String) : Option Method :=
  c.methods.find? fun m => m.name == name && m.desc == desc

/-- A field that the class declares. -/
def findField (c : Class) (name desc : String) : Option Field :=
  c.fields.find? fun f => f.name == name && f.desc == desc

end Class

end JavaMachine
