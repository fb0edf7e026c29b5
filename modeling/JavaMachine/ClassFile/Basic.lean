import JavaMachine.ClassFile.Attribute
import JavaMachine.ClassFile.Constant

/-! Class files as data: versions, pool, members and attributes, and what can be looked up in them. -/

namespace JavaMachine

/-- A field or a method of a class file. -/
structure MemberInfo where
  flags : Flags
  nameIndex : UInt16
  descriptorIndex : UInt16
  name : String
  descriptor : String
  attributes : List Attribute

/-- A class file, independent of any loader. -/
structure ClassFile where
  minor : UInt16
  major : UInt16
  pool : ConstantPool
  flags : Flags
  thisClass : UInt16
  superClass : UInt16
  interfaces : List UInt16
  fields : List MemberInfo
  methods : List MemberInfo
  attributes : List Attribute

namespace MemberInfo

/-- The pool index of a field's constant value, 0 if it has none. -/
def constantValue (m : MemberInfo) : UInt16 :=
  match (Attribute.find? m.attributes "ConstantValue").map Attribute.body with
  | some (.index .constantValue i) => i
  | _ => 0

/-- A method's body; abstract and native methods have none. -/
def code? (m : MemberInfo) : Option CodeBody := Attribute.code? m.attributes

/-- The pool indexes of the declared exceptions. -/
def exceptions (m : MemberInfo) : List UInt16 :=
  match (Attribute.find? m.attributes "Exceptions").map Attribute.body with
  | some (.exceptions is) => is
  | _ => []

/-- The bytes of the annotations. -/
def annotations (m : MemberInfo) : List UInt8 := Attribute.annotations m.attributes

end MemberInfo

namespace ClassFile

/-- The first four bytes of every class file. -/
def magic : UInt32 := 0xCAFEBABE

/-- The highest major version that is read. -/
def maxMajor : UInt16 := 52

/-- Any 45.x, and 46 to 52 with minor 0. -/
def supportedVersion (major minor : UInt16) : Bool :=
  major == 45 || (46 ≤ major && major ≤ maxMajor && minor == 0)

/-- The class name at a pool index, empty if there is none. -/
def classNameAt (cf : ClassFile) (index : UInt16) : String :=
  (cf.pool.className index).toOption.getD ""

/-- The name of the class. -/
def className (cf : ClassFile) : String := cf.classNameAt cf.thisClass

/-- The name of the superclass, empty if there is none. -/
def superName (cf : ClassFile) : String :=
  if cf.superClass = 0 then "" else cf.classNameAt cf.superClass

/-- The names of the direct superinterfaces. -/
def interfaceNames (cf : ClassFile) : List String := cf.interfaces.map cf.classNameAt

/-- The first source file attribute's text, empty if there is none. -/
def sourceFile (cf : ClassFile) : String :=
  let found := cf.attributes.findSome? fun a =>
    match a.body with
    | .index .sourceFile i => some i
    | _ => none
  match found with
  | some i => (cf.pool.utf8 i).toOption.getD ""
  | none => ""

/-- The bytes of the class annotations. -/
def annotations (cf : ClassFile) : List UInt8 := Attribute.annotations cf.attributes

end ClassFile

end JavaMachine
