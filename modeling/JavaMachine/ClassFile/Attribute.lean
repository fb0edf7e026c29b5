import JavaMachine.ClassFile.Flags

/-!
Attributes of classes, fields, methods and code. Each keeps the pool index of its name; what a name does
not fix is kept as bytes.
-/

namespace JavaMachine

/-- A row of an exception table; catch type 0 catches everything. -/
structure HandlerRow where
  start : UInt16
  stop : UInt16
  handler : UInt16
  catchType : UInt16
deriving DecidableEq, Repr, Inhabited

/-- A row of a line number table. -/
structure LineRow where
  start : UInt16
  line : UInt16
deriving DecidableEq, Repr, Inhabited

/-- A row of a local variable table, or of one with signatures in place of descriptors. -/
structure LocalRow where
  start : UInt16
  length : UInt16
  name : UInt16
  descriptor : UInt16
  index : UInt16
deriving DecidableEq, Repr, Inhabited

/-- A row of an inner class table. -/
structure InnerRow where
  inner : UInt16
  outer : UInt16
  name : UInt16
  flags : UInt16
deriving DecidableEq, Repr, Inhabited

/-- A bootstrap method with its static arguments. -/
structure BootstrapRow where
  method : UInt16
  arguments : List UInt16
deriving DecidableEq, Repr, Inhabited

/-- The attributes that hold uninterpreted bytes. -/
inductive RawKind where
  | stackMap
  | annotations
  | unknown
deriving DecidableEq, Repr

/-- The attributes that hold one pool index. -/
inductive IndexKind where
  | constantValue
  | sourceFile
  | signature
deriving DecidableEq, Repr

mutual

/-- The contents of an attribute, by its name. -/
inductive AttributeBody where
  | code (body : CodeBody)
  | index (kind : IndexKind) (value : UInt16)
  | exceptions (classes : List UInt16)
  | lines (rows : List LineRow)
  | raw (kind : RawKind) (data : List UInt8)
  | marker
  | locals (rows : List LocalRow)
  | enclosing (owner method : UInt16)
  | inner (rows : List InnerRow)
  | bootstrap (rows : List BootstrapRow)

/-- A method body. -/
inductive CodeBody where
  | mk (maxStack maxLocals : UInt16) (code : List UInt8) (handlers : List HandlerRow)
      (attributes : List Attribute)

/-- An attribute with its name and the pool index of it. -/
inductive Attribute where
  | mk (nameIndex : UInt16) (name : String) (body : AttributeBody)

end

namespace Attribute

/-- The pool index of the name. -/
def nameIndex : Attribute → UInt16
  | .mk i _ _ => i

/-- The name. -/
def name : Attribute → String
  | .mk _ n _ => n

/-- The contents. -/
def body : Attribute → AttributeBody
  | .mk _ _ b => b

/-- The first attribute of a name. -/
def find? (attributes : List Attribute) (name : String) : Option Attribute :=
  attributes.find? fun a => a.name == name

end Attribute

namespace CodeBody

/-- The capacity of the operand stack. -/
def maxStack : CodeBody → UInt16
  | .mk s _ _ _ _ => s

/-- The number of local variables. -/
def maxLocals : CodeBody → UInt16
  | .mk _ l _ _ _ => l

/-- The instructions. -/
def code : CodeBody → List UInt8
  | .mk _ _ c _ _ => c

/-- The exception table. -/
def handlers : CodeBody → List HandlerRow
  | .mk _ _ _ h _ => h

/-- The attributes of the body. -/
def attributes : CodeBody → List Attribute
  | .mk _ _ _ _ a => a

/-- The rows of all line number tables, in order. -/
def lineRows (c : CodeBody) : List LineRow :=
  c.attributes.flatMap fun a =>
    match a.body with
    | .lines rows => rows
    | _ => []

end CodeBody

/-- The body of the first code attribute. -/
def Attribute.code? (attributes : List Attribute) : Option CodeBody := do
  match (← find? attributes "Code").body with
  | .code body => some body
  | _ => none

/-- The bytes of the first annotations attribute. -/
def Attribute.annotations (attributes : List Attribute) : List UInt8 :=
  match (find? attributes "RuntimeVisibleAnnotations").map Attribute.body with
  | some (.raw .annotations data) => data
  | _ => []

end JavaMachine
