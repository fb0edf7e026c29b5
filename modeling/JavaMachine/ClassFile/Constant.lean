import JavaMachine.Text.ModifiedUtf8

/-!
Constants of a class file and the one-indexed pool that holds them. Slot 0 and the slot after every long
and double are empty. A text constant keeps its encoded bytes, so that writing gives them back even where
they are no canonical encoding; floats are bit patterns.
-/

namespace JavaMachine

open Text

/-- The three kinds of references to members. -/
inductive MemberKind where
  | field
  | method
  | interfaceMethod
deriving DecidableEq, Repr, Inhabited

/-- An entry of the constant pool. -/
inductive Constant where
  | utf8 (raw : List UInt8)
  | int (value : Int32)
  | float (bits : UInt32)
  | long (value : Int64)
  | double (bits : UInt64)
  | class (name : UInt16)
  | string (text : UInt16)
  | member (kind : MemberKind) (owner nameAndType : UInt16)
  | nameAndType (name descriptor : UInt16)
  | methodHandle (kind : UInt8) (reference : UInt16)
  | methodType (descriptor : UInt16)
  | invokeDynamic (bootstrap nameAndType : UInt16)
deriving DecidableEq, Repr, Inhabited

/-- The tag byte of a kind of member reference. -/
def MemberKind.tag : MemberKind → UInt8
  | .field => 9
  | .method => 10
  | .interfaceMethod => 11

namespace Constant

/-- The tag byte that starts an entry. -/
def tag : Constant → UInt8
  | .utf8 _ => 1
  | .int _ => 3
  | .float _ => 4
  | .long _ => 5
  | .double _ => 6
  | .class _ => 7
  | .string _ => 8
  | .member kind _ _ => kind.tag
  | .nameAndType _ _ => 12
  | .methodHandle _ _ => 15
  | .methodType _ => 16
  | .invokeDynamic _ _ => 18

/-- Longs and doubles take two slots. -/
def isWide : Constant → Bool
  | .long _ => true
  | .double _ => true
  | _ => false

/-- The text of a string constant's bytes; bytes that do not decode are no text. -/
def text (raw : List UInt8) : String := (ModifiedUtf8.decodeString raw).toOption.getD ""

end Constant

/-- What an index was expected to name. -/
inductive Expected where
  | utf8
  | className
  | nameAndType
  | member
deriving DecidableEq, Repr

/-- How an expectation is spelled. -/
def Expected.label : Expected → String
  | .utf8 => "Utf8"
  | .className => "Class"
  | .nameAndType => "NameAndType"
  | .member => "member ref"

/-- Why an index names nothing usable. -/
inductive IndexFault where
  | missing (index : UInt16)
  | wrongTag (index : UInt16) (tag : UInt8) (expected : Expected)
deriving DecidableEq, Repr

/-- The pool, slot by slot. -/
abbrev ConstantPool := Array (Option Constant)

namespace ConstantPool

/-- The entry at an index. -/
def entry (pool : ConstantPool) (index : UInt16) : Except IndexFault Constant :=
  if index = 0 then .error (.missing index)
  else
    match pool[index.toNat]? with
    | some (some c) => .ok c
    | _ => .error (.missing index)

/-- The bytes of a text entry. -/
def utf8Raw (pool : ConstantPool) (index : UInt16) : Except IndexFault (List UInt8) := do
  match ← entry pool index with
  | .utf8 raw => return raw
  | c => .error (.wrongTag index c.tag .utf8)

/-- The text of a text entry. -/
def utf8 (pool : ConstantPool) (index : UInt16) : Except IndexFault String :=
  Constant.text <$> utf8Raw pool index

/-- The name that a class entry points at. -/
def className (pool : ConstantPool) (index : UInt16) : Except IndexFault String := do
  match ← entry pool index with
  | .class name => utf8 pool name
  | c => .error (.wrongTag index c.tag .className)

/-- Name and descriptor of a name-and-type entry. -/
def nameAndType (pool : ConstantPool) (index : UInt16) : Except IndexFault (String × String) := do
  match ← entry pool index with
  | .nameAndType name descriptor => return (← utf8 pool name, ← utf8 pool descriptor)
  | c => .error (.wrongTag index c.tag .nameAndType)

/-- Owner, name and descriptor of a member reference. -/
def memberRef (pool : ConstantPool) (index : UInt16) :
    Except IndexFault (String × String × String) := do
  match ← entry pool index with
  | .member _ owner nt => return (← className pool owner, ← nameAndType pool nt)
  | c => .error (.wrongTag index c.tag .member)

end ConstantPool

end JavaMachine
