import JavaMachine.ClassFile.Basic
import JavaMachine.ClassFile.Decoder

/-!
Reading class files. Only the structure is checked: magic, version, a well-formed pool, attribute
lengths, and the indexes of names.
-/

namespace JavaMachine

open Text

namespace Decoder

/-- Reads a constant. -/
def constant : Decoder Constant := do
  let tag ← u8
  match tag.toNat with
  | 1 => do
    let n ← u16
    let raw ← bytes n.toNat
    match ModifiedUtf8.decode raw with
    | .ok _ => return .utf8 raw
    | .error f => fail (.text f)
  | 3 => return .int (← u32).toInt32
  | 4 => return .float (← u32)
  | 5 => return .long (← u64).toInt64
  | 6 => return .double (← u64)
  | 7 => return .class (← u16)
  | 8 => return .string (← u16)
  | 9 => return .member .field (← u16) (← u16)
  | 10 => return .member .method (← u16) (← u16)
  | 11 => return .member .interfaceMethod (← u16) (← u16)
  | 12 => return .nameAndType (← u16) (← u16)
  | 15 => return .methodHandle (← u8) (← u16)
  | 16 => return .methodType (← u16)
  | 18 => return .invokeDynamic (← u16) (← u16)
  | _ => fail (.tag tag)

/-- Reads the slots of a pool from `index` on, `left` of them. -/
def poolSlots : (left index : Nat) → Decoder (List (Option Constant))
  | 0, _ => pure []
  | left + 1, index => do
    let c ← inside (.constant index) constant
    if c.isWide then
      match left with
      | 0 => fail (.wideAtEnd index)
      | left + 1 => return some c :: none :: (← poolSlots left (index + 2))
    else return some c :: (← poolSlots left (index + 1))

/-- Reads a constant pool. -/
def constantPool : Decoder ConstantPool := do
  let count ← u16
  if count = 0 then fail .noPool
  else
    let slots ← poolSlots (count.toNat - 1) 1
    return (none :: slots).toArray

/-- Reads a row of an exception table. -/
def handlerRow : Decoder HandlerRow := do return ⟨← u16, ← u16, ← u16, ← u16⟩

/-- Reads a row of a line number table. -/
def lineRow : Decoder LineRow := do return ⟨← u16, ← u16⟩

/-- Reads a row of a local variable table. -/
def localRow : Decoder LocalRow := do return ⟨← u16, ← u16, ← u16, ← u16, ← u16⟩

/-- Reads a row of an inner class table. -/
def innerRow : Decoder InnerRow := do return ⟨← u16, ← u16, ← u16, ← u16⟩

/-- Reads a bootstrap method. -/
def bootstrapRow : Decoder BootstrapRow := do return ⟨← u16, ← table⟩

/-- The front of a code attribute: limits, instructions and exception table. -/
structure CodeHead where
  maxStack : UInt16
  maxLocals : UInt16
  code : List UInt8
  handlers : List HandlerRow

/-- Reads the front of a code attribute; a code array has 1 to 65535 bytes. -/
def codeHead : Decoder CodeHead := do
  let maxStack ← inside .code u16
  let maxLocals ← inside .code u16
  let length ← inside .code u32
  if length = 0 ∨ 65536 ≤ length then fail (.codeLength length.toNat)
  else
    let code ← inside .code (bytes length.toNat)
    let handlers ← inside .code (counted handlerRow)
    return ⟨maxStack, maxLocals, code, handlers⟩

/-- Reads the contents of an attribute that holds no attributes, from exactly `length` bytes. -/
def plainBody (name : String) (length : Nat) : Decoder AttributeBody :=
  if name = "ConstantValue" then do return .index .constantValue (← u16)
  else if name = "Exceptions" then do return .exceptions (← table)
  else if name = "LineNumberTable" then do return .lines (← counted lineRow)
  else if name = "SourceFile" then do return .index .sourceFile (← u16)
  else if name = "StackMapTable" then do return .raw .stackMap (← bytes length)
  else if name = "Deprecated" ∨ name = "Synthetic" then return .marker
  else if name = "RuntimeVisibleAnnotations" then do return .raw .annotations (← bytes length)
  else if name = "LocalVariableTable" ∨ name = "LocalVariableTypeTable" then do
    return .locals (← counted localRow)
  else if name = "EnclosingMethod" then do return .enclosing (← u16) (← u16)
  else if name = "InnerClasses" then do return .inner (← counted innerRow)
  else if name = "BootstrapMethods" then do return .bootstrap (← counted bootstrapRow)
  else if name = "Signature" then do return .index .signature (← u16)
  else do return .raw .unknown (← bytes length)

/-- Reads the index, name and bytes of an attribute. -/
def attributeFrame (pool : ConstantPool) : Decoder (UInt16 × String × List UInt8) := do
  let index ← u16
  let length ← u32
  let name ← inside .attributeName (lookup (pool.utf8 index))
  fun i =>
    match split? length.toNat i.rest with
    | some (front, rest) => .ok ((index, name, front), ⟨rest, i.offset + length.toNat⟩)
    | none => .error (.attributeLength name length.toNat i.rest.length)

/-- Runs a decoder on bytes of their own, all of which it must use. -/
def within (name : String) (content : List UInt8) (d : Decoder α) : Decoder α := fun i =>
  match d ⟨content, 0⟩ with
  | .error f => .error f
  | .ok (x, j) =>
    if j.rest = [] then .ok (x, i) else .error (.bodyRest name j.rest.length)

/-- Reads an attribute that is no code. -/
def plainAttribute (index : UInt16) (name : String) (content : List UInt8) : Decoder Attribute := do
  let body ← within name content (mapFault (.body name) (plainBody name content.length))
  return .mk index name body

/-- Reads an attribute; code attributes nest less than `depth` deep. -/
def anyAttribute (pool : ConstantPool) : (depth : Nat) → Decoder Attribute
  | 0 => do
    let (index, name, content) ← attributeFrame pool
    if name = "Code" then fail (.rest content.length) else plainAttribute index name content
  | depth + 1 => do
    let (index, name, content) ← attributeFrame pool
    if name = "Code" then
      let body ← within name content do
        let head ← codeHead
        let nested ← inside .code (counted (anyAttribute pool depth))
        return CodeBody.mk head.maxStack head.maxLocals head.code head.handlers nested
      return .mk index name (.code body)
    else plainAttribute index name content

/-- Reads a count and that many attributes. -/
def attributes (pool : ConstantPool) (depth : Nat) : Decoder (List Attribute) :=
  counted (anyAttribute pool depth)

/-- Reads the names of a member. -/
def memberNames (pool : ConstantPool) : Decoder (Flags × UInt16 × UInt16 × String × String) := do
  let flags ← u16
  let name ← u16
  let descriptor ← u16
  let nameText ← lookup (pool.utf8 name)
  let descriptorText ← lookup (pool.utf8 descriptor)
  return (⟨flags⟩, name, descriptor, nameText, descriptorText)

/-- Reads a member; its place is told while its names are not yet known. -/
def member (pool : ConstantPool) (depth : Nat) (place : Nat → Part) (named : String → String → Part)
    (i : Nat) : Decoder MemberInfo := do
  let (flags, name, descriptor, nameText, descriptorText) ← inside (place i) (memberNames pool)
  let attributes ← inside (named nameText descriptorText) (attributes pool depth)
  return ⟨flags, name, descriptor, nameText, descriptorText, attributes⟩

/-- Reads a count of members and the members; a missing count is found only at the class attributes. -/
def members (pool : ConstantPool) (depth : Nat) (place : Nat → Part)
    (named : String → String → Part) : Decoder (List MemberInfo) := do
  let count ← inside .classAttributes u16
  indexed (member pool depth place named) 0 count.toNat

/-- Reads magic and version. -/
def version : Decoder (UInt16 × UInt16) := do
  let word ← u32
  if word ≠ ClassFile.magic then fail (.magic word)
  else
    let minor ← u16
    let major ← u16
    if ClassFile.supportedVersion major minor then return (minor, major)
    else fail (.version major minor)

/-- Reads a class file, with code attributes at most `depth` deep. -/
def classFile (depth : Nat) : Decoder ClassFile := do
  let (minor, major) ← version
  let pool ← constantPool
  let flags ← u16
  let thisClass ← u16
  let superClass ← u16
  let interfaces ← table
  let _ ← inside .thisClass (lookup (pool.className thisClass))
  if superClass ≠ 0 then
    let _ ← inside .superClass (lookup (pool.className superClass))
  let _ ← inside .interfaces (lookup (interfaces.mapM pool.className))
  let fields ← members pool depth .fieldAt (fun n _ => .field n)
  let methods ← members pool depth .methodAt .method
  let attributes ← inside .classAttributes (attributes pool depth)
  let left ← remaining
  if left = 0 then
    return ⟨minor, major, pool, ⟨flags⟩, thisClass, superClass, interfaces, fields, methods, attributes⟩
  else fail (.rest left)

end Decoder

/-- Reads a class file. Every nested code attribute is shorter than the one around it, so the number of
bytes bounds the nesting. -/
def ClassFile.parse (bytes : List UInt8) : Except FormatFault ClassFile := do
  let (cf, _) ← (Decoder.classFile bytes.length).run ⟨bytes, 0⟩
  return cf

end JavaMachine
