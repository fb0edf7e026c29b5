import JavaMachine.Bytes.Cursor
import JavaMachine.ClassFile.Basic

/-! Writing class files: the bytes of each part, in the order in which they are read. -/

namespace JavaMachine

open BigEndian

/-- The bytes of a constant, its tag first. -/
def Constant.encode (c : Constant) : List UInt8 :=
  c.tag ::
    match c with
    | .utf8 raw => bytes16 (UInt16.ofNat raw.length) ++ raw
    | .int v => bytes32 v.toUInt32
    | .float b => bytes32 b
    | .long v => bytes64 v.toUInt64
    | .double b => bytes64 b
    | .class n => bytes16 n
    | .string t => bytes16 t
    | .member _ o nt => bytes16 o ++ bytes16 nt
    | .nameAndType n d => bytes16 n ++ bytes16 d
    | .methodHandle k r => k :: bytes16 r
    | .methodType d => bytes16 d
    | .invokeDynamic b nt => bytes16 b ++ bytes16 nt

/-- The bytes of a slot; an empty slot has none. -/
def Constant.encodeSlot : Option Constant → List UInt8
  | none => []
  | some c => c.encode

/-- The bytes of a pool. -/
def ConstantPool.encode (pool : ConstantPool) : List UInt8 :=
  bytes16 (UInt16.ofNat pool.size) ++ (pool.toList.drop 1).flatMap Constant.encodeSlot

/-- A count and the bytes of each row. -/
def countedBytes (rows : List α) (encode : α → List UInt8) : List UInt8 :=
  bytes16 (UInt16.ofNat rows.length) ++ rows.flatMap encode

def HandlerRow.encode (r : HandlerRow) : List UInt8 :=
  bytes16 r.start ++ bytes16 r.stop ++ bytes16 r.handler ++ bytes16 r.catchType

def LineRow.encode (r : LineRow) : List UInt8 := bytes16 r.start ++ bytes16 r.line

def LocalRow.encode (r : LocalRow) : List UInt8 :=
  bytes16 r.start ++ bytes16 r.length ++ bytes16 r.name ++ bytes16 r.descriptor ++ bytes16 r.index

def InnerRow.encode (r : InnerRow) : List UInt8 :=
  bytes16 r.inner ++ bytes16 r.outer ++ bytes16 r.name ++ bytes16 r.flags

def BootstrapRow.encode (r : BootstrapRow) : List UInt8 := bytes16 r.method ++ tableBytes r.arguments

/-- The header and the contents of an attribute. -/
def attributeBytes (nameIndex : UInt16) (content : List UInt8) : List UInt8 :=
  bytes16 nameIndex ++ bytes32 (UInt32.ofNat content.length) ++ content

mutual

/-- The bytes of an attribute's contents. -/
def AttributeBody.encode : AttributeBody → List UInt8
  | .code body => body.encode
  | .index _ v => bytes16 v
  | .exceptions is => tableBytes is
  | .lines rows => countedBytes rows LineRow.encode
  | .raw _ data => data
  | .marker => []
  | .locals rows => countedBytes rows LocalRow.encode
  | .enclosing c m => bytes16 c ++ bytes16 m
  | .inner rows => countedBytes rows InnerRow.encode
  | .bootstrap rows => countedBytes rows BootstrapRow.encode

/-- The bytes of a method body. -/
def CodeBody.encode : CodeBody → List UInt8
  | .mk stack locals code handlers attributes =>
    bytes16 stack ++ bytes16 locals ++ bytes32 (UInt32.ofNat code.length) ++ code ++
      countedBytes handlers HandlerRow.encode ++
      bytes16 (UInt16.ofNat attributes.length) ++ Attribute.encodeAll attributes

/-- The bytes of an attribute. -/
def Attribute.encode : Attribute → List UInt8
  | .mk i _ body => attributeBytes i body.encode

/-- The bytes of attributes one after the other. -/
def Attribute.encodeAll : List Attribute → List UInt8
  | [] => []
  | a :: rest => a.encode ++ Attribute.encodeAll rest

end

/-- A count and the attributes. -/
def Attribute.encodeTable (attributes : List Attribute) : List UInt8 :=
  bytes16 (UInt16.ofNat attributes.length) ++ Attribute.encodeAll attributes

/-- The bytes of a field or a method. -/
def MemberInfo.encode (m : MemberInfo) : List UInt8 :=
  bytes16 m.flags.bits ++ bytes16 m.nameIndex ++ bytes16 m.descriptorIndex ++
    Attribute.encodeTable m.attributes

/-- The bytes of a class file. -/
def ClassFile.encode (cf : ClassFile) : List UInt8 :=
  bytes32 ClassFile.magic ++ bytes16 cf.minor ++ bytes16 cf.major ++ cf.pool.encode ++
    bytes16 cf.flags.bits ++ bytes16 cf.thisClass ++ bytes16 cf.superClass ++
    tableBytes cf.interfaces ++ countedBytes cf.fields MemberInfo.encode ++
    countedBytes cf.methods MemberInfo.encode ++ Attribute.encodeTable cf.attributes

end JavaMachine
