import JavaMachine.Bytes.Cursor
import JavaMachine.ClassFile.Constant
import JavaMachine.Text.Hex

/-!
Why bytes are no class file. A fault is a cause inside the parts that were being read; its kind is the
cause's, and its text names the parts from the outermost in.
-/

namespace JavaMachine

open Text

/-- The broad reasons to refuse a class file. -/
inductive FormatKind where
  | truncated
  | badMagic
  | unsupportedVersion
  | badConstant
  | badAttribute
  | badIndex
deriving DecidableEq, Repr

/-- The part of a class file that was being read. -/
inductive Part where
  | constant (index : Nat)
  | thisClass
  | superClass
  | interfaces
  | fieldAt (index : Nat)
  | field (name : String)
  | methodAt (index : Nat)
  | method (name descriptor : String)
  | classAttributes
  | attributeName
  | code
deriving DecidableEq, Repr

/-- Why bytes are no class file. -/
inductive FormatFault where
  | short (s : Shortage)
  | attributeLength (name : String) (length left : Nat)
  | magic (word : UInt32)
  | version (major minor : UInt16)
  | noPool
  | tag (tag : UInt8)
  | text (fault : ModifiedUtf8.Fault)
  | wideAtEnd (index : Nat)
  | codeLength (length : Nat)
  | body (name : String) (fault : FormatFault)
  | bodyRest (name : String) (left : Nat)
  | rest (left : Nat)
  | index (fault : IndexFault)
  | inside (part : Part) (fault : FormatFault)
deriving DecidableEq, Repr

/-- How a kind is spelled at the start of a text. -/
def FormatKind.title : FormatKind → String
  | .truncated => "truncated class file"
  | .badMagic => "incompatible magic value"
  | .unsupportedVersion => "unsupported major.minor version"
  | .badConstant => "malformed constant pool entry"
  | .badAttribute => "malformed attribute"
  | .badIndex => "invalid constant pool index"

/-- How a part is named in front of a cause. -/
def Part.label : Part → String
  | .constant i => s!"constant #{i}"
  | .thisClass => "this_class"
  | .superClass => "super_class"
  | .interfaces => "interfaces"
  | .fieldAt i => s!"field #{i}"
  | .field n => s!"field {n}"
  | .methodAt i => s!"method #{i}"
  | .method n d => s!"method {n}{d}"
  | .classAttributes => "class attributes"
  | .attributeName => "attribute name"
  | .code => "Code"

/-- The text of a shortage. -/
def Shortage.message (s : Shortage) : String :=
  s!"{FormatKind.truncated.title}: need {s.wanted.toInt} bytes at offset {s.offset.toInt}, have {s.left.toInt}"

/-- The text of an encoding fault. -/
def Text.ModifiedUtf8.Fault.message (f : ModifiedUtf8.Fault) : String :=
  FormatKind.badConstant.title ++ ": " ++
    match f with
    | .nul o => s!"NUL byte in modified UTF-8 at {o}"
    | .shortPair o => s!"bad 2-byte sequence at {o}"
    | .shortTriple o => s!"bad 3-byte sequence at {o}"
    | .invalid b o => "invalid byte 0x" ++ Hex.upper 2 b.toNat ++ s!" in modified UTF-8 at {o}"

/-- The text of an index fault. -/
def IndexFault.message (f : IndexFault) : String :=
  FormatKind.badIndex.title ++ ": " ++
    match f with
    | .missing i => toString i.toNat
    | .wrongTag i t e => s!"index {i.toNat} is tag {t.toNat}, want {e.label}"

namespace FormatFault

/-- The kind of a fault. -/
def kind : FormatFault → FormatKind
  | .short _ => .truncated
  | .attributeLength _ _ _ => .truncated
  | .magic _ => .badMagic
  | .version _ _ => .unsupportedVersion
  | .noPool => .badConstant
  | .tag _ => .badConstant
  | .text _ => .badConstant
  | .wideAtEnd _ => .badConstant
  | .codeLength _ => .badAttribute
  | .body _ _ => .badAttribute
  | .bodyRest _ _ => .badAttribute
  | .rest _ => .badAttribute
  | .index _ => .badIndex
  | .inside _ f => f.kind

/-- The text of a fault. -/
def message : FormatFault → String
  | .short s => s.message
  | .attributeLength n l r =>
    s!"{FormatKind.truncated.title}: attribute {n} length {l} exceeds remaining {r}"
  | .magic w => FormatKind.badMagic.title ++ ": 0x" ++ Hex.upper 8 w.toNat
  | .version major minor =>
    s!"{FormatKind.unsupportedVersion.title}: {major.toNat}.{minor.toNat}"
  | .noPool => FormatKind.badConstant.title ++ ": constant_pool_count is 0"
  | .tag t => s!"{FormatKind.badConstant.title}: unknown tag {t.toNat}"
  | .text f => f.message
  | .wideAtEnd i => s!"{FormatKind.badConstant.title}: wide constant #{i} overruns pool"
  | .codeLength n => s!"{FormatKind.badAttribute.title}: code length {n}"
  | .body n f => s!"{FormatKind.badAttribute.title}: {n}: {f.message}"
  | .bodyRest n k => s!"{FormatKind.badAttribute.title}: {n} has {k} trailing bytes"
  | .rest k => s!"{FormatKind.badAttribute.title}: {k} trailing bytes"
  | .index f => f.message
  | .inside p f => s!"{p.label}: {f.message}"

end FormatFault

end JavaMachine
