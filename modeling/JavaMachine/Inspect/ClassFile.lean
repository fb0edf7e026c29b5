import JavaMachine.ClassFile.Basic
import JavaMachine.Code.Cursor
import JavaMachine.Code.Disassembly
import JavaMachine.Descriptor
import JavaMachine.Inspect.Report

/-! Reports on class files and their parts. -/

namespace JavaMachine

/-- How a kind of member reference is called in a report. -/
def MemberKind.report : MemberKind → String
  | .field => "field"
  | .method => "method"
  | .interfaceMethod => "imethod"

/-- A constant by kind and contents; `raw` shows the bytes of a text. -/
def Constant.report (raw : Bool) : Constant → Report
  | .utf8 bytes => .list [.text "utf8", .text (Constant.text bytes), .hex (if raw then bytes else [])]
  | .int v => .list [.text "int", .int v.toInt]
  | .float b => .list [.text "float", .single b]
  | .long v => .list [.text "long", .wide v.toInt]
  | .double b => .list [.text "double", .double b]
  | .class n => .list [.text "class", .word16 n]
  | .string t => .list [.text "string", .word16 t]
  | .member k o nt => .list [.text k.report, .word16 o, .word16 nt]
  | .nameAndType n d => .list [.text "nt", .word16 n, .word16 d]
  | .methodHandle k r => .list [.text "mhandle", .int k.toNat, .word16 r]
  | .methodType d => .list [.text "mtype", .word16 d]
  | .invokeDynamic b nt => .list [.text "indy", .word16 b, .word16 nt]

/-- The slots of a pool. -/
def ConstantPool.report (pool : ConstantPool) (raw : Bool) : Report :=
  .list (pool.toList.map (Report.ofOption (Constant.report raw)))

/-- A row of words. -/
def Report.words (ws : List UInt16) : Report := .list (ws.map .word16)

def HandlerRow.report (r : HandlerRow) : Report := .words [r.start, r.stop, r.handler, r.catchType]

def LineRow.report (r : LineRow) : Report := .words [r.start, r.line]

def LocalRow.report (r : LocalRow) : Report :=
  .words [r.start, r.length, r.name, r.descriptor, r.index]

def InnerRow.report (r : InnerRow) : Report := .words [r.inner, r.outer, r.name, r.flags]

def BootstrapRow.report (r : BootstrapRow) : Report :=
  .list [.word16 r.method, .words r.arguments]

def RawKind.report : RawKind → String
  | .stackMap => "stackmap"
  | .annotations => "annotations"
  | .unknown => "unknown"

def IndexKind.report : IndexKind → String
  | .constantValue => "constantvalue"
  | .sourceFile => "sourcefile"
  | .signature => "signature"

mutual

/-- The fields that an attribute's contents add to its report. -/
def AttributeBody.report : AttributeBody → List (String × Report)
  | .code body => body.report
  | .index k v => [("kind", .text k.report), ("value", .word16 v)]
  | .exceptions is => [("kind", .text "exceptions"), ("list", .words is)]
  | .lines rows => [("kind", .text "lines"), ("list", .list (rows.map LineRow.report))]
  | .raw k data => [("kind", .text k.report), ("data", .hex data)]
  | .marker => [("kind", .text "marker")]
  | .locals rows => [("kind", .text "localvars"), ("list", .list (rows.map LocalRow.report))]
  | .enclosing c m => [("kind", .text "enclosing"), ("class", .word16 c), ("method", .word16 m)]
  | .inner rows => [("kind", .text "inner"), ("list", .list (rows.map InnerRow.report))]
  | .bootstrap rows => [("kind", .text "bootstrap"), ("list", .list (rows.map BootstrapRow.report))]

/-- The fields of a method body. -/
def CodeBody.report : CodeBody → List (String × Report)
  | .mk stack locals code handlers attributes =>
    [("kind", .text "code"), ("stack", .word16 stack), ("locals", .word16 locals), ("code", .hex code),
     ("handlers", .list (handlers.map HandlerRow.report)),
     ("attributes", .list (Attribute.reportAll attributes)),
     ("lines", .list ((CodeBody.lineRows (.mk stack locals code handlers attributes)).map LineRow.report))]

/-- An attribute with its name. -/
def Attribute.report : Attribute → Report
  | .mk i n body => .record (("name", .text n) :: ("index", .word16 i) :: body.report)

/-- Attributes in order. -/
def Attribute.reportAll : List Attribute → List Report
  | [] => []
  | a :: rest => a.report :: Attribute.reportAll rest

end

/-- What fields and methods have in common. -/
def MemberInfo.reportBase (m : MemberInfo) : List (String × Report) :=
  [("flags", .word16 m.flags.bits), ("name", .text m.name), ("desc", .text m.descriptor),
   ("ni", .word16 m.nameIndex), ("di", .word16 m.descriptorIndex),
   ("attributes", .list (Attribute.reportAll m.attributes))]

/-- A field. -/
def MemberInfo.fieldReport (m : MemberInfo) : Report :=
  .record (m.reportBase ++ [("const", .word16 m.constantValue)])

/-- A method. -/
def MemberInfo.methodReport (m : MemberInfo) : Report :=
  .record (m.reportBase ++ [("hascode", .bool m.code?.isSome), ("throws", .words m.exceptions),
    ("annotations", .hex m.annotations)])

/-- A class file, slot by slot. -/
def ClassFile.report (cf : ClassFile) : List (String × Report) :=
  [("minor", .word16 cf.minor), ("major", .word16 cf.major), ("pool", cf.pool.report true),
   ("poollen", .int cf.pool.size), ("flags", .word16 cf.flags.bits), ("this", .text cf.className),
   ("super", .text cf.superName), ("interfaces", .texts cf.interfaceNames),
   ("fields", .list (cf.fields.map MemberInfo.fieldReport)),
   ("methods", .list (cf.methods.map MemberInfo.methodReport)),
   ("attributes", .list (Attribute.reportAll cf.attributes)), ("source", .text cf.sourceFile),
   ("annotations", .hex cf.annotations)]

/-- A method descriptor in parts. -/
def MethodType.report (t : MethodType) : Report :=
  .record [("params", .texts t.params), ("return", .text t.result), ("slots", .int t.argSlots),
    ("static", .int (t.slots true)), ("instance", .int (t.slots false)),
    ("retop", .text (Opcode.returning t.result).mnemonic)]

/-- What the parts of a name or descriptor are. -/
def Descriptor.report (s : String) : Report :=
  .record [("valid", .bool (isField s)), ("width", .int (slotWidth s)),
    ("reference", .bool (isReference s)), ("class", .text (toClassName s)),
    ("descriptor", .text (ofClassName s)), ("java", .text (dotted s)), ("internal", .text (slashed s)),
    ("package", .text (packageOf s)), ("retop", .text (Opcode.returning s).mnemonic)]

/-- The metadata of a byte as an opcode, an array type code and a primitive letter. -/
def Opcode.reportByte (b : UInt8) : Report :=
  let name := Disassembly.nameOf b
  let operands : Int :=
    match (Opcode.ofByte? b).map Opcode.operandLength with
    | some (.fixed n) => n
    | some .variable => -1
    | none => 0
  let base := [("name", .text name), ("string", .text name),
    ("valid", .bool (Opcode.ofByte? b).isSome), ("operands", .int operands),
    ("branch", .bool (((Opcode.ofByte? b).map Opcode.isBranch).getD false))]
  let array := ((arrayTypeDescriptor? b).map fun d => ("array", Report.text d)).toList
  let primitive :=
    ((Descriptor.primitiveName? (Char.ofNat b.toNat)).map fun d => ("primitive", Report.text d)).toList
  .record (base ++ array ++ primitive)

/-- A switch table. -/
def SwitchTable.report : SwitchTable → Report
  | .range default low high offsets =>
    .record [("default", .int default.toInt), ("low", .int low.toInt), ("high", .int high.toInt),
      ("keys", .list []), ("offsets", .ints (offsets.toList.map Int32.toInt))]
  | .pairs default rows =>
    .record [("default", .int default.toInt), ("low", .int 0), ("high", .int 0),
      ("keys", .ints (rows.map fun r => r.1.toInt)),
      ("offsets", .ints (rows.map fun r => r.2.toInt))]

end JavaMachine
