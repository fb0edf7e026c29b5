import JavaMachine.Assembler.Code
import JavaMachine.ClassFile.Basic

/-!
Classes as source: statements that stand for instructions, labels, tables and constants, and the class
files they assemble to. The order in which parts are assembled fixes the order of the constant pool.
-/

namespace JavaMachine

open BigEndian

/-- A statement of a method body. -/
inductive Statement where
  | label (name : String)
  | line (number : UInt16)
  | maxStack (n : Int)
  | maxLocals (n : Int)
  | handler (start stop handler catchClass : String)
  | raw (bytes : List UInt8)
  | int (v : Int32)
  | long (v : Int64)
  | float (bits : UInt32)
  | double (bits : UInt64)
  | string (s : String)
  | class (name : String)
  | methodType (desc : String)
  | methodHandle (kind : UInt8) (owner name desc : String)
  | dynamic (bootstrap : UInt16) (name desc : String)
  | plain (op : Opcode)
  | u8 (op : Opcode) (v : UInt8)
  | u16 (op : Opcode) (v : UInt16)
  | wide (op : Opcode) (i : UInt16)
  | local (op : Opcode) (i : Int)
  | iinc (i delta : Int)
  | jump (op : Opcode) (label : String)
  | jumpWide (op : Opcode) (label : String)
  | tableSwitch (low : Int32) (default : String) (targets : List String)
  | lookupSwitch (default : String) (keys : List Int32) (targets : List String)
  | field (op : Opcode) (owner name desc : String)
  | invoke (op : Opcode) (owner name desc : String) (onInterface : Bool := false)
  | type (op : Opcode) (name : String)
  | multiArray (name : String) (dims : UInt8)
deriving Repr, Inhabited

namespace CodeBuilder

/-- Assembles a statement. -/
def statement (b : CodeBuilder) : Statement → Except AssemblyFault CodeBuilder
  | .label name => b.mark name
  | .line n => .ok (b.lineNumber n)
  | .maxStack n => .ok (b.setMaxStack n)
  | .maxLocals n => .ok (b.setMaxLocals n)
  | .handler s e h c => .ok (b.addHandler s e h c)
  | .raw bytes => .ok (b.emitBytes bytes)
  | .int v => .ok (b.pushInt v)
  | .long v => .ok (b.pushLong v)
  | .float bits => .ok (b.pushFloat bits)
  | .double bits => .ok (b.pushDouble bits)
  | .string s => .ok (b.pushString s)
  | .class name => .ok (b.withPool (b.pool.className name) ldc)
  | .methodType desc => .ok (b.withPool (b.pool.methodType desc) ldc)
  | .methodHandle kind owner name desc =>
    let (reference, pool) := b.pool.memberRef .method owner name desc
    .ok (b.withPool (pool.methodHandle kind reference) ldc)
  | .dynamic bootstrap name desc =>
    .ok (b.withPool (b.pool.invokeDynamic bootstrap name desc) fun i b =>
      (b.emitU16 .invokedynamic i).emitBytes [0, 0])
  | .plain op => .ok (b.emit op)
  | .u8 op v => .ok (b.emitU8 op v)
  | .u16 op v => .ok (b.emitU16 op v)
  | .wide op i => .ok (b.emitWide op i)
  | .local op i => .ok (b.emitLocal op i)
  | .iinc i delta => .ok (b.emitIinc i delta)
  | .jump op label => .ok (b.emitJump op label)
  | .jumpWide op label => .ok (b.emitJumpWide op label)
  | .tableSwitch low default targets => .ok (b.emitTableSwitch low default targets)
  | .lookupSwitch default keys targets => b.emitLookupSwitch default keys targets
  | .field op owner name desc => .ok (b.field op owner name desc)
  | .invoke op owner name desc onInterface => b.invoke op onInterface owner name desc
  | .type op name => .ok (b.typeOp op name)
  | .multiArray name dims =>
    .ok (b.withPool (b.pool.className name) fun i b => b.emitMultiArray i dims)

/-- Assembles statements in order. -/
def statements (b : CodeBuilder) (body : List Statement) : Except AssemblyFault CodeBuilder :=
  body.foldlM statement b

end CodeBuilder

/-- The constant of a field. -/
inductive FieldConstant where
  | int (v : Int32)
  | long (v : Int64)
  | float (bits : UInt32)
  | double (bits : UInt64)
  | string (s : String)
  | class (name : String)
  | index (i : UInt16)
deriving Repr, Inhabited

/-- A field in source form. -/
structure FieldSource where
  flags : UInt16
  name : String
  desc : String
  value : Option FieldConstant := none
deriving Repr, Inhabited

/-- A method in source form; one without statements has no body. -/
structure MethodSource where
  flags : UInt16
  name : String
  desc : String
  body : Option (List Statement) := none
  maxStack : Option Int := none
  maxLocals : Option Int := none
deriving Repr, Inhabited

/-- A class in source form. -/
structure ClassSource where
  name : String
  super : String := "java/lang/Object"
  flags : UInt16 := 0x21
  defaultConstructor : Bool := false
  interfaces : List String := []
  fields : List FieldSource := []
  methods : List MethodSource := []
  sourceFile : Option String := none
  major : Option UInt16 := none
  minor : Option UInt16 := none
deriving Repr, Inhabited

/-- A class under construction. -/
structure ClassBuilder where
  pool : PoolBuilder
  file : ClassFile

namespace ClassBuilder

/-- Starts a class; an empty super name stands for none. -/
def start (name super : String) (flags : UInt16) : ClassBuilder :=
  let (thisClass, pool) := PoolBuilder.className name {}
  let (superClass, pool) := if super = "" then (0, pool) else pool.className super
  ⟨pool, {
    minor := 0, major := ClassFile.maxMajor, pool := #[], flags := ⟨flags⟩, thisClass, superClass,
    interfaces := [], fields := [], methods := [], attributes := [] }⟩

/-- Declares a superinterface. -/
def addInterface (c : ClassBuilder) (name : String) : ClassBuilder :=
  let (i, pool) := c.pool.className name
  ⟨pool, { c.file with interfaces := c.file.interfaces ++ [i] }⟩

/-- Adds the name and the descriptor of a member. -/
def memberInfo (pool : PoolBuilder) (flags : UInt16) (name desc : String) : MemberInfo × PoolBuilder :=
  let (n, pool) := pool.utf8 name
  let (d, pool) := pool.utf8 desc
  (⟨⟨flags⟩, n, d, name, desc, []⟩, pool)

/-- The pool index of a field constant. -/
def constantIndex (pool : PoolBuilder) : FieldConstant → UInt16 × PoolBuilder
  | .int v => pool.add (.int v)
  | .long v => pool.add (.long v)
  | .float bits => pool.add (.float bits)
  | .double bits => pool.add (.double bits)
  | .string s => pool.string s
  | .class name => pool.className name
  | .index i => (i, pool)

/-- Declares a field. -/
def addField (c : ClassBuilder) (f : FieldSource) : ClassBuilder :=
  match f.value with
  | none =>
    let (info, pool) := memberInfo c.pool f.flags f.name f.desc
    ⟨pool, { c.file with fields := c.file.fields ++ [info] }⟩
  | some value =>
    let (v, pool) := constantIndex c.pool value
    let (info, pool) := memberInfo pool f.flags f.name f.desc
    let (i, pool) := pool.utf8 "ConstantValue"
    let info := { info with attributes := [.mk i "ConstantValue" (.index .constantValue v)] }
    ⟨pool, { c.file with fields := c.file.fields ++ [info] }⟩

/-- Raises the number of locals of a body to that of the argument slots. -/
def fitLocals (flags : UInt16) (desc : String) : CodeBody → CodeBody
  | .mk stack locals code handlers attributes =>
    match Descriptor.argSlotCount desc (Flags.isStatic ⟨flags⟩) with
    | .ok n =>
      .mk stack (if locals.toNat < n then UInt16.ofNat n else locals) code handlers attributes
    | .error _ => .mk stack locals code handlers attributes

/-- Declares a method with a body that was assembled, or with none. -/
def declareMethod (c : ClassBuilder) (flags : UInt16) (name desc : String) (code : Option (UInt16 × CodeBody)) :
    ClassBuilder :=
  let (info, pool) := memberInfo c.pool flags name desc
  let attributes := code.toList.map fun (i, body) =>
    Attribute.mk i CodeBuilder.codeName (.code (fitLocals flags desc body))
  ⟨pool, { c.file with methods := c.file.methods ++ [{ info with attributes }] }⟩

/-- Declares a method, whose body is assembled before its names are added. -/
def addMethod (c : ClassBuilder) (m : MethodSource) : Except AssemblyFault ClassBuilder := do
  match m.body with
  | none => return c.declareMethod m.flags m.name m.desc none
  | some body =>
    let b : CodeBuilder := { pool := c.pool }
    let b := match m.maxStack with
      | some n => b.setMaxStack n
      | none => b
    let b := match m.maxLocals with
      | some n => b.setMaxLocals n
      | none => b
    let b ← b.statements body
    let (codeIndex, code, pool) ← b.build
    return { c with pool }.declareMethod m.flags m.name m.desc (some (codeIndex, code))

/-- Records the source file. -/
def setSourceFile (c : ClassBuilder) (name : String) : ClassBuilder :=
  let (i, pool) := c.pool.utf8 "SourceFile"
  let (t, pool) := pool.utf8 name
  ⟨pool, { c.file with
    attributes := c.file.attributes ++ [.mk i "SourceFile" (.index .sourceFile t)] }⟩

/-- The class file. -/
def build (c : ClassBuilder) : ClassFile := { c.file with pool := c.pool.pool }

end ClassBuilder

namespace MethodSource

/-- A public constructor that hands its arguments, all references, to the same constructor of the
superclass. -/
def forwarding (super desc : String) (args : Nat) : MethodSource where
  flags := 1
  name := "<init>"
  desc := desc
  body := some ((List.range (args + 1)).map (fun i => .local .aload i) ++
    [.invoke .invokespecial super "<init>" desc, .plain .vreturn])

end MethodSource

namespace ClassSource

/-- An exception class with constructors for a message and a cause. -/
def throwable (name super : String) : ClassSource where
  name := name
  super := super
  methods :=
    [.forwarding super "()V" 0, .forwarding super "(Ljava/lang/String;)V" 1,
     .forwarding super "(Ljava/lang/String;Ljava/lang/Throwable;)V" 2]

/-- Assembles a class: the default constructor, interfaces, fields, methods and the source file, in
this order. -/
def assemble (s : ClassSource) : Except AssemblyFault ClassFile := do
  let c := ClassBuilder.start s.name s.super s.flags
  let c ← if s.defaultConstructor then c.addMethod (.forwarding s.super "()V" 0) else pure c
  let c := s.interfaces.foldl ClassBuilder.addInterface c
  let c := s.fields.foldl ClassBuilder.addField c
  let c ← s.methods.foldlM ClassBuilder.addMethod c
  let c := match s.sourceFile with
    | some name => c.setSourceFile name
    | none => c
  let cf := c.build
  return { cf with major := s.major.getD cf.major, minor := s.minor.getD cf.minor }

end ClassSource

end JavaMachine
