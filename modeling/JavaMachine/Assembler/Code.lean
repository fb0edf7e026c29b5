import JavaMachine.Assembler.Pool
import JavaMachine.Bytes.BigEndian
import JavaMachine.ClassFile.Attribute
import JavaMachine.Code.Opcode
import JavaMachine.Descriptor

/-!
Assembling method bodies. Instructions are appended one by one; branch offsets are filled in at the end,
so a label may be marked before or after the jumps that use it.
-/

namespace JavaMachine

open BigEndian

/-- Why a method body cannot be assembled. -/
inductive AssemblyFault where
  | unmarkedBranch (pc : Nat)
  | unmarkedHandler
  | tooFar (offset : Int) (pc : Nat)
  | markedTwice
  | missingTarget
  | descriptor (fault : Descriptor.Fault)
  | unknownOpcode (name : String)
deriving DecidableEq, Repr

/-- The text of a fault. -/
def AssemblyFault.message : AssemblyFault → String
  | .unmarkedBranch pc => s!"branch to unmarked label at pc {pc}"
  | .unmarkedHandler => "branch to unmarked label in exception table"
  | .tooFar offset pc => s!"branch offset {offset} at pc {pc} does not fit in 16 bits"
  | .markedTwice => "label already marked"
  | .missingTarget => "index out of range"
  | .descriptor f => f.message
  | .unknownOpcode name => s!"unknown opcode {name}"

/-- A place in the code where an offset is missing. -/
structure Patch where
  label : String
  origin : Nat
  place : Nat
  wide : Bool
deriving DecidableEq, Repr

/-- An exception table row between labels. -/
structure PendingHandler where
  start : String
  stop : String
  handler : String
  catchType : UInt16
deriving DecidableEq, Repr

/-- A method body under construction, with the pool it refers to. -/
structure CodeBuilder where
  pool : PoolBuilder := {}
  bytes : Array UInt8 := #[]
  labels : List (String × Nat) := []
  patches : Array Patch := #[]
  handlers : Array PendingHandler := #[]
  lines : Array LineRow := #[]
  maxStack : Int := 16
  maxLocals : Int := 0
deriving Inhabited

namespace CodeBuilder

/-- The position of the next instruction. -/
def size (b : CodeBuilder) : Nat := b.bytes.size

/-- Sets the capacity of the operand stack. -/
def setMaxStack (n : Int) (b : CodeBuilder) : CodeBuilder := { b with maxStack := n }

/-- Raises the number of local variables; it is never lowered. -/
def setMaxLocals (n : Int) (b : CodeBuilder) : CodeBuilder :=
  if b.maxLocals < n then { b with maxLocals := n } else b

/-- Appends bytes. -/
def emitBytes (data : List UInt8) (b : CodeBuilder) : CodeBuilder :=
  { b with bytes := b.bytes ++ data.toArray }

/-- Appends an opcode. -/
def emit (op : Opcode) (b : CodeBuilder) : CodeBuilder := b.emitBytes [op.toByte]

/-- Appends an opcode and a byte. -/
def emitU8 (op : Opcode) (v : UInt8) (b : CodeBuilder) : CodeBuilder := b.emitBytes [op.toByte, v]

/-- Appends an opcode and a 16-bit word. -/
def emitU16 (op : Opcode) (v : UInt16) (b : CodeBuilder) : CodeBuilder :=
  b.emitBytes (op.toByte :: bytes16 v)

/-- Appends an instruction with a wide index. -/
def emitWide (op : Opcode) (i : UInt16) (b : CodeBuilder) : CodeBuilder :=
  b.emitBytes (Opcode.wide.toByte :: op.toByte :: bytes16 i)

/-- The number of slots that an access to a local variable touches. -/
def localWidth : Opcode → Int
  | .lload | .dload | .lstore | .dstore => 2
  | _ => 1

/-- Appends a load, a store or `ret`, wide if the index needs it. -/
def emitLocal (op : Opcode) (i : Int) (b : CodeBuilder) : CodeBuilder :=
  let b := b.setMaxLocals (i + localWidth op)
  if 0xff < i then b.emitWide op (low16 i) else b.emitU8 op (low8 i)

/-- Appends `iinc`, wide if the index or the summand needs it. -/
def emitIinc (i delta : Int) (b : CodeBuilder) : CodeBuilder :=
  let b := b.setMaxLocals (i + 1)
  if 0xff < i ∨ delta < -128 ∨ 127 < delta then
    (b.emitWide .iinc (low16 i)).emitBytes (bytes16 (low16 delta))
  else b.emitBytes [Opcode.iinc.toByte, low8 i, low8 delta]

/-- Appends `multianewarray`. -/
def emitMultiArray (i : UInt16) (dims : UInt8) (b : CodeBuilder) : CodeBuilder :=
  b.emitBytes (Opcode.multianewarray.toByte :: bytes16 i ++ [dims])

/-- Binds a label to the position. -/
def mark (label : String) (b : CodeBuilder) : Except AssemblyFault CodeBuilder :=
  if (b.labels.lookup label).isSome then .error .markedTwice
  else .ok { b with labels := (label, b.size) :: b.labels }

/-- Appends a place of two or four bytes for the offset from `origin` to a label. -/
def emitOffset (origin : Nat) (wide : Bool) (label : String) (b : CodeBuilder) : CodeBuilder :=
  { b with
    patches := b.patches.push ⟨label, origin, b.size, wide⟩
    bytes := b.bytes ++ Array.replicate (if wide then 4 else 2) 0 }

/-- Appends a branch with a 16-bit offset. -/
def emitJump (op : Opcode) (label : String) (b : CodeBuilder) : CodeBuilder :=
  (b.emit op).emitOffset b.size false label

/-- Appends a branch with a 32-bit offset. -/
def emitJumpWide (op : Opcode) (label : String) (b : CodeBuilder) : CodeBuilder :=
  (b.emit op).emitOffset b.size true label

/-- Appends zeros up to a multiple of four. -/
def pad (b : CodeBuilder) : CodeBuilder :=
  { b with bytes := b.bytes ++ Array.replicate ((4 - b.size % 4) % 4) 0 }

/-- Appends a signed word. -/
def emitI32 (v : Int32) (b : CodeBuilder) : CodeBuilder := b.emitBytes (bytes32 v.toUInt32)

/-- Appends `tableswitch` for the keys from `low` on. -/
def emitTableSwitch (low : Int32) (default : String) (targets : List String) (b : CodeBuilder) :
    CodeBuilder :=
  let origin := b.size
  let b := (b.emit .tableswitch).pad.emitOffset origin true default
  let b := (b.emitI32 low).emitI32 (low + Int32.ofNat targets.length - 1)
  targets.foldl (fun b t => b.emitOffset origin true t) b

/-- Appends the rows of a `lookupswitch`; every key needs a target. -/
def emitPairs (origin : Nat) : List Int32 → List String → CodeBuilder →
    Except AssemblyFault CodeBuilder
  | [], _, b => .ok b
  | _ :: _, [], _ => .error .missingTarget
  | k :: ks, t :: ts, b => emitPairs origin ks ts ((b.emitI32 k).emitOffset origin true t)

/-- Appends `lookupswitch`. -/
def emitLookupSwitch (default : String) (keys : List Int32) (targets : List String)
    (b : CodeBuilder) : Except AssemblyFault CodeBuilder :=
  let origin := b.size
  let b := (b.emit .lookupswitch).pad.emitOffset origin true default
  emitPairs origin keys targets (b.emitI32 (Int32.ofNat keys.length))

/-- Replaces the pool after an addition. -/
def withPool (r : UInt16 × PoolBuilder) (b : CodeBuilder) (use : UInt16 → CodeBuilder → CodeBuilder) :
    CodeBuilder :=
  use r.1 { b with pool := r.2 }

/-- Adds an exception table row; an empty class name catches everything. -/
def addHandler (start stop handler catchClass : String) (b : CodeBuilder) : CodeBuilder :=
  let row (type : UInt16) (b : CodeBuilder) : CodeBuilder :=
    { b with handlers := b.handlers.push ⟨start, stop, handler, type⟩ }
  if catchClass = "" then row 0 b else b.withPool (b.pool.className catchClass) row

/-- Maps the next instruction to a source line. -/
def lineNumber (line : UInt16) (b : CodeBuilder) : CodeBuilder :=
  { b with lines := b.lines.push ⟨UInt16.ofNat b.size, line⟩ }

/-- Appends `ldc`, or `ldc_w` if the index needs it. -/
def ldc (i : UInt16) (b : CodeBuilder) : CodeBuilder :=
  if i ≤ 0xff then b.emitU8 .ldc i.toUInt8 else b.emitU16 .ldc_w i

/-- The instruction that pushes a constant from -1 to 5. -/
def iconst (v : Int32) : Opcode :=
  match v.toInt with
  | -1 => .iconst_m1
  | 1 => .iconst_1
  | 2 => .iconst_2
  | 3 => .iconst_3
  | 4 => .iconst_4
  | 5 => .iconst_5
  | _ => .iconst_0

/-- Appends the shortest instruction that pushes an integer. -/
def pushInt (v : Int32) (b : CodeBuilder) : CodeBuilder :=
  if -1 ≤ v ∧ v ≤ 5 then b.emit (iconst v)
  else if -128 ≤ v ∧ v ≤ 127 then b.emitU8 .bipush (low8 v.toInt)
  else if -32768 ≤ v ∧ v ≤ 32767 then b.emitU16 .sipush (low16 v.toInt)
  else b.withPool (b.pool.add (.int v)) ldc

/-- Appends an instruction that pushes a string. -/
def pushString (s : String) (b : CodeBuilder) : CodeBuilder := b.withPool (b.pool.string s) ldc

/-- Appends an instruction that pushes a float. -/
def pushFloat (bits : UInt32) (b : CodeBuilder) : CodeBuilder :=
  b.withPool (b.pool.add (.float bits)) ldc

/-- Appends an instruction that pushes a long. -/
def pushLong (v : Int64) (b : CodeBuilder) : CodeBuilder :=
  b.withPool (b.pool.add (.long v)) (emitU16 .ldc2_w)

/-- Appends an instruction that pushes a double. -/
def pushDouble (bits : UInt64) (b : CodeBuilder) : CodeBuilder :=
  b.withPool (b.pool.add (.double bits)) (emitU16 .ldc2_w)

/-- Appends a call through a method reference, or through an interface method reference. A call of an
interface method counts its argument slots. -/
def invoke (op : Opcode) (onInterface : Bool) (owner name desc : String) (b : CodeBuilder) :
    Except AssemblyFault CodeBuilder :=
  if op = .invokeinterface then
    match Descriptor.argSlotCount desc false with
    | .error f => .error (.descriptor f)
    | .ok n =>
      .ok (b.withPool (b.pool.memberRef .interfaceMethod owner name desc) fun i b =>
        b.emitBytes (op.toByte :: bytes16 i ++ [UInt8.ofNat n, 0]))
  else
    let kind := if onInterface then MemberKind.interfaceMethod else .method
    .ok (b.withPool (b.pool.memberRef kind owner name desc) (emitU16 op))

/-- Appends an access to a field. -/
def field (op : Opcode) (owner name desc : String) (b : CodeBuilder) : CodeBuilder :=
  b.withPool (b.pool.memberRef .field owner name desc) (emitU16 op)

/-- Appends an instruction on a class. -/
def typeOp (op : Opcode) (name : String) (b : CodeBuilder) : CodeBuilder :=
  b.withPool (b.pool.className name) (emitU16 op)

/-- Overwrites bytes from a place on. -/
def overwrite (code : Array UInt8) (place : Nat) : List UInt8 → Array UInt8
  | [] => code
  | v :: rest => overwrite (code.setIfInBounds place v) (place + 1) rest

/-- Fills in an offset. -/
def applyPatch (labels : List (String × Nat)) (code : Array UInt8) (p : Patch) :
    Except AssemblyFault (Array UInt8) :=
  match labels.lookup p.label with
  | none => .error (.unmarkedBranch p.origin)
  | some target =>
    let offset : Int := target - p.origin
    if p.wide then .ok (overwrite code p.place (bytes32 (low32 offset)))
    else if offset < -32768 ∨ 32767 < offset then .error (.tooFar offset p.origin)
    else .ok (overwrite code p.place (bytes16 (low16 offset)))

/-- Turns labels of a handler into positions. -/
def placeHandler (labels : List (String × Nat)) (h : PendingHandler) :
    Except AssemblyFault HandlerRow :=
  match labels.lookup h.start, labels.lookup h.stop, labels.lookup h.handler with
  | some s, some e, some t =>
    .ok ⟨UInt16.ofNat s, UInt16.ofNat e, UInt16.ofNat t, h.catchType⟩
  | _, _, _ => .error .unmarkedHandler

/-- The index of an attribute's name in the pool of the class. -/
def codeName : String := "Code"

/-- Resolves the labels and gives the method body with the pool it refers to. -/
def build (b : CodeBuilder) : Except AssemblyFault (UInt16 × CodeBody × PoolBuilder) := do
  let code ← b.patches.foldlM (applyPatch b.labels) b.bytes
  let (nameIndex, pool) := b.pool.utf8 codeName
  let handlers ← b.handlers.toList.mapM (placeHandler b.labels)
  let (attributes, pool) :=
    if b.lines.isEmpty then ([], pool)
    else
      let (i, pool) := pool.utf8 "LineNumberTable"
      ([Attribute.mk i "LineNumberTable" (.lines b.lines.toList)], pool)
  return (nameIndex, .mk (low16 b.maxStack) (low16 b.maxLocals) code.toList handlers attributes, pool)

end CodeBuilder

end JavaMachine
