import JavaMachine.ClassFile.Constant
import JavaMachine.Code.Cursor
import JavaMachine.Decimal.Shortest
import JavaMachine.Descriptor
import JavaMachine.Text.Hex

/-! Listings of method bodies: one line for each instruction, with its constant as a comment. -/

namespace JavaMachine.Disassembly

open Text CodeReader

/-- How a reference is called in a comment. -/
def memberTitle : MemberKind → String
  | .field => "Field"
  | .method => "Method"
  | .interfaceMethod => "InterfaceMethod"

/-- The comment on a constant; without a pool there is none. -/
def comment (pool : Option ConstantPool) (index : UInt16) : String :=
  match pool with
  | none => ""
  | some pool =>
    let textAt (i : UInt16) := (pool.utf8 i).toOption.getD ""
    match pool.entry index with
    | .ok (.int v) => s!" // int {v.toInt}"
    | .ok (.float b) => s!" // float {Decimal.renderSingle b}f"
    | .ok (.long v) => s!" // long {v.toInt}l"
    | .ok (.double b) => s!" // double {Decimal.renderDouble b}d"
    | .ok (.string t) => s!" // String {textAt t}"
    | .ok (.class n) => s!" // class {textAt n}"
    | .ok (.member kind _ _) =>
      match pool.memberRef index with
      | .ok (owner, name, desc) => s!" // {memberTitle kind} {owner}.{name}:{desc}"
      | .error _ => ""
    | _ => ""

/-- A number on the left, four wide. -/
def margin (pos : Int) : String := Hex.padLeft ' ' 4 (toString pos)

/-- The mnemonic of a byte, whether or not it is an opcode. -/
def nameOf (b : UInt8) : String :=
  match Opcode.ofByte? b with
  | some op => op.mnemonic
  | none => "unknown_" ++ Hex.lower 2 b.toNat

/-- The lines of a switch. -/
def switchText (head : String) (pos : Int) (comment : String) (rows : List (Int32 × Int32))
    (default : Int32) : String :=
  let row (r : Int32 × Int32) := s!"\n      {r.1.toInt}: {pos + r.2.toInt}"
  head ++ " \x7b // " ++ comment ++ String.join (rows.map row) ++
    s!"\n      default: {pos + default.toInt}\n    \x7d"

/-- The rows of a table that starts at a key. -/
def numbered (low : Int32) : List Int32 → List (Int32 × Int32)
  | [] => []
  | o :: rest => (low, o) :: numbered (low + 1) rest

/-- Lists the instruction at the position and goes past it. -/
def instruction (pool : Option ConstantPool) : CodeReader String := do
  let pos ← position
  let byte ← u8
  let head := margin pos ++ ": " ++ nameOf byte
  match Opcode.ofByte? byte with
  | none => return head
  | some .bipush => return s!"{head} {(← i8).toInt}"
  | some .sipush => return s!"{head} {(← i16).toInt}"
  | some .ldc => do
    let i := (← u8).toUInt16
    return s!"{head} #{i.toNat}{comment pool i}"
  | some .newarray => do
    let code ← u8
    let desc := (arrayTypeDescriptor? code).getD ""
    return s!"{head} {Descriptor.toClassName (String.ofList (desc.toList.drop 1))}"
  | some .iinc => do
    let i ← u8
    return s!"{head} {i.toNat}, {(← i8).toInt}"
  | some .goto_w | some .jsr_w => return s!"{head} {pos + (← i32).toInt}"
  | some .tableswitch => do
    match ← tableSwitch with
    | .range default low high offsets =>
      return switchText head pos s!"{low.toInt} to {high.toInt}" (numbered low offsets.toList) default
    | .pairs .. => return head
  | some .lookupswitch => do
    match ← lookupSwitch with
    | .pairs default rows => return switchText head pos (toString rows.length) rows default
    | .range .. => return head
  | some .invokeinterface => do
    let i ← u16
    let count ← u8
    let _ ← u8
    return s!"{head} #{i.toNat}, {count.toNat}{comment pool i}"
  | some .invokedynamic => do
    let i ← u16
    skip 2
    return s!"{head} #{i.toNat}, 0"
  | some .multianewarray => do
    let i ← u16
    let dims ← u8
    return s!"{head} #{i.toNat}, {dims.toNat}{comment pool i}"
  | some .wide => do
    let inner ← u8
    let i ← u16
    if Opcode.ofByte? inner = some .iinc then
      return s!"{head} {nameOf inner} {i.toNat}, {(← i16).toInt}"
    else return s!"{head} {nameOf inner} {i.toNat}"
  | some op =>
    if op.isBranch then return s!"{head} {pos + (← i16).toInt}"
    else
      match op.operandLength with
      | .fixed 2 => do
        let i ← u16
        return s!"{head} #{i.toNat}{comment pool i}"
      | .fixed 1 => return s!"{head} {(← u8).toNat}"
      | _ => return head

/-- Lists instructions until the code ends; each takes at least one byte, so `fuel` bytes are enough. -/
def instructions (pool : Option ConstantPool) : (fuel : Nat) → CodeReader (List String)
  | 0 => pure []
  | fuel + 1 => do
    if ← hasMore then
      let line ← instruction pool
      let rest ← instructions pool fuel
      return line :: rest
    else return []

/-- The listing of a method body. -/
def listing (code : Array UInt8) (pool : Option ConstantPool) : Except CodeFault String :=
  match (instructions pool code.size).run { code } with
  | .ok lines _ => .ok ("\n".intercalate lines)
  | .error f _ => .error f

end JavaMachine.Disassembly
