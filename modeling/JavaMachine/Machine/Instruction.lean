import JavaMachine.Code.Cursor
import JavaMachine.Machine.Slot

/-!
Instructions with their operands, as the machine executes them. Several opcodes may stand for one
instruction: the short, one-byte and wide forms of an access to a local variable are the same, and so are
the ways to push a number.
-/

namespace JavaMachine

/-- What an array instruction takes the elements for. -/
inductive ElementKind where
  | int | long | float | double | ref | byte | char | short
deriving DecidableEq, Repr, Inhabited

/-- Rearrangements of the operand stack. -/
inductive StackOp where
  | pop | pop2 | dup | dupX1 | dupX2 | dup2 | dup2X1 | dup2X2 | swap
deriving DecidableEq, Repr, Inhabited

/-- Operations on two integers. -/
inductive IntegerOp where
  | add | sub | mul | div | rem | and | or | xor
deriving DecidableEq, Repr, Inhabited

/-- Shifts; `ushr` shifts in zeros. -/
inductive ShiftOp where
  | shl | shr | ushr
deriving DecidableEq, Repr, Inhabited

/-- Operations on two floating-point numbers. -/
inductive FloatingOp where
  | add | sub | mul | div | rem
deriving DecidableEq, Repr, Inhabited

/-- The kinds of numbers. -/
inductive NumberKind where
  | int | long | float | double
deriving DecidableEq, Repr, Inhabited

/-- Conversions between kinds of numbers, and narrowings of an int. -/
inductive Conversion where
  | i2l | i2f | i2d | l2i | l2f | l2d | f2i | f2l | f2d | d2i | d2l | d2f | i2b | i2c | i2s
deriving DecidableEq, Repr, Inhabited

/-- Comparisons of numbers. -/
inductive Comparison where
  | eq | ne | lt | ge | gt | le
deriving DecidableEq, Repr, Inhabited

/-- When a branch is taken: an int against zero, two ints, two references, one reference, always. -/
inductive Condition where
  | zero (c : Comparison)
  | ints (c : Comparison)
  | sameRef (wanted : Bool)
  | isNull (wanted : Bool)
  | always
deriving DecidableEq, Repr, Inhabited

/-- How the method of a call is chosen. -/
inductive CallKind where
  | virtual | special | static | interface
deriving DecidableEq, Repr, Inhabited

/-- An instruction. Indexes of constants are `Nat`; offsets are relative to the instruction itself. -/
inductive Instruction where
  | nop
  | push (slots : List Slot)
  | constant (index : Nat)
  | wideConstant (index : Nat)
  | load (wide : Bool) (index : Nat)
  | store (wide : Bool) (index : Nat)
  | increment (index : Nat) (delta : Int32)
  | arrayLoad (kind : ElementKind)
  | arrayStore (kind : ElementKind)
  | stack (op : StackOp)
  | int (op : IntegerOp)
  | long (op : IntegerOp)
  | shiftInt (op : ShiftOp)
  | shiftLong (op : ShiftOp)
  | float (op : FloatingOp)
  | double (op : FloatingOp)
  | negate (kind : NumberKind)
  | convert (c : Conversion)
  | compareLongs
  | compareFloats (nan : Int32)
  | compareDoubles (nan : Int32)
  | branch (condition : Condition) (offset : Int32)
  | callSubroutine (offset : Int32)
  | endSubroutine (index : Nat)
  | select (table : SwitchTable)
  | finish (width : Nat)
  | getStatic (index : Nat)
  | putStatic (index : Nat)
  | getField (index : Nat)
  | putField (index : Nat)
  | call (kind : CallKind) (index : Nat)
  | callDynamic (index : Nat)
  | new (index : Nat)
  | newArray (code : UInt8)
  | newRefArray (index : Nat)
  | newMultiArray (index dimensions : Nat)
  | arrayLength
  | raise
  | checkCast (index : Nat)
  | instanceOf (index : Nat)
  | monitor
  | native
deriving DecidableEq, Repr, Inhabited

/-- What the bytes at a position are: an instruction, a byte that is none, or a wide form of a byte that has
none. -/
inductive Decoded where
  | instruction (i : Instruction)
  | undefined (byte : UInt8)
  | noWideForm (byte : UInt8)
deriving DecidableEq, Repr, Inhabited

namespace Instruction

open CodeReader

/-- Pushes an int. -/
def pushInt (v : Int32) : Instruction := .push [.num v]

/-- Pushes a long. -/
def pushLong (v : Int64) : Instruction := .push [.lowHalf v, .highHalf v]

/-- The instruction of an opcode that has no operands; `none` for those that have some or do not exist. -/
def ofPlain? : Opcode → Option Instruction
  | .nop => some .nop
  | .aconst_null => some (.push [.null])
  | .iconst_m1 => some (pushInt (-1))
  | .iconst_0 => some (pushInt 0)
  | .iconst_1 => some (pushInt 1)
  | .iconst_2 => some (pushInt 2)
  | .iconst_3 => some (pushInt 3)
  | .iconst_4 => some (pushInt 4)
  | .iconst_5 => some (pushInt 5)
  | .lconst_0 => some (pushLong 0)
  | .lconst_1 => some (pushLong 1)
  | .fconst_0 => some (.push [.ofFloat 0])
  | .fconst_1 => some (.push [.ofFloat 0x3f800000])
  | .fconst_2 => some (.push [.ofFloat 0x40000000])
  | .dconst_0 => some (pushLong 0)
  | .dconst_1 => some (pushLong 0x3ff0000000000000)
  | .iload_0 | .fload_0 | .aload_0 => some (.load false 0)
  | .iload_1 | .fload_1 | .aload_1 => some (.load false 1)
  | .iload_2 | .fload_2 | .aload_2 => some (.load false 2)
  | .iload_3 | .fload_3 | .aload_3 => some (.load false 3)
  | .lload_0 | .dload_0 => some (.load true 0)
  | .lload_1 | .dload_1 => some (.load true 1)
  | .lload_2 | .dload_2 => some (.load true 2)
  | .lload_3 | .dload_3 => some (.load true 3)
  | .istore_0 | .fstore_0 | .astore_0 => some (.store false 0)
  | .istore_1 | .fstore_1 | .astore_1 => some (.store false 1)
  | .istore_2 | .fstore_2 | .astore_2 => some (.store false 2)
  | .istore_3 | .fstore_3 | .astore_3 => some (.store false 3)
  | .lstore_0 | .dstore_0 => some (.store true 0)
  | .lstore_1 | .dstore_1 => some (.store true 1)
  | .lstore_2 | .dstore_2 => some (.store true 2)
  | .lstore_3 | .dstore_3 => some (.store true 3)
  | .iaload => some (.arrayLoad .int)
  | .laload => some (.arrayLoad .long)
  | .faload => some (.arrayLoad .float)
  | .daload => some (.arrayLoad .double)
  | .aaload => some (.arrayLoad .ref)
  | .baload => some (.arrayLoad .byte)
  | .caload => some (.arrayLoad .char)
  | .saload => some (.arrayLoad .short)
  | .iastore => some (.arrayStore .int)
  | .lastore => some (.arrayStore .long)
  | .fastore => some (.arrayStore .float)
  | .dastore => some (.arrayStore .double)
  | .aastore => some (.arrayStore .ref)
  | .bastore => some (.arrayStore .byte)
  | .castore => some (.arrayStore .char)
  | .sastore => some (.arrayStore .short)
  | .pop => some (.stack .pop)
  | .pop2 => some (.stack .pop2)
  | .dup => some (.stack .dup)
  | .dup_x1 => some (.stack .dupX1)
  | .dup_x2 => some (.stack .dupX2)
  | .dup2 => some (.stack .dup2)
  | .dup2_x1 => some (.stack .dup2X1)
  | .dup2_x2 => some (.stack .dup2X2)
  | .swap => some (.stack .swap)
  | .iadd => some (.int .add)
  | .isub => some (.int .sub)
  | .imul => some (.int .mul)
  | .idiv => some (.int .div)
  | .irem => some (.int .rem)
  | .iand => some (.int .and)
  | .ior => some (.int .or)
  | .ixor => some (.int .xor)
  | .ladd => some (.long .add)
  | .lsub => some (.long .sub)
  | .lmul => some (.long .mul)
  | .ldiv => some (.long .div)
  | .lrem => some (.long .rem)
  | .land => some (.long .and)
  | .lor => some (.long .or)
  | .lxor => some (.long .xor)
  | .ishl => some (.shiftInt .shl)
  | .ishr => some (.shiftInt .shr)
  | .iushr => some (.shiftInt .ushr)
  | .lshl => some (.shiftLong .shl)
  | .lshr => some (.shiftLong .shr)
  | .lushr => some (.shiftLong .ushr)
  | .fadd => some (.float .add)
  | .fsub => some (.float .sub)
  | .fmul => some (.float .mul)
  | .fdiv => some (.float .div)
  | .frem => some (.float .rem)
  | .dadd => some (.double .add)
  | .dsub => some (.double .sub)
  | .dmul => some (.double .mul)
  | .ddiv => some (.double .div)
  | .drem => some (.double .rem)
  | .ineg => some (.negate .int)
  | .lneg => some (.negate .long)
  | .fneg => some (.negate .float)
  | .dneg => some (.negate .double)
  | .i2l => some (.convert .i2l)
  | .i2f => some (.convert .i2f)
  | .i2d => some (.convert .i2d)
  | .l2i => some (.convert .l2i)
  | .l2f => some (.convert .l2f)
  | .l2d => some (.convert .l2d)
  | .f2i => some (.convert .f2i)
  | .f2l => some (.convert .f2l)
  | .f2d => some (.convert .f2d)
  | .d2i => some (.convert .d2i)
  | .d2l => some (.convert .d2l)
  | .d2f => some (.convert .d2f)
  | .i2b => some (.convert .i2b)
  | .i2c => some (.convert .i2c)
  | .i2s => some (.convert .i2s)
  | .lcmp => some .compareLongs
  | .fcmpl => some (.compareFloats (-1))
  | .fcmpg => some (.compareFloats 1)
  | .dcmpl => some (.compareDoubles (-1))
  | .dcmpg => some (.compareDoubles 1)
  | .ireturn | .freturn | .areturn => some (.finish 1)
  | .lreturn | .dreturn => some (.finish 2)
  | .vreturn => some (.finish 0)
  | .arraylength => some .arrayLength
  | .athrow => some .raise
  | .monitorenter | .monitorexit => some .monitor
  | .impdep1 => some .native
  | _ => none

/-- The instruction that takes the number of a local variable, except `iinc`. -/
def ofLocal? (op : Opcode) (index : Nat) : Option Instruction :=
  match op with
  | .iload | .fload | .aload => some (.load false index)
  | .lload | .dload => some (.load true index)
  | .istore | .fstore | .astore => some (.store false index)
  | .lstore | .dstore => some (.store true index)
  | .ret => some (.endSubroutine index)
  | _ => none

/-- The instruction that takes the index of a constant and nothing else. -/
def ofPooled? (op : Opcode) (index : Nat) : Option Instruction :=
  match op with
  | .ldc_w => some (.constant index)
  | .ldc2_w => some (.wideConstant index)
  | .getstatic => some (.getStatic index)
  | .putstatic => some (.putStatic index)
  | .getfield => some (.getField index)
  | .putfield => some (.putField index)
  | .invokevirtual => some (.call .virtual index)
  | .invokespecial => some (.call .special index)
  | .invokestatic => some (.call .static index)
  | .new => some (.new index)
  | .anewarray => some (.newRefArray index)
  | .checkcast => some (.checkCast index)
  | .instanceof => some (.instanceOf index)
  | _ => none

/-- The condition of a branch with a 16-bit offset. -/
def condition? : Opcode → Option Condition
  | .ifeq => some (.zero .eq)
  | .ifne => some (.zero .ne)
  | .iflt => some (.zero .lt)
  | .ifge => some (.zero .ge)
  | .ifgt => some (.zero .gt)
  | .ifle => some (.zero .le)
  | .if_icmpeq => some (.ints .eq)
  | .if_icmpne => some (.ints .ne)
  | .if_icmplt => some (.ints .lt)
  | .if_icmpge => some (.ints .ge)
  | .if_icmpgt => some (.ints .gt)
  | .if_icmple => some (.ints .le)
  | .if_acmpeq => some (.sameRef true)
  | .if_acmpne => some (.sameRef false)
  | .ifnull => some (.isNull true)
  | .ifnonnull => some (.isNull false)
  | .goto => some .always
  | _ => none

/-- Reads the instruction behind `wide`. -/
def readWide : CodeReader Decoded := do
  let b ← u8
  match Opcode.ofByte? b with
  | some .iinc =>
    let index ← u16
    let delta ← i16
    return .instruction (.increment index.toNat delta.toInt32)
  | some op =>
    if (ofLocal? op 0).isSome then
      let index ← u16
      return ((ofLocal? op index.toNat).map Decoded.instruction).getD (.noWideForm b)
    else return .noWideForm b
  | none => return .noWideForm b

/-- Reads the operands of an opcode that has some. -/
def readOperands (op : Opcode) : CodeReader Decoded := do
  match op with
  | .bipush => return .instruction (pushInt (← i8).toInt32)
  | .sipush => return .instruction (pushInt (← i16).toInt32)
  | .ldc => return .instruction (.constant (← u8).toNat)
  | .iinc =>
    let index ← u8
    let delta ← i8
    return .instruction (.increment index.toNat delta.toInt32)
  | .goto_w => return .instruction (.branch .always (← i32))
  | .jsr => return .instruction (.callSubroutine (← i16).toInt32)
  | .jsr_w => return .instruction (.callSubroutine (← i32))
  | .tableswitch => return .instruction (.select (← tableSwitch))
  | .lookupswitch => return .instruction (.select (← lookupSwitch))
  | .invokeinterface =>
    let index ← u16
    let _ ← u8
    let _ ← u8
    return .instruction (.call .interface index.toNat)
  | .invokedynamic =>
    let index ← u16
    let _ ← u16
    return .instruction (.callDynamic index.toNat)
  | .newarray => return .instruction (.newArray (← u8))
  | .multianewarray =>
    let index ← u16
    let dimensions ← u8
    return .instruction (.newMultiArray index.toNat dimensions.toNat)
  | .wide => readWide
  | op =>
    if let some c := condition? op then return .instruction (.branch c (← i16).toInt32)
    else if (ofLocal? op 0).isSome then
      let index ← u8
      return ((ofLocal? op index.toNat).map Decoded.instruction).getD (.undefined op.toByte)
    else if (ofPooled? op 0).isSome then
      let index ← u16
      return ((ofPooled? op index.toNat).map Decoded.instruction).getD (.undefined op.toByte)
    else return .undefined op.toByte

/-- Reads what is at the position. -/
def read : CodeReader Decoded := do
  let b ← u8
  match Opcode.ofByte? b with
  | none => return .undefined b
  | some op =>
    match ofPlain? op with
    | some i => return .instruction i
    | none => readOperands op

end Instruction

end JavaMachine
