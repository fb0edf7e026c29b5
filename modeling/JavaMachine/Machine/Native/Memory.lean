import JavaMachine.Machine.Native.Basic

/-!
Native methods for direct access: fields by place, array elements by index, and memory outside the heap.
The first element of an array has offset 0 and the next one offset 1.
-/

namespace JavaMachine.Native

open M Throwing

/-- The kinds of values that are accessed directly. -/
inductive DirectKind where
  | int | long | ref
deriving DecidableEq, Repr

/-- The kind of array elements of a direct access. -/
def DirectKind.element : DirectKind → ElementKind
  | .int => .int
  | .long => .long
  | .ref => .ref

/-- Tests that an index lies in an array. -/
def insideArray (r : Ref) (kind : ElementKind) (i : Int64) : M Nat := do
  let e := (← objectAt r).elements
  let n := (e.map Elements.length).getD 0
  if !(e.map (Elements.holds kind)).getD false then wrongElements kind e
  if i < 0 || n ≤ i.toInt.toNat then outside i.toInt n else return i.toInt.toNat

/-- The slots of a value at an offset in an object. -/
def readDirect (r : Ref) (kind : DirectKind) (offset : Int64) : M (List Slot) := do
  if (← objectAt r).isArray then loadElement r kind.element (← insideArray r kind.element offset)
  else
    let lo ← slotOf r offset.toInt
    match kind with
    | .int => return [.num lo.int]
    | .ref => return [.ofRef lo.ref?]
    | .long =>
      let v := Slot.joinLong lo (← slotOf r (offset.toInt + 1))
      return [.lowHalf v, .highHalf v]

/-- Notes that a reference is stored without a test of its class. -/
def noteUnchecked (kind : DirectKind) : M Unit :=
  modify fun m => { m with unchecked := m.unchecked || kind = .ref }

/-- Writes a value at an offset in an object. -/
def writeDirect (r : Ref) (kind : DirectKind) (offset : Int64) (lo hi : Slot) : M Unit := do
  noteUnchecked kind
  if (← objectAt r).isArray then
    storeElement r kind.element (← insideArray r kind.element offset) lo hi
  else
    match kind with
    | .int => setSlot r offset.toInt (.num lo.int)
    | .ref => setSlot r offset.toInt (.ofRef lo.ref?)
    | .long =>
      let v := Slot.joinLong lo hi
      setSlot r offset.toInt (.lowHalf v)
      setSlot r (offset.toInt + 1) (.highHalf v)

/-- Reads a value of the object in the first argument at the offset in the second. -/
def getDirect (kind : DirectKind) : Native := fun s => do
  let r ← localRef 1
  let offset ← localLong 2
  notNull s r fun r => do onStack (OperandStack.pushAll (← readDirect r kind offset))

/-- The low and the high slot of an argument. -/
def argument (kind : DirectKind) (i : Nat) : M (Slot × Slot) := do
  let lo ← onLocals (Slots.read i)
  let hi ← if kind = .long then onLocals (Slots.read (i + 1)) else pure Slot.null
  return (lo, hi)

/-- Writes a value to the object in the first argument at the offset in the second. -/
def putDirect (kind : DirectKind) : Native := fun s => do
  let r ← localRef 1
  let offset ← localLong 2
  let (lo, hi) ← argument kind 4
  notNull s r fun r => writeDirect r kind offset lo hi

/-- Whether slots hold a value. -/
def sameValue (kind : DirectKind) (slots : List Slot) (lo hi : Slot) : Bool :=
  match kind, slots with
  | .int, [v] => v.int == lo.int
  | .ref, [v] => v.ref? == lo.ref?
  | .long, [v, w] => Slot.joinLong v w == Slot.joinLong lo hi
  | _, _ => false

/-- Writes a value if the old one is as expected, and says whether it was. -/
def swapDirect (kind : DirectKind) : Native := fun s => do
  let r ← localRef 1
  let offset ← localLong 2
  let (lo, hi) ← argument kind 4
  let (newLo, newHi) ← argument kind (if kind = .long then 6 else 5)
  notNull s r fun r => do
    let same := sameValue kind (← readDirect r kind offset) lo hi
    if same then writeDirect r kind offset newLo newHi
    pushBool same

/-! ## Memory outside the heap -/

/-- The most bytes that can be asked for. -/
def memoryLimit : Int64 := 0x1000000000000

/-- Allocates memory. -/
def allocateMemory : Native := fun s => do
  let n ← localLong 1
  if n < 0 then throwNew s Throwables.illegalArgument ""
  else if memoryLimit < n then throw (.crash "runtime error: makeslice: len out of range")
  else
    let (address, memory) := (← get).memory.allocate n
    modify fun m => { m with memory }
    pushLong address

/-- Frees memory. -/
def freeMemory : Native := fun _ => do
  let address ← localLong 1
  modify fun m => { m with memory := m.memory.free address }

/-- Goes on with the block and the offset of an access. -/
def withMemory (s : Services) (count : Nat) (next : Int64 → Nat → M Unit) : M Unit := do
  match (← get).memory.locate (← localLong 1) count with
  | .inside base offset => next base offset
  | .missing => throwNew s Throwables.internal "access to unallocated memory"
  | .outside => throw (.crash "runtime error: slice bounds out of range")

/-- Writes to memory. -/
def poke (s : Services) (bytes : List UInt8) : M Unit :=
  withMemory s bytes.length fun base offset =>
    modify fun m => { m with memory := m.memory.write base offset bytes }

/-- Reads from memory. -/
def peekMemory (s : Services) (count : Nat) (next : List UInt8 → M Unit) : M Unit :=
  withMemory s count fun base offset => do next ((← get).memory.read base offset count)

/-- The bytes of a long, the lowest first. -/
def littleEndian (v : Int64) : List UInt8 :=
  (List.range 8).map fun i => (v.toUInt64 >>> (8 * UInt64.ofNat i)).toUInt8

/-- The long of bytes, the lowest first. -/
def ofLittleEndian (bytes : List UInt8) : Int64 :=
  (bytes.foldr (fun b (acc : UInt64) => (acc <<< 8) ||| b.toUInt64) 0).toInt64

/-- The methods of direct access. -/
def direct : List (String × String × Native) := [
  ("arrayBaseOffset", "(Ljava/lang/Class;)I", fun _ => pushInt 0),
  ("arrayIndexScale", "(Ljava/lang/Class;)I", fun _ => pushInt 1),
  ("addressSize", "()I", fun _ => pushInt 8),
  ("pageSize", "()I", fun _ => pushInt 4096),
  ("objectFieldOffset", "(Ljava/lang/reflect/Field;)J", fun s => do
    notNull s (← localRef 1) fun f => do pushLong (← getIntField f "slot").toInt64),
  ("getInt", "(Ljava/lang/Object;J)I", getDirect .int),
  ("getIntVolatile", "(Ljava/lang/Object;J)I", getDirect .int),
  ("putInt", "(Ljava/lang/Object;JI)V", putDirect .int),
  ("putIntVolatile", "(Ljava/lang/Object;JI)V", putDirect .int),
  ("putOrderedInt", "(Ljava/lang/Object;JI)V", putDirect .int),
  ("getLong", "(Ljava/lang/Object;J)J", getDirect .long),
  ("getLongVolatile", "(Ljava/lang/Object;J)J", getDirect .long),
  ("putLong", "(Ljava/lang/Object;JJ)V", putDirect .long),
  ("putLongVolatile", "(Ljava/lang/Object;JJ)V", putDirect .long),
  ("putOrderedLong", "(Ljava/lang/Object;JJ)V", putDirect .long),
  ("getObject", "(Ljava/lang/Object;J)Ljava/lang/Object;", getDirect .ref),
  ("getObjectVolatile", "(Ljava/lang/Object;J)Ljava/lang/Object;", getDirect .ref),
  ("putObject", "(Ljava/lang/Object;JLjava/lang/Object;)V", putDirect .ref),
  ("putObjectVolatile", "(Ljava/lang/Object;JLjava/lang/Object;)V", putDirect .ref),
  ("putOrderedObject", "(Ljava/lang/Object;JLjava/lang/Object;)V", putDirect .ref),
  ("compareAndSwapInt", "(Ljava/lang/Object;JII)Z", swapDirect .int),
  ("compareAndSwapLong", "(Ljava/lang/Object;JJJ)Z", swapDirect .long),
  ("compareAndSwapObject", "(Ljava/lang/Object;JLjava/lang/Object;Ljava/lang/Object;)Z", swapDirect .ref),
  ("allocateMemory", "(J)J", allocateMemory),
  ("freeMemory", "(J)V", freeMemory),
  ("putLong", "(JJ)V", fun s => do poke s (littleEndian (← localLong 3))),
  ("getLong", "(J)J", fun s => peekMemory s 8 fun bytes => pushLong (ofLittleEndian bytes)),
  ("putByte", "(JB)V", fun s => do poke s [(← localInt 3).toInt8.toUInt8]),
  ("getByte", "(J)B", fun s => peekMemory s 1 fun bytes =>
    pushInt (bytes.headD 0).toInt8.toInt32)]

end JavaMachine.Native
