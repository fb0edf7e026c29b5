/-!
Memory outside the heap: blocks at addresses that are multiples of sixteen. An address is never handed out
twice. An access has to lie inside one block that was not freed.
-/

namespace JavaMachine

/-- A block of memory. -/
structure MemoryBlock where
  base : Int64
  data : Array UInt8
deriving DecidableEq, Repr, Inhabited

/-- Blocks that are in use, and the next address. -/
structure NativeMemory where
  next : Int64 := 0x1000
  blocks : List MemoryBlock := []
deriving DecidableEq, Repr, Inhabited

namespace NativeMemory

/-- Allocates a block of zeros. -/
def allocate (m : NativeMemory) (n : Int64) : Int64 × NativeMemory :=
  let step := ((n + 15) &&& ~~~15) + if n = 0 then 16 else 0
  (m.next, ⟨m.next + step, ⟨m.next, Array.replicate n.toInt.toNat 0⟩ :: m.blocks⟩)

/-- Frees the block at an address. -/
def free (m : NativeMemory) (address : Int64) : NativeMemory :=
  { m with blocks := m.blocks.filter (·.base != address) }

/-- Where an access leads: nowhere, to a block whose data does not have the bytes because the end of the
access is no address, or to an offset in a block. -/
inductive Access where
  | missing
  | outside
  | inside (base : Int64) (offset : Nat)
deriving DecidableEq, Repr

/-- Whether a block seems to have `n` bytes at an address; the sums wrap. -/
def claims (b : MemoryBlock) (address : Int64) (n : Nat) : Bool :=
  b.base ≤ address && address + Int64.ofNat n ≤ b.base + Int64.ofNat b.data.size

/-- Where `n` bytes at an address are. -/
def locate (m : NativeMemory) (address : Int64) (n : Nat) : Access :=
  match m.blocks.find? (claims · address n) with
  | none => .missing
  | some b =>
    let offset := (address - b.base).toInt.toNat
    if offset + n ≤ b.data.size then .inside b.base offset else .outside

/-- The block at an address. -/
def block (m : NativeMemory) (base : Int64) : MemoryBlock := (m.blocks.find? (·.base == base)).getD default

/-- Reads bytes of a block. -/
def read (m : NativeMemory) (base : Int64) (offset n : Nat) : List UInt8 :=
  ((m.block base).data.extract offset (offset + n)).toList

/-- Puts bytes into data from an offset on. -/
def put (data : Array UInt8) (offset : Nat) : List UInt8 → Array UInt8
  | [] => data
  | b :: rest => put (data.setIfInBounds offset b) (offset + 1) rest

/-- Writes bytes of a block. -/
def write (m : NativeMemory) (base : Int64) (offset : Nat) (bytes : List UInt8) : NativeMemory :=
  { m with blocks := m.blocks.map fun b =>
    if b.base = base then { b with data := put b.data offset bytes } else b }

end NativeMemory

end JavaMachine
