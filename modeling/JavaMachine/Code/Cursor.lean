import JavaMachine.Bytes.BigEndian
import JavaMachine.Code.Opcode

/-!
Reading a method body: opcodes, big-endian operands and switch tables. A reader may be put at any
position that is a 64-bit word, and positions wrap. Before a read only its end is compared with the end of
the code, so that a position outside the code is found when a byte there is asked for.
-/

namespace JavaMachine

open BigEndian

/-- Why code cannot be read. -/
inductive CodeFault where
  | overrun (pc : Int)
  | tableBounds (low high : Int32)
  | pairCount (count : Int32)
  | outside (pc : Int)
deriving DecidableEq, Repr

/-- The text of a fault. -/
def CodeFault.message : CodeFault → String
  | .overrun pc => s!"bytecode underflow at pc {pc}"
  | .tableBounds low high => s!"bytecode underflow: tableswitch bounds {low.toInt}..{high.toInt}"
  | .pairCount n => s!"bytecode underflow: lookupswitch npairs {n.toInt}"
  | .outside pc => s!"index out of range [{pc}]"

/-- A position in a code array. -/
structure CodeCursor where
  code : Array UInt8
  pos : Int := 0
deriving DecidableEq, Repr, Inhabited

/-- The position `n` bytes on, as a 64-bit word. -/
def CodeCursor.after (c : CodeCursor) (n : Int) : Int := (Int64.ofInt (c.pos + n)).toInt

/-- A reader of code; a fault leaves the cursor where it was found. -/
abbrev CodeReader (α : Type) := EStateM CodeFault CodeCursor α

/-- The table of a switch instruction, with offsets from the instruction's own position. -/
inductive SwitchTable where
  | range (default low high : Int32) (offsets : Array Int32)
  | pairs (default : Int32) (rows : List (Int32 × Int32))
deriving DecidableEq, Repr, Inhabited

/-- The offset for a key; a range whose offsets are missing has none. -/
def SwitchTable.target? : SwitchTable → Int32 → Option Int32
  | .range default low high offsets, key =>
    if key < low ∨ high < key then some default
    else
      let i := key - low
      if i < 0 then none else offsets[i.toInt.toNat]?
  | .pairs default rows, key =>
    match rows.find? fun r => r.1 == key with
    | some r => some r.2
    | none => some default

namespace CodeReader

/-- Whether bytes are left. -/
def hasMore : CodeReader Bool := do
  let c ← get
  return c.pos < c.code.size

/-- The position. -/
def position : CodeReader Int := do return (← get).pos

/-- Checks that the position `n` bytes on is not past the end of the code. -/
def need (n : Int) : CodeReader Unit := do
  let c ← get
  if c.code.size < c.after n then throw (.overrun c.pos)

/-- The byte at a distance from a position. -/
def byteAt (c : CodeCursor) (k : Nat) : UInt8 := c.code.getD (c.pos.toNat + k) 0

/-- Reads a value of fixed width. -/
def fixed (width : Int) (value : CodeCursor → α) : CodeReader α := do
  need width
  let c ← get
  if c.pos < 0 ∨ c.code.size < c.pos + width then throw (.outside c.pos)
  set { c with pos := c.pos + width }
  return value c

/-- Reads a byte. -/
def u8 : CodeReader UInt8 := fixed 1 fun c => byteAt c 0

/-- Reads a signed byte. -/
def i8 : CodeReader Int8 := return (← u8).toInt8

/-- Reads a 16-bit word. -/
def u16 : CodeReader UInt16 := fixed 2 fun c => word16 (byteAt c 0) (byteAt c 1)

/-- Reads a signed 16-bit word. -/
def i16 : CodeReader Int16 := return (← u16).toInt16

/-- Reads a signed 32-bit word. -/
def i32 : CodeReader Int32 :=
  fixed 4 fun c => (word32 (byteAt c 0) (byteAt c 1) (byteAt c 2) (byteAt c 3)).toInt32

/-- Reads at most `n` bytes until the position is a multiple of four. -/
def padding : Nat → CodeReader Unit
  | 0 => pure ()
  | n + 1 => do
    let c ← get
    if c.pos % 4 = 0 then pure ()
    else
      let _ ← u8
      padding n

/-- Goes on to the next multiple of four. -/
def skipPadding : CodeReader Unit := padding 3

/-- Moves the position, which only the end of the code bounds. -/
def skip (n : Int) : CodeReader Unit := do
  need n
  modify fun c => { c with pos := c.after n }

/-- Reads a number of signed words. -/
def words : Nat → CodeReader (List Int32)
  | 0 => pure []
  | n + 1 => do
    let v ← i32
    let vs ← words n
    return v :: vs

/-- Reads a number of pairs of signed words. -/
def wordPairs : Nat → CodeReader (List (Int32 × Int32))
  | 0 => pure []
  | n + 1 => do
    let k ← i32
    let v ← i32
    let rows ← wordPairs n
    return (k, v) :: rows

/-- Reads the operands of `tableswitch`. -/
def tableSwitch : CodeReader SwitchTable := do
  skipPadding
  let default ← i32
  let low ← i32
  let high ← i32
  let n := high.toInt - low.toInt + 1
  if n < 0 ∨ (← get).code.size < n then throw (.tableBounds low high)
  let offsets ← words n.toNat
  return .range default low high offsets.toArray

/-- Reads the operands of `lookupswitch`. -/
def lookupSwitch : CodeReader SwitchTable := do
  skipPadding
  let default ← i32
  let n ← i32
  if n < 0 ∨ (← get).code.size < n.toInt then throw (.pairCount n)
  return .pairs default (← wordPairs n.toInt.toNat)

end CodeReader

end JavaMachine
