/-! Big-endian words: the bytes of a word and the word of its bytes. -/

namespace JavaMachine.BigEndian

/-- The bytes of a 16-bit word. -/
def bytes16 (v : UInt16) : List UInt8 := [(v >>> 8).toUInt8, v.toUInt8]

/-- The bytes of a 32-bit word. -/
def bytes32 (v : UInt32) : List UInt8 :=
  [(v >>> 24).toUInt8, (v >>> 16).toUInt8, (v >>> 8).toUInt8, v.toUInt8]

/-- The bytes of a 64-bit word. -/
def bytes64 (v : UInt64) : List UInt8 := bytes32 (v >>> 32).toUInt32 ++ bytes32 v.toUInt32

/-- The 16-bit word of two bytes. -/
def word16 (a b : UInt8) : UInt16 := (a.toUInt16 <<< 8) ||| b.toUInt16

/-- The 32-bit word of four bytes. -/
def word32 (a b c d : UInt8) : UInt32 :=
  (a.toUInt32 <<< 24) ||| (b.toUInt32 <<< 16) ||| (c.toUInt32 <<< 8) ||| d.toUInt32

/-- The 64-bit word of its two halves. -/
def join32 (hi lo : UInt32) : UInt64 := (hi.toUInt64 <<< 32) ||| lo.toUInt64

/-- The low bits of an integer as a 16-bit word. -/
def low16 (n : Int) : UInt16 := UInt16.ofNat (n % 0x10000).toNat

/-- The low bits of an integer as a byte. -/
def low8 (n : Int) : UInt8 := UInt8.ofNat (n % 0x100).toNat

/-- The low bits of an integer as a 32-bit word. -/
def low32 (n : Int) : UInt32 := UInt32.ofNat (n % 0x100000000).toNat

end JavaMachine.BigEndian
