import JavaMachine.Text.Units

/-!
UTF-8 between bytes and text. `decode` is lossy: each byte that starts no valid sequence is shown as
U+FFFD and reading goes on at the next byte.
-/

namespace JavaMachine.Text.Utf8

/-- The bytes of a string. -/
def encode (s : String) : List UInt8 := s.toUTF8.toList

/-- The payload of a continuation byte within the given bounds. -/
def continuation? (lo hi b : UInt8) : Option Nat :=
  if lo ≤ b ∧ b ≤ hi then some (b.toNat % 64) else none

/-- Least and greatest second byte after a lead byte: overlong forms, surrogates and values above
U+10FFFF have none. -/
def secondBounds (lead : UInt8) : UInt8 × UInt8 :=
  if lead = 0xE0 then (0xA0, 0xBF)
  else if lead = 0xED then (0x80, 0x9F)
  else if lead = 0xF0 then (0x90, 0xBF)
  else if lead = 0xF4 then (0x80, 0x8F)
  else (0x80, 0xBF)

/-- The first character of the bytes and how many of them it takes, if they start a valid sequence. -/
def first? : List UInt8 → Option (Char × Nat)
  | [] => none
  | a :: rest =>
    if a < 0x80 then some (Char.ofNat a.toNat, 1)
    else
      let (lo, hi) := secondBounds a
      if 0xC2 ≤ a ∧ a ≤ 0xDF then
        match rest with
        | b :: _ => (continuation? 0x80 0xBF b).map fun x => (Char.ofNat (a.toNat % 32 * 64 + x), 2)
        | _ => none
      else if 0xE0 ≤ a ∧ a ≤ 0xEF then
        match rest with
        | b :: c :: _ => do
          let x ← continuation? lo hi b
          let y ← continuation? 0x80 0xBF c
          some (Char.ofNat (a.toNat % 16 * 4096 + x * 64 + y), 3)
        | _ => none
      else if 0xF0 ≤ a ∧ a ≤ 0xF4 then
        match rest with
        | b :: c :: d :: _ => do
          let x ← continuation? lo hi b
          let y ← continuation? 0x80 0xBF c
          let z ← continuation? 0x80 0xBF d
          some (Char.ofNat (a.toNat % 8 * 262144 + x * 4096 + y * 64 + z), 4)
        | _ => none
      else none

/-- The last character of bytes that are given in reverse and how many of them it takes, if they end with a valid
sequence. -/
def last? (reversed : List UInt8) : Option (Char × Nat) :=
  [1, 2, 3, 4].findSome? fun n => (first? (reversed.take n).reverse).filter fun c => c.2 == n

/-- Reads bytes, after dropping the `skip` bytes that the last character has taken. -/
def decodeChars (skip : Nat) : List UInt8 → List Char
  | [] => []
  | a :: rest =>
    match skip with
    | k + 1 => decodeChars k rest
    | 0 =>
      match first? (a :: rest) with
      | some (c, n) => c :: decodeChars (n - 1) rest
      | none => Units.replacement :: decodeChars 0 rest

/-- Bytes as text. -/
def decode (bytes : List UInt8) : String := String.ofList (decodeChars 0 bytes)

end JavaMachine.Text.Utf8
