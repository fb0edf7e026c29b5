import JavaMachine.Archive.Directory
import JavaMachine.Text.Utf8

/-! Writing archives whose members are stored as they are. -/

namespace JavaMachine.Archive

open Text

/-- A number in `n` bytes, the least first. -/
def leastFirst : (n value : Nat) → List UInt8
  | 0, _ => []
  | n + 1, value => UInt8.ofNat value :: leastFirst n (value / 256)

/-- What the two headers of a member have in common: the version needed up to the lengths. -/
def commonHeader (name : List UInt8) (data : Array UInt8) : List UInt8 :=
  leastFirst 2 20 ++ leastFirst 2 0x800 ++ leastFirst 2 0 ++ leastFirst 2 0 ++ leastFirst 2 0x5021 ++
    leastFirst 4 (checksum data).toNat ++ leastFirst 4 data.size ++ leastFirst 4 data.size ++
    leastFirst 2 name.length ++ leastFirst 2 0

/-- Writes members in order; `place` is where the next one starts. The result has the members, and then
the directory. -/
def buildParts : (place : Nat) → List (String × Array UInt8) → List UInt8 × List UInt8
  | _, [] => ([], [])
  | place, (name, data) :: rest =>
    let raw := Utf8.encode name
    let body := leastFirst 4 0x04034b50 ++ commonHeader raw data ++ raw ++ data.toList
    let entry := leastFirst 4 0x02014b50 ++ leastFirst 2 20 ++ commonHeader raw data ++
      leastFirst 2 0 ++ leastFirst 2 0 ++ leastFirst 2 0 ++ leastFirst 4 0 ++ leastFirst 4 place ++ raw
    let (bodies, entries) := buildParts (place + body.length) rest
    (body ++ bodies, entry ++ entries)

/-- An archive of members in order. -/
def build (members : List (String × Array UInt8)) : Array UInt8 :=
  let (bodies, entries) := buildParts 0 members
  let count := leastFirst 2 members.length
  (bodies ++ entries ++ leastFirst 4 0x06054b50 ++ leastFirst 4 0 ++ count ++ count ++
    leastFirst 4 entries.length ++ leastFirst 4 bodies.length ++ leastFirst 2 0).toArray

end JavaMachine.Archive
