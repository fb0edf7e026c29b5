import JavaMachine.ClassFile.Reader
import JavaMachine.ClassPath.Locate
import JavaMachine.Listing
import JavaMachine.Text.Hex

/-!
Listings of classes by name, and the main classes of archives. Counts and sizes are told as people read them: digits in
groups of three, and sizes in the largest unit that leaves a number of at least one.
-/

/-! ## Counts and sizes -/

namespace JavaMachine.Summary

/-- Digits in groups of three from the right. -/
def groups (digits : List Char) : List Char :=
  (List.range digits.length).flatMap fun i =>
    let left := digits.length - i
    let c := digits.getD i '0'
    if i ≠ 0 ∧ left % 3 = 0 then [',', c] else [c]

/-- A count with commas. -/
def count (n : Int) : String :=
  (if n < 0 then "-" else "") ++ String.ofList (groups (toString n.natAbs).toList)

/-- The units of sizes, each a thousand times the one before. -/
def units : List String := ["B", "kB", "MB", "GB", "TB", "PB", "EB"]

/-- The power of a thousand that a size is measured in, by logarithms of doubles. -/
def magnitude (size : UInt64) : Nat := (Float.log size.toFloat / Float.log 1000).floor.toUInt64.toNat

/-- A size in tenths of its unit, rounded in doubles. -/
def tenths (size : UInt64) : Nat :=
  (size.toFloat / Float.ofNat (Nat.pow 1000 (magnitude size)) * 10 + 0.5).floor.toUInt64.toNat

/-- Tenths as a number: with one decimal below ten, else rounded with a half to the even neighbour. -/
def measure (t : Nat) : String :=
  if t < 100 then s!"{t / 10}.{t % 10}"
  else
    let up := t % 10 > 5 ∨ (t % 10 = 5 ∧ t / 10 % 2 = 1)
    toString (if up then t / 10 + 1 else t / 10)

/-- A size with its unit. -/
def size (n : UInt64) : String :=
  if n < 10 then s!"{n.toNat} B" else measure (tenths n) ++ " " ++ units.getD (magnitude n) ""

/-- The line that sums up a run. -/
def line (classes : Int) (bytes : UInt64) (strings : Int) : String :=
  s!"[Summary: {count classes} classes loaded, {size bytes} of class data, {count strings} interned strings]\n"

end JavaMachine.Summary

/-! ## Listings -/

namespace JavaMachine

/-- Why a class is not listed. -/
inductive ListingFault where
  | notFound (name : String)
  | format (name entry : String) (fault : FormatFault)
  | code (fault : CodeFault)
deriving Repr

/-- The text of a fault. -/
def ListingFault.message : ListingFault → String
  | .notFound name => s!"class not found: {name}"
  | .format name entry f => s!"{name} (from {entry}): {f.message}"
  | .code f => f.message

/-- The listing of the class of a name. Whatever keeps it from being read, it counts as not found. -/
def Listing.ofName (e : Entry) (name : String) (s : Storage) : Except ListingFault String × Storage :=
  match e.read (Descriptor.slashed name) s with
  | .error _ s => (.error (.notFound name), s)
  | .ok (bytes, entry) s =>
    match ClassFile.parse bytes with
    | .error f => (.error (.format name entry f), s)
    | .ok cf =>
      match Listing.ofClass cf with
      | (text, none) => (.ok text, s)
      | (_, some f) => (.error (.code f), s)

/-- The main class that the manifest of an archive names. -/
def Entry.mainClassOf (path : String) : Storage.Action String := do
  match ← ofArchive path none with
  | .archive id full =>
    let m ← inContext s!"{path}: cannot read manifest" (manifest id)
    modify (Entry.close · (.archive id full))
    let name := m.get "Main-Class"
    if name = "" then throw (.other s!"no main manifest attribute, in {path}")
    return name
  | _ => throw .memberNotFound

end JavaMachine
