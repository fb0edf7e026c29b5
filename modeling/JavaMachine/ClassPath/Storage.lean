import JavaMachine.Archive.Directory
import JavaMachine.Disk.Basic

/-!
What class path entries read from: the disk, archives that were opened, and tables of classes in memory.
An archive that was opened keeps the node of its file and reads that node from then on. One that an index
knows is opened when a member is asked for that the index lists.
-/

namespace JavaMachine

/-- Why something on a class path cannot be read. -/
inductive ReadFault where
  | classNotFound (name : String)
  | memberNotFound
  | disk (fault : DiskFault)
  | archive (fault : Archive.Fault)
  | noLibrary
  | noSuchLibrary (path : String)
  | other (text : String)
  | within (context : String) (fault : ReadFault)
deriving DecidableEq, Repr

namespace ReadFault

/-- The text of a fault. -/
def message : ReadFault → String
  | .classNotFound name => s!"class not found: {name}"
  | .memberNotFound => "file does not exist"
  | .disk f => f.message
  | .archive f => f.message
  | .noLibrary => "cannot locate the jre directory; use -Xjre or set JAVA_HOME"
  | .noSuchLibrary path => s!"-Xjre directory {path} does not exist"
  | .other text => text
  | .within context f => s!"{context}: {f.message}"

/-- Whether a fault says that there is no such class. -/
def isNotFound : ReadFault → Bool
  | .classNotFound _ => true
  | .within _ f => f.isNotFound
  | _ => false

end ReadFault

/-- An archive on a class path. -/
structure ArchiveFile where
  path : String
  opened : Option (Nat × List Archive.Member) := none
  names : List String := []
deriving Inhabited

/-- A table of classes in memory; the first of a name counts. -/
structure ClassTable where
  label : String
  classes : List (String × List UInt8) := []
deriving Inhabited

/-- What entries read from. -/
structure Storage where
  disk : Disk := {}
  archives : Array ArchiveFile := #[]
  tables : Array ClassTable := #[]
  libraryHome : String := ""
deriving Inhabited

/-- An action on storage that may fail; what it did stays done. -/
abbrev Storage.Action (α : Type) := EStateM ReadFault Storage α

/-- Sorted texts, each once. -/
def sortedOnce (names : List String) : List String :=
  let sorted := names.mergeSort (· ≤ ·)
  sorted.foldr (fun n acc => if acc.head? = some n then acc else n :: acc) []

namespace ArchiveFile

/-- Opens the file of an archive and reads its directory. -/
def openFile (a : ArchiveFile) (d : Disk) : Except ReadFault ArchiveFile := do
  if a.opened.isSome then return a
  let context := ReadFault.within s!"open archive {a.path}"
  let n ← (d.find "open" a.path).mapError fun f => context (.disk f)
  if d.isDirectory n then throw (context (.disk ⟨"read", a.path, .isDirectory⟩))
  let ms ← (Archive.members a.path (d.data n)).mapError fun f => context (.archive f)
  return { a with opened := some (n, ms), names := sortedOnce (ms.map (·.name)) }

/-- The contents of a member of an opened archive; of members with one name the last counts. -/
def member (a : ArchiveFile) (d : Disk) (name : String) : Except ReadFault (Array UInt8) := do
  match a.opened with
  | none => throw .memberNotFound
  | some (n, ms) =>
    match ms.reverse.find? (·.name == name) with
    | none => throw .memberNotFound
    | some m =>
      (Archive.contents a.path (d.data n) m).mapError fun f => .within s!"{a.path}!{name}" (.archive f)

/-- Lets go of the file. -/
def close (a : ArchiveFile) : ArchiveFile := { a with opened := none }

end ArchiveFile

namespace Storage

/-- The archive of a number. -/
def archive (s : Storage) (id : Nat) : ArchiveFile := s.archives.getD id default

/-- Reads a member of an archive. -/
def readMember (id : Nat) (name : String) : Action (Array UInt8) := do
  let a := (← get).archive id
  if !a.names.contains name then throw .memberNotFound
  match a.openFile (← get).disk with
  | .error f => throw f
  | .ok a =>
    modify fun s => { s with archives := s.archives.setIfInBounds id a }
    match a.member (← get).disk name with
    | .ok data => return data
    | .error f => throw f

/-- Adds an archive. -/
def addArchive (a : ArchiveFile) : Action Nat := do
  let id := (← get).archives.size
  modify fun s => { s with archives := s.archives.push a }
  return id

/-- Adds a table of classes. -/
def addTable (t : ClassTable) : Action Nat := do
  let id := (← get).tables.size
  modify fun s => { s with tables := s.tables.push t }
  return id

/-- Puts a class into a table. -/
def define (id : Nat) (name : String) (bytes : List UInt8) : Action Unit :=
  modify fun s => { s with
    tables := s.tables.modify id fun t => { t with classes := (name, bytes) :: t.classes } }

end Storage

end JavaMachine
