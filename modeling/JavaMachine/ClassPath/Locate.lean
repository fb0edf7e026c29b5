import JavaMachine.ClassPath.Entry
import JavaMachine.ClassPath.Storage

/-!
From path lists to entries. An element that ends in `*` stands for the archives in a directory, one that
ends in `.jar` or `.zip` for an archive, and any other for a directory. What is missing has no classes.

Archive indexes are files that keep the member names of archives between runs. A record counts as long as the archive has
the time of modification and the size that it was stored with.
-/

/-! ## Archive indexes -/

namespace JavaMachine.ArchiveIndex

/-- Why an index cannot be used. -/
inductive Fault where
  | directory (fault : DiskFault)
  | notAnIndex
  | closed
  | storing (path : String)
deriving DecidableEq, Repr

/-- The text of a fault. -/
def Fault.message : Fault → String
  | .directory f => s!"creating cache dir: {f.message}"
  | .notAnIndex => "creating table: file is not a database (26)"
  | .closed => "sql: database is closed"
  | .storing path => s!"classcache: store {path}: sql: database is closed"

/-- Opens the index at a path, which is made if there is none, and gives its node. -/
def openAt (d : Disk) (path : String) : Except Fault (Nat × Disk) := do
  let d ← (d.makeDirectories (Path.parent path)).mapError .directory
  match d.openForWriting path false with
  | .error _ => throw .notAnIndex
  | .ok (n, d) =>
    match d.nodes[n]? with
    | some ⟨.index _, _⟩ => return (n, d)
    | _ => if (d.data n).isEmpty then return (n, d.update n (.index [])) else throw .notAnIndex

/-- The records of an index. -/
def records (d : Disk) (node : Nat) : List IndexRecord :=
  match d.nodes[node]? with
  | some ⟨.index rs, _⟩ => rs
  | _ => []

/-- The names stored for an archive that has not changed since. -/
def lookup (d : Disk) (node : Nat) (path : String) (modified size : Int) : Option (List String) :=
  ((records d node).find? fun r => r.path == path && r.modified == modified && r.size == size).map (·.names)

/-- Stores the names of an archive in place of older ones. -/
def store (d : Disk) (node : Nat) (r : IndexRecord) : Disk :=
  d.update node (.index (r :: (records d node).filter (·.path != r.path)))

/-- How many archives and names an index holds. -/
def stats (d : Disk) (node : Nat) : Nat × Nat :=
  let rs := records d node
  (rs.length, rs.foldr (fun r n => r.names.length + n) 0)

end JavaMachine.ArchiveIndex

/-! ## Path lists -/

namespace JavaMachine.Entry

open Storage

/-- Names the step that failed. -/
def inContext (context : String) (act : Action α) : Action α := fun s =>
  match act s with
  | .error f s' => .error (.within context f) s'
  | r => r

/-- Lifts a result. -/
def ofExcept (r : Except ReadFault α) : Action α :=
  match r with
  | .ok a => pure a
  | .error f => throw f

/-- An archive, whose directory is not read if an index knows its members. -/
def ofArchive (path : String) (index : Option Nat) : Action Entry := do
  let d := (← get).disk
  let full := Path.absolute d.cwd path
  let file : ArchiveFile := { path := full }
  match d.resolve full with
  | .error _ => return .archive (← addArchive file) full
  | .ok n =>
    let modified := d.modifiedOf n
    let size := d.sizeOf n
    match index.bind fun i => ArchiveIndex.lookup d i full modified size with
    | some names => return .archive (← addArchive { file with names := sortedOnce names }) full
    | none =>
      let file ← ofExcept (file.openFile d)
      if let some i := index then
        modify fun s => { s with disk := ArchiveIndex.store s.disk i ⟨full, modified, size, file.names⟩ }
      return .archive (← addArchive file) full

/-- Runs an action for each element; the first failure is reported after all have run. -/
def all (act : α → Action β) : List α → Action (List β)
  | [] => pure []
  | a :: rest => fun s =>
    match act a s with
    | .ok b s => ((b :: ·) <$> all act rest) s
    | .error f s =>
      match all act rest s with
      | .ok _ s => .error f s
      | .error _ s => .error f s

/-- The archives in a directory, by name. -/
def ofWildcard (dir : String) (index : Option Nat) : Action Entry := do
  let dir := if dir = "" then "." else dir
  let name := Path.join [dir, "*"]
  let d := (← get).disk
  match d.list dir with
  | .error f =>
    if f.errno = .noEntry then return .composite name []
    else throw (.within s!"class path {dir}*" (.disk f))
  | .ok es =>
    let files := es.filter fun e => !d.isDirectory e.2 && Path.isArchive e.1
    return .composite name (← all (ofArchive · index) (files.map fun e => Path.join [dir, e.1]))

/-- The entry of a path. -/
def ofPath (path : String) (index : Option Nat) : Action Entry := do
  if path = "*" ∨ path.endsWith "/*" then ofWildcard (path.dropEnd 1).toString index
  else if Path.isArchive path then ofArchive path index
  else return .directory (Path.absolute (← get).disk.cwd path)

/-- The entry of a path list. -/
def ofPathList (list : String) (index : Option Nat) : Action Entry := do
  match ← ((Path.splitList list).filter (· ≠ "")).mapM (ofPath · index) with
  | [e] => return e
  | es => return .composite "" es

/-- The directory of the class library: the given one, `jre` here, or `jre` in the library's home. -/
def findLibrary (option : String) : Action String := do
  let s ← get
  if option ≠ "" then
    if s.disk.isDirectoryPath option then return Path.absolute s.disk.cwd option
    else throw (.noSuchLibrary option)
  else if s.disk.isDirectoryPath "jre" then return Path.absolute s.disk.cwd "jre"
  else
    let home := Path.join [s.libraryHome, "jre"]
    if s.libraryHome ≠ "" ∧ s.disk.isDirectoryPath home then return home else throw .noLibrary

/-- The class path of a program: the archives of the class library, its extensions, and the user's path. -/
def ofProgram (library user : String) (index : Option Nat) : Action Entry := do
  let library ← findLibrary library
  let boot ← inContext "boot class path" (ofWildcard (Path.join [library, "lib"]) index)
  let ext := Path.join [library, "lib", "ext"]
  let extensions ←
    if (← get).disk.isDirectoryPath ext then
      (fun e => [e]) <$> inContext "extension class path" (ofWildcard ext index)
    else pure []
  let user ← inContext "user class path" (ofPathList (if user = "" then "." else user) index)
  return .layered library boot extensions user

end JavaMachine.Entry
