import JavaMachine.ClassPath.Manifest
import JavaMachine.ClassPath.Storage

/-!
Class path entries: tables in memory, directories, archives, and lists of entries that are searched in
order. A search goes on to the next entry only where a class is not found; any other failure ends it.
-/

namespace JavaMachine

open Text

/-- An entry of a class path. -/
inductive Entry where
  | memory (id : Nat) (name : String)
  | directory (path : String)
  | archive (id : Nat) (path : String)
  | failing (text : String)
  | composite (name : String) (members : List Entry)
  | layered (library : String) (boot : Entry) (extensions : List Entry) (user : Entry)
deriving Repr, Inhabited

namespace Entry

mutual

/-- How an entry is written. -/
def label : Entry → String
  | .memory _ name => name
  | .directory path => path
  | .archive _ path => path
  | .failing _ => "failing"
  | .composite name members => if name ≠ "" then name else ":".intercalate (labels members)
  | .layered _ _ _ user => user.label

/-- How entries are written. -/
def labels : List Entry → List String
  | [] => []
  | e :: rest => e.label :: labels rest

end

/-- The directory of the class library that a class path has. -/
def libraryDirectory : Entry → String
  | .layered library _ _ _ => library
  | _ => ""

/-- Reads a class of a directory. -/
def readDirectory (path name : String) : Storage.Action (List UInt8 × String) := do
  match (← get).disk.read (Path.join [path, name ++ ".class"]) with
  | .ok data => return (data.toList, path)
  | .error f => throw (if f.errno = .noEntry then .classNotFound name else .disk f)

/-- Reads a class of an archive. -/
def readArchive (id : Nat) (path name : String) : Storage.Action (List UInt8 × String) :=
  try
    return ((← Storage.readMember id (name ++ ".class")).toList, path)
  catch f => throw (if f = .memberNotFound then .classNotFound name else f)

/-- Reads a class of a table. -/
def readTable (id : Nat) (name : String) : Storage.Action (List UInt8 × String) := do
  let t := (← get).tables.getD id default
  match t.classes.lookup name with
  | some bytes => return (bytes, t.label)
  | none => throw (.classNotFound name)

mutual

/-- The bytes of a class and the entry that had them. -/
def read (name : String) : Entry → Storage.Action (List UInt8 × String)
  | .memory id _ => readTable id name
  | .directory path => readDirectory path name
  | .archive id path => readArchive id path name
  | .failing text => throw (.other text)
  | .composite _ members => readFirst name members (throw (.classNotFound name))
  | .layered _ boot extensions user =>
    orElseNotFound (read name boot)
      (readFirst name extensions (orElseNotFound (read name user) (throw (.classNotFound name))))

/-- The first of entries that has a class, and else an alternative. -/
def readFirst (name : String) :
    List Entry → Storage.Action (List UInt8 × String) → Storage.Action (List UInt8 × String)
  | [], last => last
  | e :: rest, last => orElseNotFound (read name e) (readFirst name rest last)

/-- The first action, or the second if there is no such class. -/
def orElseNotFound (first second : Storage.Action (List UInt8 × String)) :
    Storage.Action (List UInt8 × String) := fun s =>
  match first s with
  | .error f s' => if f.isNotFound then second s' else .error f s'
  | r => r

end

/-- Reads a class without the user's entries. -/
def readBoot (name : String) : Entry → Storage.Action (List UInt8 × String)
  | .layered _ boot extensions _ => readFirst name (boot :: extensions) (throw (.classNotFound name))
  | _ => throw (.classNotFound name)

/-- The class files below a directory, in the order of their paths. -/
def classesBelow (d : Disk) (node : Nat) (above : String) : (fuel : Nat) → List String
  | 0 => []
  | fuel + 1 =>
    let below := ((d.entries? node).getD []).mergeSort fun a b => a.1 ≤ b.1
    below.flatMap fun (name, n) =>
      if d.isDirectory n then classesBelow d n (above ++ name ++ "/") fuel
      else if name.endsWith ".class" then [above ++ (name.dropEnd 6).toString]
      else []

/-- The classes of a directory. -/
def directoryClasses (d : Disk) (path : String) : Except ReadFault (List String) := do
  let n ← (d.find "lstat" path).mapError .disk
  if d.isDirectory n then return classesBelow d n "" d.nodes.size
  else return if path.endsWith ".class" then ["."] else []

/-- The classes among the members of an archive. -/
def archiveClasses (names : List String) : List String :=
  (names.filter (·.endsWith ".class")).map fun n => (n.dropEnd 6).toString

mutual

/-- The names of all classes of an entry, if it can list them. -/
def classNames? (s : Storage) : Entry → Option (Except ReadFault (List String))
  | .memory id _ => some (.ok (sortedOnce ((s.tables.getD id default).classes.map (·.1))))
  | .directory path => some (directoryClasses s.disk path)
  | .archive id _ => some (.ok (archiveClasses (s.archive id).names))
  | .failing _ => none
  | .composite _ members => some (classNamesOfAll s members)
  | .layered .. => none

/-- The names of all classes of entries that can list them. -/
def classNamesOfAll (s : Storage) : List Entry → Except ReadFault (List String)
  | [] => .ok []
  | e :: rest =>
    match classNames? s e with
    | none => classNamesOfAll s rest
    | some (.error f) => .error f
    | some (.ok names) => (names ++ ·) <$> classNamesOfAll s rest

end

mutual

/-- Lets go of the files of an entry. -/
def close (s : Storage) : Entry → Storage
  | .archive id _ => { s with archives := s.archives.modify id ArchiveFile.close }
  | .composite _ members => closeAll s members
  | _ => s

/-- Lets go of the files of entries. -/
def closeAll (s : Storage) : List Entry → Storage
  | [] => s
  | e :: rest => closeAll (close s e) rest

end

/-- The manifest of an archive. -/
def manifest (id : Nat) : Storage.Action Manifest := do
  let data ← Storage.readMember id "META-INF/MANIFEST.MF"
  return Manifest.ofBytes data.toList

end Entry

end JavaMachine
