/-!
A file system: numbered nodes that are directories, files or archive indexes, and the current directory.
Directories refer to nodes by number, so a node that was removed from its directory can still be read by
whoever holds its number.

File paths have slashes. `Path.clean` gives the shortest equal path by text alone: no empty and no `.` elements, and each
`..` takes away the element before it.
-/

/-! ## Paths -/

namespace JavaMachine.Path

/-- Whether a path starts at the root. -/
def isAbsolute (p : String) : Bool := p.startsWith "/"

/-- The elements between slashes. -/
def elements (p : String) : List String := p.splitOn "/"

/-- Adds an element to cleaned elements in reverse order. -/
def cleanStep (rooted : Bool) (done : List String) (e : String) : List String :=
  if e = "" ∨ e = "." then done
  else if e = ".." then
    match done with
    | last :: rest => if last = ".." then ".." :: done else rest
    | [] => if rooted then [] else [".."]
  else e :: done

/-- The shortest equal path; the empty path is the current directory. -/
def clean (p : String) : String :=
  let rooted := isAbsolute p
  let parts := "/".intercalate ((elements p).foldl (cleanStep rooted) []).reverse
  if rooted then "/" ++ parts else if parts = "" then "." else parts

/-- Joins paths; leading empty ones are ignored. -/
def join (parts : List String) : String :=
  match parts.dropWhile (· == "") with
  | [] => ""
  | ps => clean ("/".intercalate ps)

/-- A path as seen from a directory. -/
def absolute (cwd p : String) : String := if isAbsolute p then clean p else join [cwd, p]

/-- All but the last element. -/
def parent (p : String) : String :=
  let front := ((elements p).dropLast)
  clean ("/".intercalate front ++ if front.isEmpty then "" else "/")

/-- The last element; that of the root is a slash. -/
def base (p : String) : String :=
  if p = "" then "."
  else ((elements p).filter (· ≠ "")).getLast?.getD "/"

/-- The elements of a path list. -/
def splitList (list : String) : List String := if list = "" then [] else list.splitOn ":"

/-- Lowers a letter, including the two letters outside ASCII whose small form is in it. -/
def lowerChar (c : Char) : Char :=
  if c = '\u0130' then 'i' else if c = '\u212a' then 'k' else c.toLower

/-- Raises a letter, including the two letters outside ASCII whose capital form is in it. -/
def upperChar (c : Char) : Char :=
  if c = '\u0131' then 'I' else if c = '\u017f' then 'S' else c.toUpper

/-- Whether a path names an archive. -/
def isArchive (p : String) : Bool :=
  let lower := p.map lowerChar
  lower.endsWith ".jar" || lower.endsWith ".zip"

end JavaMachine.Path

/-! ## Nodes -/

namespace JavaMachine

/-- Why the system refuses a request. -/
inductive Errno where
  | noEntry
  | notDirectory
  | isDirectory
  | invalid
  | nameTooLong
  | badDescriptor
deriving DecidableEq, Repr

/-- The text of a reason. -/
def Errno.message : Errno → String
  | .noEntry => "no such file or directory"
  | .notDirectory => "not a directory"
  | .isDirectory => "is a directory"
  | .invalid => "invalid argument"
  | .nameTooLong => "file name too long"
  | .badDescriptor => "bad file descriptor"

/-- A refused request. -/
structure DiskFault where
  verb : String
  path : String
  errno : Errno
deriving DecidableEq, Repr

/-- The text of a refused request. -/
def DiskFault.message (f : DiskFault) : String := s!"{f.verb} {f.path}: {f.errno.message}"

/-- What an archive index knows of one archive. -/
structure IndexRecord where
  path : String
  modified : Int
  size : Int
  names : List String
deriving DecidableEq, Repr

/-- The contents of a node. -/
inductive Contents where
  | directory (entries : List (String × Nat))
  | file (data : Array UInt8)
  | index (records : List IndexRecord)
deriving Repr, Inhabited

/-- A node with its time of modification. -/
structure Node where
  contents : Contents
  modified : Int
deriving Repr, Inhabited

/-- A file system. Node 0 is the root. Time is counted in nanoseconds and goes on with every change. -/
structure Disk where
  nodes : Array Node := #[⟨.directory [], 0⟩]
  cwd : String := "/"
  clock : Int := 1700000000000000000
deriving Repr, Inhabited

namespace Disk

/-- The number of the root. -/
def root : Nat := 0

/-- The entries of a directory node. -/
def entries? (d : Disk) (n : Nat) : Option (List (String × Nat)) :=
  match d.nodes[n]? with
  | some ⟨.directory es, _⟩ => some es
  | _ => none

/-- Whether a node is a directory. -/
def isDirectory (d : Disk) (n : Nat) : Bool := (d.entries? n).isSome

/-- The data of a file node. -/
def data (d : Disk) (n : Nat) : Array UInt8 :=
  match d.nodes[n]? with
  | some ⟨.file bytes, _⟩ => bytes
  | _ => #[]

/-- The size that the system reports for a node. -/
def sizeOf (d : Disk) (n : Nat) : Nat :=
  match d.nodes[n]? with
  | some ⟨.file bytes, _⟩ => bytes.size
  | _ => 4096

/-- The time of modification of a node. -/
def modifiedOf (d : Disk) (n : Nat) : Int := (d.nodes[n]?.map (·.modified)).getD 0

/-- Follows elements from the node at the head of a trail of nodes. -/
def walk (d : Disk) : (trail : List Nat) → List String → Except Errno (List Nat)
  | trail, [] => .ok trail
  | trail, e :: rest =>
    match d.entries? (trail.headD root) with
    | none => .error .notDirectory
    | some es =>
      if e.utf8ByteSize > 255 then .error .nameTooLong
      else if e = "" ∨ e = "." then walk d trail rest
      else if e = ".." then walk d (if trail.length ≤ 1 then trail else trail.drop 1) rest
      else
        match es.lookup e with
        | some n => walk d (n :: trail) rest
        | none => .error .noEntry

/-- The node of a path. -/
def resolve (d : Disk) (path : String) : Except Errno Nat :=
  if path = "" then .error .noEntry
  else if path.contains '\x00' then .error .invalid
  else if path.utf8ByteSize ≥ 4096 then .error .nameTooLong
  else
    let full := if Path.isAbsolute path then path else d.cwd ++ "/" ++ path
    (·.headD root) <$> d.walk [root] (Path.elements full)

/-- The node of a path, or a fault that names the request. -/
def find (d : Disk) (verb path : String) : Except DiskFault Nat :=
  (d.resolve path).mapError fun e => ⟨verb, path, e⟩

/-- Whether a path names a directory. -/
def isDirectoryPath (d : Disk) (path : String) : Bool :=
  match d.resolve path with
  | .ok n => d.isDirectory n
  | .error _ => false

/-- Whether a path names anything. -/
def existsPath (d : Disk) (path : String) : Bool := (d.resolve path).toOption.isSome

/-- The contents of a file. -/
def read (d : Disk) (path : String) : Except DiskFault (Array UInt8) := do
  let n ← d.find "open" path
  if d.isDirectory n then .error ⟨"read", path, .isDirectory⟩ else .ok (d.data n)

/-- The names in a directory, sorted, with their nodes. -/
def list (d : Disk) (path : String) : Except DiskFault (List (String × Nat)) := do
  let n ← d.find "open" path
  match d.entries? n with
  | none => .error ⟨"open", path, .notDirectory⟩
  | some es => .ok (es.mergeSort fun a b => a.1 ≤ b.1)

/-- Changes a node and marks it as modified now. -/
def update (d : Disk) (n : Nat) (contents : Contents) : Disk :=
  { d with
    nodes := d.nodes.modify n fun _ => ⟨contents, d.clock⟩
    clock := d.clock + 1 }

/-- Adds a node to a directory under a name that is free there. -/
def attach (d : Disk) (dir : Nat) (name : String) (contents : Contents) : Nat × Disk :=
  let n := d.nodes.size
  let es := ((d.entries? dir).getD []) ++ [(name, n)]
  (n, { d with
    nodes := (d.nodes.push ⟨contents, d.clock⟩).modify dir fun _ => ⟨.directory es, d.clock⟩
    clock := d.clock + 1 })

/-- The directory that a path's last element is in, and that element. -/
def place (d : Disk) (path : String) : Except Errno (Nat × String) := do
  let es := Path.elements path
  let front := es.dropLast
  let dir ←
    if front.isEmpty then d.resolve "."
    else d.resolve (let p := "/".intercalate front; if p = "" then "/" else p)
  if d.isDirectory dir then return (dir, es.getLast?.getD "") else throw .notDirectory

/-- The file at a path, which is made if there is none, and emptied if asked. -/
def openForWriting (d : Disk) (path : String) (truncate : Bool) : Except Errno (Nat × Disk) :=
  match d.resolve path with
  | .ok n =>
    if d.isDirectory n then .error .isDirectory
    else .ok (n, if truncate then d.update n (.file #[]) else d)
  | .error .noEntry => do
    if path = "" then throw .noEntry
    let (dir, name) ← d.place path
    if name = "" then throw .isDirectory
    return d.attach dir name (.file #[])
  | .error e => .error e

/-- Makes a directory and all that lead to it, given from the outermost one. -/
def makeEach (d : Disk) : List String → Except DiskFault Disk
  | [] => .ok d
  | p :: rest =>
    match d.resolve p with
    | .ok n => if d.isDirectory n then makeEach d rest else .error ⟨"mkdir", p, .notDirectory⟩
    | .error _ =>
      match d.place p with
      | .ok (dir, name) => makeEach (d.attach dir name (.directory [])).2 rest
      | .error e => .error ⟨"mkdir", p, e⟩

/-- The paths of a path's ancestors and of itself, outermost first. -/
def ancestors (path : String) : List String :=
  let es := (Path.elements path).filter (· ≠ "")
  let lead := if Path.isAbsolute path then "/" else ""
  (List.range es.length).map fun k => lead ++ "/".intercalate (es.take (k + 1))

/-- Makes a directory and all that lead to it. -/
def makeDirectories (d : Disk) (path : String) : Except DiskFault Disk := d.makeEach (ancestors path)

/-- Writes a whole file and the directories that lead to it. -/
def write (d : Disk) (path : String) (data : Array UInt8) : Except DiskFault Disk := do
  let d ← d.makeDirectories (Path.parent path)
  match d.openForWriting path true with
  | .ok (n, d) => return d.update n (.file data)
  | .error e => throw ⟨"open", path, e⟩

/-- Takes a path out of its directory. -/
def remove (d : Disk) (path : String) : Disk :=
  match d.place path with
  | .ok (dir, name) => d.update dir (.directory (((d.entries? dir).getD []).filter (·.1 ≠ name)))
  | .error _ => d

/-- The files below a node with their paths. -/
def filesBelow (d : Disk) (node : Nat) (path : String) : (fuel : Nat) → List (String × Array UInt8)
  | 0 => []
  | fuel + 1 =>
    match d.nodes[node]? with
    | some ⟨.directory es, _⟩ => es.flatMap fun (name, n) => filesBelow d n (path ++ "/" ++ name) fuel
    | some ⟨.file data, _⟩ => [(path, data)]
    | _ => []

/-- All files with their paths. -/
def files (d : Disk) : List (String × Array UInt8) := d.filesBelow root "" d.nodes.size

/-- Sets the time of modification of a path. -/
def touch (d : Disk) (path : String) (time : Int) : Disk :=
  match d.resolve path with
  | .ok n => { d with nodes := d.nodes.modify n fun x => { x with modified := time } }
  | .error _ => d

end Disk

end JavaMachine
