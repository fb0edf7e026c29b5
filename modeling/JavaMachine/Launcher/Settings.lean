import JavaMachine.ClassPath.Entry
import JavaMachine.Toml.Document

/-!
Settings of the launcher, which a file of a directory holds: where classes are, what to run and how deep,
diagnostics, the archive index, and properties of the program. Keys match without regard to case, and keys
that mean nothing are passed over.
-/

namespace JavaMachine

open Toml

/-- Settings of the launcher. -/
structure Settings where
  directory : String := ""
  classPath : List String := []
  library : String := ""
  mainClass : String := ""
  maxDepth : Int := 0
  systemLoader : Bool := true
  verbosity : Int := 0
  logFile : String := ""
  indexed : Bool := false
  indexPath : String := ""
  properties : List (String × String) := []
deriving Repr, Inhabited

/-- Why settings cannot be had. -/
inductive SettingsFault where
  | unreadable (path : String) (fault : DiskFault)
  | malformed (path : String)
  | negativeDepth (path : String)
deriving DecidableEq, Repr

/-- The text of a fault. -/
def SettingsFault.message : SettingsFault → String
  | .unreadable path f => s!"cannot read {path}: {f.message}"
  | .malformed path => s!"parse error in {path}: not a document of settings"
  | .negativeDepth path => s!"{path}: max-stack-depth must not be negative"

namespace Settings

/-- The name of the file of settings. -/
def fileName : String := "kopi.toml"

/-- The depth of the frame stack where none is set. -/
def defaultDepth : Int := 1024

/-- Where the index is where no place is set. -/
def defaultIndex : String := ".kopi/index.db"

/-- Fills in what is not set. -/
def withDefaults (s : Settings) : Settings :=
  { s with
    maxDepth := if s.maxDepth ≤ 0 then defaultDepth else s.maxDepth
    indexPath := if s.indexPath = "" then defaultIndex else s.indexPath }

/-- The settings where there is no file of them. -/
def default : Settings := withDefaults {}

/-! ## From documents -/

/-- Lowers a letter, including the two letters outside ASCII that only differ in case from one in it. -/
def foldChar (c : Char) : Char :=
  if c = '\u017f' then 's' else if c = '\u212a' then 'k' else c.toLower

/-- The text that a key holds. -/
def text? : Tree → Option String
  | .value (.text s) => some s
  | _ => none

/-- The number that a key holds. -/
def integer? : Tree → Option Int
  | .value (.integer n) => some n
  | _ => none

/-- The truth value that a key holds. -/
def boolean? : Tree → Option Bool
  | .value (.boolean b) => some b
  | _ => none

/-- The texts that a key holds. -/
def texts? : Tree → Option (List String)
  | .value (.array items) =>
    items.mapM fun
      | .text s => some s
      | _ => none
  | _ => none

/-- Takes a key of the section on running. -/
def setRuntime (s : Settings) (key : String) (n : Tree) : Option Settings :=
  match key with
  | "classpath" => do return { s with classPath := ← texts? n }
  | "jre" => do return { s with library := ← text? n }
  | "main" => do return { s with mainClass := ← text? n }
  | "max-stack-depth" => do return { s with maxDepth := ← integer? n }
  | "system-loader" => do return { s with systemLoader := ← boolean? n }
  | _ => some s

/-- Takes a key of the section on diagnostics. -/
def setLog (s : Settings) (key : String) (n : Tree) : Option Settings :=
  match key with
  | "verbosity" => do return { s with verbosity := ← integer? n }
  | "file" => do return { s with logFile := ← text? n }
  | _ => some s

/-- Takes a key of the section on the index. -/
def setCache (s : Settings) (key : String) (n : Tree) : Option Settings :=
  match key with
  | "enabled" => do return { s with indexed := ← boolean? n }
  | "path" => do return { s with indexPath := ← text? n }
  | _ => some s

/-- Takes the keys of a section, which has to be a table. -/
def setSection (set : Settings → String → Tree → Option Settings) (s : Settings) : Tree → Option Settings
  | .table entries => entries.foldlM (fun s (key, n) => set s (key.map foldChar) n) s
  | _ => none

/-- Takes properties; what is no table has none. -/
def setProperties (s : Settings) : Tree → Option Settings
  | .table entries => do
    return { s with properties := ← entries.mapM fun (key, n) => do return (key, ← text? n) }
  | _ => some s

/-- Takes a section. -/
def setTop (s : Settings) (key : String) (n : Tree) : Option Settings :=
  match key with
  | "runtime" => setSection setRuntime s n
  | "log" => setSection setLog s n
  | "cache" => setSection setCache s n
  | "properties" => setProperties s n
  | _ => some s

/-- The settings of a document. -/
def ofTable? (t : Table) : Option Settings := setSection setTop {} (.table t)

/-! ## From directories -/

/-- The settings of a directory. -/
def load (d : Disk) (directory : String) : Except SettingsFault Settings := do
  let path := Path.join [directory, fileName]
  let data ← (d.read path).mapError (.unreadable path)
  match (Document.read? data.toList).bind ofTable? with
  | none => throw (.malformed path)
  | some s =>
    if s.maxDepth < 0 then throw (.negativeDepth path)
    return { s.withDefaults with directory := Path.absolute d.cwd directory }

/-- A directory and those above it, up to the root. -/
def upward (directory : String) : List String := (Disk.ancestors directory).reverse ++ ["/"]

/-- The settings of the nearest directory that has some, from one upwards. -/
def find (d : Disk) (directory : String) : Except SettingsFault (Option Settings) :=
  let above := upward (Path.absolute d.cwd directory)
  match above.find? fun dir => d.existsPath (Path.join [dir, fileName]) with
  | some dir => some <$> load d dir
  | none => .ok none

/-! ## Paths -/

/-- A path of the settings, as seen from their directory. -/
def resolve (s : Settings) (path : String) : String :=
  if Path.isAbsolute path ∨ s.directory = "" then path else Path.join [s.directory, path]

/-- The class path as a path list. -/
def classPathList (s : Settings) : String := ":".intercalate (s.classPath.map s.resolve)

/-- The directory of the class library, or nothing. -/
def libraryPath (s : Settings) : String := if s.library = "" then "" else s.resolve s.library

/-- The place of the index. -/
def indexFile (s : Settings) : String := s.resolve s.indexPath

end Settings

end JavaMachine
