import JavaMachine.ClassPath.Locate
import JavaMachine.Inspect.Failure
import JavaMachine.Launcher.Run

/-!
Reports on class paths, their entries and the index, and on command lines, settings, listings and runs of the launcher.
-/

namespace JavaMachine

open Text

/-! ## Class paths -/

def ReadFault.report (f : ReadFault) : FaultReport :=
  .ofKind (if f.isNotFound then "class_not_found" else "error") f.message

def ArchiveIndex.Fault.report (f : ArchiveIndex.Fault) : FaultReport := .ofKind "error" f.message

/-- Pairs of texts. -/
def Report.pairs (ps : List (String × String)) : Report := .list (ps.map fun p => .texts [p.1, p.2])

namespace Entry

mutual

/-- An entry: its kind, its label and what it is made of. -/
def report : Entry → Report
  | .memory _ name => .texts ["memory", name]
  | .directory path => .texts ["dir", path]
  | .archive _ path => .texts ["archive", path]
  | .failing _ => .texts ["failing"]
  | .composite name members =>
    .list [.text "composite", .text (label (.composite name members)), .list (reportAll members)]
  | .layered library boot extensions user =>
    .record ([("jre", .text library), ("string", .text user.label), ("boot", report boot),
      ("user", report user)] ++ (reportAll extensions).map (("ext", ·)))

/-- Entries in order. -/
def reportAll : List Entry → List Report
  | [] => []
  | e :: rest => report e :: reportAll rest

end

/-- A class that was read, or why it was not. -/
def reportRead (act : Storage.Action (List UInt8 × String)) (s : Storage) : Report × Storage :=
  match act s with
  | .ok (bytes, origin) s => (.record [("hex", .hex bytes), ("from", .text origin)], s)
  | .error f s => (.record f.report, s)

/-- Classes that were read one after another. -/
def reportReads : List (Storage.Action (List UInt8 × String)) → Storage → List Report × Storage
  | [], s => ([], s)
  | act :: rest, s =>
    let (r, s) := reportRead act s
    let (rs, s) := reportReads rest s
    (r :: rs, s)

/-- The classes of an entry, or why they cannot be listed. -/
def reportNames (e : Entry) (s : Storage) : Option Report :=
  (e.classNames? s).map fun
    | .ok names => .texts names
    | .error f => .record f.report

end Entry

/-! ## The launcher -/

def SettingsFault.report (f : SettingsFault) : FaultReport := .ofKind "error" f.message

def ListingFault.report : ListingFault → FaultReport
  | .notFound name => .ofKind "error" (ListingFault.message (.notFound name))
  | .format name entry f => .ofKind f.kind.report (ListingFault.message (.format name entry f))
  | .code f => f.report

/-- The settings and the paths that follow from them. -/
def Settings.report (s : Settings) : Report :=
  .record [("dir", .text s.directory), ("classpath", .texts s.classPath), ("jre", .text s.library),
    ("main", .text s.mainClass), ("depth", .int s.maxDepth), ("loader", .bool s.systemLoader),
    ("verbosity", .int s.verbosity), ("logfile", .text s.logFile), ("cache", .bool s.indexed),
    ("cachepath", .text s.indexPath), ("properties", .pairs (Properties.sorted s.properties)),
    ("list", .text s.classPathList), ("jrepath", .text s.libraryPath), ("cachefile", .text s.indexFile)]

/-- A command line that was read. -/
def CommandLine.report (c : CommandLine) : Report :=
  .record [("cp", .text c.classPath), ("jre", .text c.library), ("jar", .text c.archive),
    ("javap", .text c.listed), ("verbose", .bool c.verbose), ("verboseClass", .bool c.verboseClass),
    ("logLevel", .int c.logLevel), ("logFile", .text c.logFile), ("noCache", .bool c.noIndex),
    ("main", .text c.mainClass), ("args", .texts c.arguments), ("properties", .pairs c.properties.sorted)]

def ArgumentFault.report (f : ArgumentFault) : FaultReport :=
  .ofKind (if f = .help then "help" else "flag") f.message

/-- What reading a command line gives at each stage. -/
def CommandLine.reportArguments (args : List String) (base : Option Properties) : Report :=
  let (normalized, properties) := CommandLine.normalize args
  let parsed :=
    match CommandLine.parse args with
    | .ok c => c.report
    | .error f => .record f.report
  .record ([("normalized", .texts normalized), ("properties", .pairs properties.sorted), ("parsed", parsed)] ++
    base.toList.map fun b => ("merged", .pairs (b.merge properties).sorted))

/-- The outcome of a run of the launcher. -/
def Launcher.Outcome.report (o : Launcher.Outcome) : Report :=
  .record [("code", .int o.status), ("stdout", .text (Utf8.decode o.stdout.toList)),
    ("stderr", .text (Utf8.decode o.stderr.toList))]

/-- The status that a result ends a run with, what is said about it, its text, and whether it is an error of
a class. -/
def Launcher.reportStatus (m : Machine) (className : String) : Option Failure → Report
  | none => .list [.int 0, .text "", .text "", .bool false]
  | some f =>
    let (code, text) := status m f
    .list [.int code, .text text, .text (f.message m), .bool (f.isClass m className)]

end JavaMachine
