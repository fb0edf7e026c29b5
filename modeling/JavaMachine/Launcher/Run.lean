import JavaMachine.Launcher.CommandLine
import JavaMachine.Launcher.Listed
import JavaMachine.Launcher.Settings
import JavaMachine.Machine.Boot

/-!
The launcher: reads the command line and the settings, finds the class path, and lists a class or runs one.
What it prints and the status it ends with are its outcome.
-/

namespace JavaMachine.Launcher

open Text

/-- How a run ends. -/
structure Outcome where
  status : Int := 0
  stdout : Array UInt8 := #[]
  stderr : Array UInt8 := #[]
deriving Repr, Inhabited

/-- The status of a run that failed. -/
def failed : Int := 1

/-- The status of a run that broke an invariant of the machine. -/
def broken : Int := 101

/-- The status that a failure ends a run with, and what is still to be said about it. An exception that
escaped was reported when it did. -/
def status (m : Machine) (f : Failure) : Int × String :=
  match f.halt? with
  | some (.exit code) => (code.toInt, "")
  | some h => (broken, s!"kopi: {h.text}\n")
  | none =>
    match f.thrown? with
    | some _ => (failed, "")
    | none => (failed, s!"Error: {f.message m}\n")

/-- An outcome that is an error. -/
def refused (text : String) : Outcome := { status := failed, stderr := (Utf8.encode text).toArray }

/-- Makes the file of diagnostics, unless they are turned off altogether. -/
def openLog (c : CommandLine) (settings : Settings) (s : Storage) : Storage :=
  let level := if c.logLevel ≥ 0 then c.logLevel else settings.verbosity
  let path := if c.logFile = "" then settings.logFile else c.logFile
  if path = "" ∨ level < -3 then s
  else
    match s.disk.openForWriting path false with
    | .ok (_, disk) => { s with disk }
    | .error _ => s

/-- Opens the archive index if one is wanted; where there is none, the run goes on without. -/
def openIndex (c : CommandLine) (settings : Settings) (s : Storage) : Option Nat × Storage :=
  if settings.indexed && !c.noIndex then
    match ArchiveIndex.openAt s.disk settings.indexFile with
    | .ok (n, disk) => (some n, { s with disk })
    | .error _ => (none, s)
  else (none, s)

/-- The class path and the class that a command line asks to run; a listing needs no class. -/
structure Target where
  classPath : String
  mainClass : String
deriving DecidableEq, Repr

/-- Where to find what to run: the archive, or else the command line before the settings. -/
def target (c : CommandLine) (settings : Settings) : EStateM String Storage Target := fun s =>
  let path := if c.classPath = "" then settings.classPathList else c.classPath
  let check (t : Target) (s : Storage) : EStateM.Result String Storage Target :=
    if t.mainClass = "" ∧ c.listed = "" then
      if settings.mainClass = "" then .error "no main class given (see kopi -help)" s
      else .ok { t with mainClass := settings.mainClass } s
    else .ok t s
  if c.archive = "" then check ⟨path, c.mainClass⟩ s
  else
    match Entry.mainClassOf c.archive s with
    | .error f s => .error f.message s
    | .ok name s => check ⟨c.archive, name⟩ s

/-- What a machine printed, and how the run ends. -/
def finished (m : Machine) (result : Int × String) : Outcome :=
  { status := result.1, stdout := m.stdout, stderr := m.stderr ++ (Utf8.encode result.2).toArray }

/-- The status of a failure to start, which is a failure even of a program that ends well. -/
def startStatus (m : Machine) (f : Failure) : Int × String :=
  let code := (status m f).1
  (if code = 0 then failed else code,
    s!"Error occurred during initialization of VM\n{f.message m}\n")

/-- Runs a class on a machine. A halt while the machine is being set up ends the launcher itself. -/
def execute (natives : Natives) (options : Options) (verbose : Bool) (mainClass : String) (args : List String)
    (stdin : List UInt8) (s : Storage) : Except Halt Outcome × Storage :=
  let services := Interpreter.full natives
  let m := Boot.empty options s stdin
  match (Boot.bootstrap services).run m with
  | .error h m => (.error h, m.storage)
  | .ok (.error f) m => (.ok (finished m (status m f)), m.storage)
  | .ok (.ok ()) m =>
    match Boot.start services m with
    | .error h m => (.error h, m.storage)
    | .ok (.error f) m => (.ok (finished m (startStatus m f)), m.storage)
    | .ok (.ok ()) m =>
      match Boot.runMain services mainClass args m with
      | .error h m => (.error h, m.storage)
      | .ok r m =>
        let text := if verbose then Summary.line m.classesLoaded (UInt64.ofNat m.classBytes) m.interned.size else ""
        let m := { m with stdout := m.stdout ++ (Utf8.encode text).toArray }
        match r with
        | .ok () => (.ok (finished m (0, "")), m.storage)
        | .error f => (.ok (finished m (status m f)), m.storage)

/-- The paths that a command line and settings name, and where the class library is looked for. -/
def places (c : CommandLine) (settings : Settings) (home : String) : List String :=
  let lists := [c.classPath, settings.classPathList].flatMap Path.splitList
  let plain := lists.map fun p => if p.endsWith "*" then (p.dropEnd 1).toString else p
  (plain ++ [c.archive, c.library, settings.libraryPath, Path.join [home, "jre"]]).filter (· ≠ "")

/-- Carries out a command line with settings. -/
def perform (natives : Natives) (c : CommandLine) (settings : Settings) (stdin : List UInt8) (s : Storage) :
    Except Halt Outcome × Storage :=
  let (index, s) := openIndex c settings (openLog c settings s)
  match target c settings s with
  | .error text s => (.ok (refused s!"Error: {text}\n"), s)
  | .ok t s =>
    let library := if c.library = "" then settings.libraryPath else c.library
    match Entry.ofProgram library t.classPath index s with
    | .error f s => (.ok (refused s!"Error: {f.message}\n"), s)
    | .ok path s =>
      if c.listed ≠ "" then
        match Listing.ofName path c.listed s with
        | (.ok text, s) => (.ok { stdout := (Utf8.encode text).toArray }, s)
        | (.error (.code f), s) => (.error (.code f), s)
        | (.error f, s) => (.ok (refused s!"Error: {f.message}\n"), s)
      else
        let options : Options := {
          classPath := path
          userClassPath := path.label
          javaHome := path.libraryDirectory
          maxDepth := Boot.depthFor settings.maxDepth
          verbose := c.verboseClass
          systemLoader := settings.systemLoader
          properties := Properties.merge settings.properties c.properties }
        execute natives options c.verbose t.mainClass c.arguments stdin s

/-- Runs the launcher in the current directory of the disk. -/
def run (natives : Natives) (args : List String) (stdin : List UInt8) (s : Storage) :
    Except Halt Outcome × Storage :=
  match CommandLine.parse args with
  | .error .help => (.ok { stderr := (Utf8.encode CommandLine.usage).toArray }, s)
  | .error f => (.ok (refused s!"{f.message}\n{CommandLine.usage}Error: {f.message}\n"), s)
  | .ok c =>
    match Settings.find s.disk "." with
    | .error f => (.ok (refused s!"Error: {f.message}\n"), s)
    | .ok settings => perform natives c (settings.getD Settings.default) stdin s

end JavaMachine.Launcher
