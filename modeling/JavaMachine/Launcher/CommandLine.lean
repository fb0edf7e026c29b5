import JavaMachine.Number.Literal
import JavaMachine.Text.Quoted

/-!
Command lines of the launcher: options, the class to run, and its arguments. `CommandLine.normalize` brings
the launcher's own forms (`-verbose:class`, `-Xjre:dir`, `-Dname=value`) into the common form of options,
and `CommandLine.parse` reads that form.
-/

namespace JavaMachine

open Text

/-- Values by name, each name once. -/
abbrev Properties := List (String × String)

namespace Properties

/-- Sets a value; a later one takes the place of an earlier one. -/
def set (ps : Properties) (name value : String) : Properties :=
  if ps.any (·.1 == name) then ps.map fun p => if p.1 == name then (name, value) else p
  else ps ++ [(name, value)]

/-- The values of both, where the second's count first. -/
def merge (base override : Properties) : Properties := override.foldl (fun ps p => ps.set p.1 p.2) base

/-- The values sorted by name. -/
def sorted (ps : Properties) : Properties := ps.mergeSort fun a b => a.1 ≤ b.1

end Properties

/-- What a command line asks for. -/
structure CommandLine where
  classPath : String := ""
  library : String := ""
  archive : String := ""
  listed : String := ""
  verbose : Bool := false
  verboseClass : Bool := false
  logLevel : Int := -1
  logFile : String := ""
  noIndex : Bool := false
  properties : Properties := []
  mainClass : String := ""
  arguments : List String := []
deriving DecidableEq, Repr, Inhabited

/-- Why a command line cannot be read. -/
inductive ArgumentFault where
  | help
  | badSyntax (argument : String)
  | unknown (name : String)
  | needsValue (name : String)
  | badBoolean (value name : String)
  | badInteger (value name : String) (fault : Literal.Fault)
deriving DecidableEq, Repr

/-- The text of a fault. -/
def ArgumentFault.message : ArgumentFault → String
  | .help => "flag: help requested"
  | .badSyntax argument => s!"bad flag syntax: {argument}"
  | .unknown name => s!"flag provided but not defined: -{name}"
  | .needsValue name => s!"flag needs an argument: -{name}"
  | .badBoolean value name =>
    s!"invalid boolean value {Quoted.encode value} for -{name}: {Literal.Fault.malformed.message}"
  | .badInteger value name fault =>
    s!"invalid value {Quoted.encode value} for flag -{name}: {fault.message}"

/-! ## Options -/

/-- What an option does with its value. -/
inductive OptionEffect where
  | text (set : CommandLine → String → CommandLine)
  | boolean (set : CommandLine → Bool → CommandLine)
  | integer (set : CommandLine → Int → CommandLine)

/-- An option. -/
structure OptionSpec where
  name : String
  effect : OptionEffect
  usage : String

namespace CommandLine

/-- The options, sorted by name. -/
def options : List OptionSpec := [
  ⟨"Xjre", .text fun c v => { c with library := v },
    "Bootstrap class library directory (also -Xjre:<dir>)"⟩,
  ⟨"classpath", .text fun c v => { c with classPath := v }, "Same as -cp"⟩,
  ⟨"cp", .text fun c v => { c with classPath := v }, "User class path (directories, jars, dir/*)"⟩,
  ⟨"jar", .text fun c v => { c with archive := v }, "Run the Main-Class of an executable jar"⟩,
  ⟨"javap", .text fun c v => { c with listed := v }, "Disassemble a class instead of running it"⟩,
  ⟨"log-file", .text fun c v => { c with logFile := v }, "Diagnostic log file (default stderr)"⟩,
  ⟨"log-level", .integer fun c v => { c with logLevel := v },
    "Diagnostic log verbosity (overrides kopi.toml) (default -1)"⟩,
  ⟨"no-cache", .boolean fun c v => { c with noIndex := v }, "Do not use the archive index"⟩,
  ⟨"verbose", .boolean fun c v => { c with verbose := v }, "Print loaded classes and a run summary"⟩,
  ⟨"verbose-class", .boolean fun c v => { c with verboseClass := v },
    "Print loaded classes (also -verbose:class)"⟩]

/-- How an option's value is named in the usage text. -/
def valueName : OptionEffect → String
  | .text _ => " string"
  | .boolean _ => ""
  | .integer _ => " int"

/-- The usage text. -/
def usage : String :=
  "Usage: kopi [options] <main-class> [args...]\n" ++
  "       kopi [options] -jar <file.jar> [args...]\n" ++
  "       kopi [options] -javap <class>\n\nOptions:\n" ++
  String.join (options.map fun o => s!"  -{o.name}{valueName o.effect}\n    \t{o.usage}\n") ++
  "  -D<name>=<value>\n    \tSet a system property\n"

/-! ## The launcher's own forms -/

/-- The options whose value is the next argument, also where it looks like an option. -/
def takesNext : List String := ["-cp", "-classpath", "-jar", "-javap", "-log-level", "-log-file"]

/-- The name and the value of a property. -/
def property (s : String) : String × String :=
  let cs := s.toList
  (String.ofList (cs.takeWhile (· != '=')), String.ofList ((cs.dropWhile (· != '=')).drop 1))

/-- Brings the options before the main class into the common form, and takes out the properties. -/
def normalizeFrom (ps : Properties) : List String → List String × Properties
  | [] => ([], ps)
  | a :: rest =>
    let keep (out : List String) (r : List String × Properties) : List String × Properties := (out ++ r.1, r.2)
    if a = "--" ∨ !a.startsWith "-" then (a :: rest, ps)
    else if a = "-verbose:class" then keep ["-verbose-class"] (normalizeFrom ps rest)
    else if a.startsWith "-Xjre:" then keep ["-Xjre=" ++ (a.drop 6).toString] (normalizeFrom ps rest)
    else if a.startsWith "-D" ∧ a ≠ "-D" then
      let (name, value) := property (a.drop 2).toString
      normalizeFrom (ps.set name value) rest
    else if a ∈ takesNext then
      match rest with
      | v :: rest => keep [a, v] (normalizeFrom ps rest)
      | [] => ([a], ps)
    else keep [a] (normalizeFrom ps rest)

/-- Arguments in the common form, and the properties that were among them. -/
def normalize (args : List String) : List String × Properties := normalizeFrom [] args

/-! ## The common form -/

/-- An option's name, and its value if that stands in the same argument. -/
def splitOption (body : List Char) : String × Option String :=
  let name := body.takeWhile (· != '=')
  (String.ofList name, if body.contains '=' then some (String.ofList (body.drop (name.length + 1))) else none)

/-- What an argument is: the end of the options, with or without being one of the rest, or an option. -/
inductive Argument where
  | rest
  | terminator
  | option (name : String) (value : Option String)
  | malformed
deriving DecidableEq, Repr

/-- Classifies an argument. -/
def classify (a : String) : Argument :=
  let body? : Option (List Char) :=
    match a.toList with
    | '-' :: '-' :: cs => some cs
    | '-' :: c :: cs => some (c :: cs)
    | _ => none
  match body? with
  | none => .rest
  | some body =>
    if a = "--" then .terminator
    else if body.head? = none ∨ body.head? = some '-' ∨ body.head? = some '=' then .malformed
    else
      let (name, value) := splitOption body
      .option name value

/-- Sets an option that needs a value. -/
def setValue (c : CommandLine) (o : OptionSpec) (value : String) : Except ArgumentFault CommandLine :=
  match o.effect with
  | .text set => .ok (set c value)
  | .boolean set =>
    match Literal.boolean? value with
    | some b => .ok (set c b)
    | none => .error (.badBoolean value o.name)
  | .integer set =>
    match Literal.integer value with
    | .ok n => .ok (set c n)
    | .error f => .error (.badInteger value o.name f)

/-- Reads options up to the first argument that is none. -/
def parseOptions (c : CommandLine) : List String → Except ArgumentFault (CommandLine × List String)
  | [] => .ok (c, [])
  | a :: rest =>
    match classify a with
    | .rest => .ok (c, a :: rest)
    | .terminator => .ok (c, rest)
    | .malformed => .error (.badSyntax a)
    | .option name value =>
      match options.find? (·.name == name) with
      | none => .error (if name = "help" ∨ name = "h" then .help else .unknown name)
      | some o =>
        match value, o.effect with
        | some v, _ => do parseOptions (← c.setValue o v) rest
        | none, .boolean set => parseOptions (set c true) rest
        | none, _ =>
          match rest with
          | [] => .error (.needsValue name)
          | v :: rest => do parseOptions (← c.setValue o v) rest

/-- Splits what follows the options into the main class and its arguments; an archive and a listing need no
main class. -/
def withRest (c : CommandLine) (rest : List String) : CommandLine :=
  if c.archive = "" ∧ c.listed = "" then
    { c with mainClass := rest.headD "", arguments := rest.drop 1 }
  else { c with arguments := rest }

/-- Reads a command line. -/
def parse (args : List String) : Except ArgumentFault CommandLine := do
  let (args, properties) := normalize args
  let (c, rest) ← parseOptions { properties } args
  return { c with verboseClass := c.verbose || c.verboseClass }.withRest rest

end CommandLine

end JavaMachine
