import JavaMachine.Assembler.Source
import JavaMachine.Inspect.Machine

/-!
Reports on faults and failures: a kind, a message, and for exceptions of the program the throwable itself.
-/

namespace JavaMachine

/-- The fields of a report on a fault. -/
abbrev FaultReport := List (String × Report)

namespace FaultReport

/-- A fault of a kind with its text. -/
def ofKind (kind message : String) : FaultReport := [("error", .text kind), ("message", .text message)]

/-- An access that the machine's own data cannot serve. -/
def crash : FaultReport := [("error", .text "panic")]

/-- Whether a fault ends the machine. -/
def isLast (r : FaultReport) : Bool :=
  match r.lookup "error" with
  | some (.text kind) => kind ∈ ["fatal", "panic", "exit"]
  | _ => false

end FaultReport

/-- The name of a kind of format fault. -/
def FormatKind.report : FormatKind → String
  | .truncated => "truncated"
  | .badMagic => "bad_magic"
  | .unsupportedVersion => "unsupported_version"
  | .badConstant => "bad_constant"
  | .badAttribute => "bad_attribute"
  | .badIndex => "bad_index"

def FormatFault.report (f : FormatFault) : FaultReport := .ofKind f.kind.report f.message

def Descriptor.Fault.report (f : Descriptor.Fault) : FaultReport := .ofKind "bad_descriptor" f.message

def IndexFault.report (f : IndexFault) : FaultReport := .ofKind "bad_index" f.message

def CodeFault.report : CodeFault → FaultReport
  | .outside _ => .crash
  | f => .ofKind "code_overrun" f.message

def AssemblyFault.report : AssemblyFault → FaultReport
  | .markedTwice => .ofKind "panic" (AssemblyFault.message .markedTwice)
  | .missingTarget => .crash
  | .descriptor d => d.report
  | .tooFar op n => .ofKind "error" (AssemblyFault.message (.tooFar op n))
  | f => .ofKind "unmarked_label" f.message

def Halt.report : Halt → FaultReport
  | .fatal message => .ofKind "fatal" message
  | .crash _ => .crash
  | .exit status => [("error", .text "exit"), ("code", .int status.toInt)]
  | .code f => f.report
  | .stuck => .ofKind "fatal" "no progress"

/-- The kind of a failure without a cause. -/
def Failure.kind? : Failure → Option String
  | .format f => some f.kind.report
  | .constant _ => some "bad_index"
  | .encoding _ => some "bad_constant"
  | .descriptor _ => some "bad_descriptor"
  | .assembly kind _ => some kind
  | .noMain _ => some "no_main"
  | .read f => if f.isNotFound then some "class_not_found" else none
  | _ => none

/-- The exception that escaped, with the whole text if it was not all of the failure. -/
def Failure.reportThrown (m : Machine) (f : Failure) (r : Option Ref) : FaultReport :=
  let context :=
    match f with
    | .thrown _ => []
    | _ => [("text", Report.text (f.message m))]
  ("error", .text "throwable") :: (r.map m.reportThrowable).getD [] ++ context

/-- A failure. A halt comes first, then an exception that escaped, then an error that is to become one. -/
def Failure.report (m : Machine) : Failure → FaultReport
  | .java name text (some cause) =>
    let whole : Failure := .java name text (some cause)
    match whole.halt?, whole.thrown? with
    | some h, _ => h.report
    | none, some r => whole.reportThrown m r
    | none, none => vmError name text (whole.message m) ++ [("cause", .record (cause.report m))]
  | .java name text none => vmError name text (Failure.message m (.java name text none))
  | .within context inner =>
    let whole : Failure := .within context inner
    match whole.halt?, whole.thrown?, whole.java? with
    | some h, _, _ => h.report
    | none, some r, _ => whole.reportThrown m r
    | none, none, some _ =>
      (inner.report m).map fun (k, v) => if k == "text" then (k, .text (whole.message m)) else (k, v)
    | none, none, none => .ofKind ((whole.find? kind?).getD "error") (whole.message m)
  | .thrown r => Failure.reportThrown m (.thrown r) r
  | .halted h => h.report
  | f => .ofKind ((kind? f).getD "error") (f.message m)
where
  vmError (name text whole : String) : FaultReport :=
    [("error", .text "vmerror"), ("class", .text name), ("message", .text text), ("text", .text whole)]

end JavaMachine
