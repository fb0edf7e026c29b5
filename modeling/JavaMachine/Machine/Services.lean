import JavaMachine.Machine.Failure
import JavaMachine.Machine.Heap
import Std.Data.HashMap

/-!
The operations of the machine that call each other without end: loading a class may run a loader's code,
running code may load and initialize classes, and so on. Each is defined over `Services`, the others one
level down, and the knot is tied by counting levels.

Native methods are defined over `Services` too. An implementation is found by class, name and descriptor of its method,
joined by underscores.
-/

namespace JavaMachine

/-- Loading a class through a loader, initializing a class, calling a method with argument slots, and running
the initializer of a class that is claimed. -/
structure Services where
  load : (loader : Nat) → (name : String) → Attempt ClassId
  initClass : ClassId → Attempt Unit
  invoke : Method → List Slot → Attempt (List Slot)
  runInitializer : Method → Attempt Unit

/-- Operations that never answer. -/
def Services.silent : Services where
  load _ _ := throw (m := M) Halt.stuck
  initClass _ := throw (m := M) Halt.stuck
  invoke _ _ := throw (m := M) Halt.stuck
  runInitializer _ := throw (m := M) Halt.stuck

/-- Loads a class through the bootstrap loader. -/
def Services.loadBoot (s : Services) (name : String) : Attempt ClassId := s.load 0 name

/-- The implementation of a native method: arguments are the local variables of the innermost frame, and
the result is pushed on its stack. -/
abbrev Native := Services → M Unit

namespace M

/-- The text of a method: its class, name and descriptor. -/
def methodText (method : Method) : M String := do
  return s!"{(← classAt method.owner).name}.{method.name}{method.desc}"

/-- The text of a field. -/
def fieldText (f : Field) : M String := return s!"{(← classAt f.owner).name}.{f.name}:{f.desc}"

end M

namespace Machine

/-- The detail message of a throwable. -/
def detailMessage (m : Machine) (r : Ref) : String := m.text (m.refField r "detailMessage" stringDesc)

/-- The cause of a throwable; one that is its own cause has none. -/
def causeOf (m : Machine) (r : Ref) : Option Ref :=
  match m.refField r "cause" throwableDesc with
  | some c => if c = r then none else some c
  | none => none

/-- The class and message of a throwable. -/
def describe (m : Machine) (r : Ref) : String :=
  let name := (m.classAt (m.classOf r)).javaName
  let message := m.detailMessage r
  if message = "" then name else s!"{name}: {message}"

end Machine

/-- The text of a halt. -/
def Halt.text : Halt → String
  | .fatal message => s!"fatal: {message}"
  | .crash text => s!"fatal: {text}"
  | .exit status => s!"exit status {status.toInt}"
  | .code f => f.message
  | .stuck => "fatal: no progress"

/-- The text of a failure. -/
def Failure.message (m : Machine) : Failure → String
  | .java name message _ =>
    if message = "" then Descriptor.dotted name else s!"{Descriptor.dotted name}: {message}"
  | .thrown (some r) => m.describe r
  | .thrown none => "java.lang.Throwable"
  | .format f => f.message
  | .constant f => f.message
  | .encoding f => f.message
  | .descriptor f => f.message
  | .assembly _ message => message
  | .read f => f.message
  | .noMain name =>
    s!"main method not found in class {name}, please define the main method as:\n   public static void main(String[] args)"
  | .plain message => message
  | .halted h => h.text
  | .within context f => s!"{context}: {f.message m}"

/-- Whether a failure is an error or an escaped exception of a class. -/
def Failure.isClass (m : Machine) (f : Failure) (name : String) : Bool :=
  match f.java? with
  | some (n, _, _) => n == name
  | none =>
    match f.thrown? with
    | some (some r) => (m.classAt (m.classOf r)).name == name
    | _ => false

/-! ## The table of native methods -/

/-- Implementations of native methods by key. -/
structure Natives where
  table : Std.HashMap String Native := {}
deriving Inhabited

namespace Natives

/-- The key of a method. -/
def key (owner name desc : String) : String := s!"{owner}_{name}_{desc}"

/-- Adds an implementation, which takes the place of an earlier one. -/
def register (n : Natives) (owner name desc : String) (act : Native) : Natives :=
  ⟨n.table.insert (key owner name desc) act⟩

/-- The implementation of a method. -/
def find? (n : Natives) (owner name desc : String) : Option Native := n.table[key owner name desc]?

/-- Adds the implementations of methods of one class. -/
def registerAll (n : Natives) (owner : String) (methods : List (String × String × Native)) : Natives :=
  methods.foldl (fun n (name, desc, act) => n.register owner name desc act) n

/-- Whether a method without implementation does nothing: those by which a class registers its own. -/
def isRegistration (name desc : String) : Bool :=
  desc == "()V" && (name == "registerNatives" || name == "initIDs")

end Natives

end JavaMachine
