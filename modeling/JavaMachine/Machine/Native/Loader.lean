import JavaMachine.Machine.Native.Basic

/-!
Native methods of class loaders and packages, of reflection on the frame stack, and of privileged actions.
-/

namespace JavaMachine.Native

open M Throwing

/-! ## Loaders -/

/-- The class that the bootstrap loader has for a name, or null. -/
def findBootstrapClass : Native := fun s => do
  notNull s (← localRef 1) fun name => do
    match ← (s.loadBoot (Descriptor.slashed (← textOf (some name)))).run with
    | .ok c => pushRef (some (← mirror c))
    | .error _ => pushRef none

/-- The class that the receiver knows by a name, or null. -/
def findLoadedClass : Native := fun s => do
  notNull s (← localRef 1) fun name => do
    let l ← loaderOf (← localRef 0)
    let text := Descriptor.slashed (← textOf (some name))
    pushRef (← mirrorOrNull ((← get).loaded? l text))

/-- What is said of the source of a class whose loader names none. -/
def unnamedSource : String := "__JVM_DefineClass__"

/-- Defines a class of bytes in the receiver. -/
def defineClass : Native := fun s => do
  let name ← localRef 1
  let start ← localInt 3
  let count ← localInt 4
  notNull s (← localRef 2) fun buffer => do
    if !(← inRange buffer start count) then throwNew s Throwables.arrayIndex ""
    else
      let data ← bytesIn buffer start count
      let expected := Descriptor.slashed (← textOf name)
      let source ←
        match ← localRef 6 with
        | none => pure unnamedSource
        | some r => textOf (some r)
      let l ← loaderOf (← localRef 0)
      orThrow s (Linking.defineClass s l expected data source) fun c => do
        pushRef (some (← mirror c))

/-- The methods of class loaders. -/
def classLoader : List (String × String × Native) := [
  ("findBootstrapClass", "(Ljava/lang/String;)Ljava/lang/Class;", findBootstrapClass),
  ("findLoadedClass0", "(Ljava/lang/String;)Ljava/lang/Class;", findLoadedClass),
  ("defineClass1",
    "(Ljava/lang/String;[BIILjava/security/ProtectionDomain;Ljava/lang/String;)Ljava/lang/Class;",
    defineClass),
  ("findBuiltinLib", "(Ljava/lang/String;)Ljava/lang/String;", fun _ => pushRef none)]

/-- Where the bootstrap loader has a package from, or null if it has no class of it. -/
def systemPackage : Native := fun s => do
  notNull s (← localRef 0) fun name => do
    let text ← textOf (some name)
    let package := if text.endsWith "/" then (text.dropEnd 1).toString else text
    let m ← get
    if (m.classNames 0).any fun n => Descriptor.packageOf n == package then
      pushRef (some (← newString m.options.classPath.label))
    else pushRef none

/-- The methods of packages. -/
def package : List (String × String × Native) := [
  ("getSystemPackage0", "(Ljava/lang/String;)Ljava/lang/String;", systemPackage)]

/-! ## Reflection -/

/-- The class whose method called the method that asks. -/
def callerClass : Native := fun _ => do
  match (activations (← get).frames)[2]? with
  | some a => pushRef (some (← mirror a.method.owner))
  | none => pushRef none

/-- The methods of reflection. -/
def reflection : List (String × String × Native) := [
  ("getCallerClass", "()Ljava/lang/Class;", callerClass),
  ("getClassAccessFlags", "(Ljava/lang/Class;)I", fun s => do
    notNull s (← localRef 0) fun r => do
      pushInt (Int32.ofNat (← classAt (← classBehind r)).flags.bits.toNat))]

/-- The method by which the virtual machine class prepares itself. -/
def virtualMachine : List (String × String × Native) := [("initialize", "()V", nothing)]

/-! ## Privileged actions -/

/-- Wraps an exception that has to be declared, and throws it. -/
def throwWrapped (s : Services) (failure : Failure) (exception : Ref) : M Unit :=
  withNew s "java/security/PrivilegedActionException" fun wrapper => do
    match (← classOf wrapper).findMethod Method.initName "(Ljava/lang/Exception;)V" with
    | none => throwFailure s failure
    | some constructor =>
      orThrow s (s.invoke constructor [.ref wrapper, .ref exception]) fun _ =>
        throwObject s (some wrapper)

/-- Runs an action in place. -/
def doPrivileged (wrapChecked : Bool) : Native := fun s => do
  notNull s (← localRef 0) fun action => do
    match ← (s.invokeVirtual (some action) "run" "()Ljava/lang/Object;" []).run with
    | .ok [] => outside 0 0
    | .ok (slot :: _) => pushRef slot.ref?
    | .error (.thrown (some r)) =>
      if !wrapChecked || (← get).isUnchecked (← classIdOf r) then throwFailure s (.thrown (some r))
      else throwWrapped s (.thrown (some r)) r
    | .error f => throwFailure s f

/-- The methods of the access controller. -/
def accessController : List (String × String × Native) := [
  ("doPrivileged", "(Ljava/security/PrivilegedAction;)Ljava/lang/Object;", doPrivileged false),
  ("doPrivileged",
    "(Ljava/security/PrivilegedAction;Ljava/security/AccessControlContext;)Ljava/lang/Object;",
    doPrivileged false),
  ("doPrivileged", "(Ljava/security/PrivilegedExceptionAction;)Ljava/lang/Object;", doPrivileged true),
  ("doPrivileged",
    "(Ljava/security/PrivilegedExceptionAction;Ljava/security/AccessControlContext;)Ljava/lang/Object;",
    doPrivileged true),
  ("getStackAccessControlContext", "()Ljava/security/AccessControlContext;", fun _ => pushRef none)]

end JavaMachine.Native
