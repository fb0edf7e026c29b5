import JavaMachine.Machine.Native.Basic

/-!
Native methods of the system: copying between arrays, properties, the standard streams and the end of the
program.
-/

namespace JavaMachine

/-- An array with a range replaced by a range of another. -/
def copyRange (source : Array α) (start : Nat) (target : Array α) (place count : Nat) : Array α :=
  target.extract 0 place ++ source.extract start (start + count) ++ target.extract (place + count) target.size

/-- Elements with a range replaced by a range of elements of the same kind. -/
def Elements.copyRange? (source : Elements) (start : Nat) (target : Elements) (place count : Nat) :
    Option Elements :=
  match source, target with
  | .bytes a, .bytes b => some (.bytes (copyRange a start b place count))
  | .chars a, .chars b => some (.chars (copyRange a start b place count))
  | .shorts a, .shorts b => some (.shorts (copyRange a start b place count))
  | .ints a, .ints b => some (.ints (copyRange a start b place count))
  | .longs a, .longs b => some (.longs (copyRange a start b place count))
  | .floats a, .floats b => some (.floats (copyRange a start b place count))
  | .doubles a, .doubles b => some (.doubles (copyRange a start b place count))
  | .refs a, .refs b => some (.refs (copyRange a start b place count))
  | _, _ => none

/-- Whether a name is that of an array of numbers. -/
def isNumberArray (name : String) : Bool :=
  name.utf8ByteSize == 2 && !Descriptor.isReference (name.drop 1).toString

namespace Native

open M Throwing

/-- Copies references one by one while each fits the component class, and says whether all did. -/
def copyFitting (target : Ref) (component : ClassId) : Nat → List (Option Ref) → M Bool
  | _, [] => return true
  | i, v :: rest => do
    let fits ← match v with
      | none => pure true
      | some r => isInstance r component
    if fits then
      storeElement target .ref i (.ofRef v) .null
      copyFitting target component (i + 1) rest
    else return false

/-- Copies a range whose bounds and kinds of elements were tested. -/
def copyElements (s : Services) (source target : Ref) (start place count : Nat) : M Unit := do
  match (← objectAt source).elements, (← objectAt target).elements with
  | some (.refs a), some (.refs b) =>
    let sc := (← classOf source).component
    let tc := (← classOf target).component
    let bulk ←
      match tc, sc with
      | some t, some c => M.assignable t c
      | none, none => pure true
      | _, _ => crash
    if bulk then setElements target (.refs (copyRange a start b place count))
    else
      let component ← some! tc
      if !(← copyFitting target component place (a.extract start (start + count)).toList) then
        throwNew s Throwables.arrayStore "arraycopy: element type mismatch"
  | some a, some b =>
    match a.copyRange? start b place count with
    | some changed => setElements target changed
    | none => throw (.crash s!"interface conversion: interface \x7b\x7d is {b.kindText}, not {a.kindText}")
  | _, _ => crash

/-- Copies a range of one array to another of the same kind of elements. -/
def arraycopy : Native := fun s => do
  let source ← localRef 0
  let start ← localInt 1
  let target ← localRef 2
  let place ← localInt 3
  let count ← localInt 4
  match source, target with
  | some source, some target =>
    if !(← objectAt source).isArray || !(← objectAt target).isArray then
      throwNew s Throwables.arrayStore "arraycopy: argument type mismatch"
    else
      let sc ← classOf source
      let tc ← classOf target
      if (isNumberArray sc.name || isNumberArray tc.name) &&
          (← classIdOf source) != (← classIdOf target) then
        throwNew s Throwables.arrayStore
          s!"arraycopy: type mismatch: can not copy {sc.javaName} into {tc.javaName}"
      else if (← inRange source start count) && (← inRange target place count) then
        copyElements s source target start.toInt.toNat place.toInt.toNat count.toInt.toNat
      else
        let last := start.toInt + count.toInt
        throwNew s Throwables.arrayIndex s!"arraycopy: last source index {last} out of bounds"
  | _, _ => throwNull s

/-- The system properties, the built-in ones first. -/
def properties (m : Machine) : List (String × String) := [
  ("java.version", "1.8.0"),
  ("java.vendor", "kopi"),
  ("java.specification.version", "1.8"),
  ("java.class.version", "52.0"),
  ("java.vm.name", "kopi"),
  ("java.home", m.options.javaHome),
  ("java.class.path", m.options.userClassPath),
  ("file.separator", "/"),
  ("path.separator", ":"),
  ("line.separator", "\n"),
  ("file.encoding", "UTF-8"),
  ("sun.jnu.encoding", "UTF-8"),
  ("user.dir", m.storage.disk.cwd),
  ("user.home", "/"),
  ("user.name", "user"),
  ("os.name", "Linux"),
  ("os.arch", "amd64")] ++ m.options.properties.mergeSort fun a b => a.1 ≤ b.1

/-- Hands properties to an object one by one. -/
def setProperties (s : Services) (object : Ref) : List (String × String) → Attempt Unit
  | [] => return ()
  | (name, value) :: rest => do
    let k ← newString name
    let v ← newString value
    let _ ← s.invokeVirtual (some object) "setProperty"
      "(Ljava/lang/String;Ljava/lang/String;)Ljava/lang/Object;" [.ref k, .ref v]
    setProperties s object rest

/-- Fills in the system properties. -/
def initProperties : Native := fun s => do
  notNull s (← localRef 0) fun object => do
    orThrow s (setProperties s object (properties (← get))) fun _ => pushRef (some object)

/-- Sets a static field of the class of the method that runs, if it is there. -/
def setStream (name desc : String) : Native := fun _ => do
  let c := (← activation).method.owner
  let v ← localRef 0
  match (← classAt c).findField name desc with
  | some f =>
    if f.isStatic then
      updateClass c fun k => { k with statics := k.statics.setIfInBounds f.slot (.ofRef v) }
  | none => return ()

/-- The time in nanoseconds. -/
def now : M Int64 := return Int64.ofInt (← get).storage.disk.clock

/-- The methods of the system class. -/
def system : List (String × String × Native) := [
  ("arraycopy", "(Ljava/lang/Object;ILjava/lang/Object;II)V", arraycopy),
  ("currentTimeMillis", "()J", fun _ => do pushLong ((← now) / 1000000)),
  ("nanoTime", "()J", fun _ => do pushLong (← now)),
  ("identityHashCode", "(Ljava/lang/Object;)I", fun _ => do
    match ← localRef 0 with
    | none => pushInt 0
    | some r => pushInt (← identityHash r)),
  ("initProperties", "(Ljava/util/Properties;)Ljava/util/Properties;", initProperties),
  ("setIn0", "(Ljava/io/InputStream;)V", setStream "in" "Ljava/io/InputStream;"),
  ("setOut0", "(Ljava/io/PrintStream;)V", setStream "out" "Ljava/io/PrintStream;"),
  ("setErr0", "(Ljava/io/PrintStream;)V", setStream "err" "Ljava/io/PrintStream;"),
  ("mapLibraryName", "(Ljava/lang/String;)Ljava/lang/String;", fun s => do
    notNull s (← localRef 0) fun name => do
      let text ← textOf (some name)
      pushRef (some (← newString s!"lib{text}.so")))]

/-- How many bytes of memory are reported. -/
def memorySize : Int64 := 0x4000000

/-- The methods of the run-time class. -/
def runtime : List (String × String × Native) := [
  ("availableProcessors", "()I", fun _ => pushInt 1),
  ("freeMemory", "()J", fun _ => pushLong memorySize),
  ("totalMemory", "()J", fun _ => pushLong memorySize),
  ("maxMemory", "()J", fun _ => pushLong memorySize),
  ("gc", "()V", nothing)]

/-- The methods that end the program. -/
def shutdown : List (String × String × Native) := [
  ("beforeHalt", "()V", nothing),
  ("halt0", "(I)V", fun _ => do throw (.exit (← localInt 0)))]

end Native

end JavaMachine
