import JavaMachine.Machine.Native.Table
import JavaMachine.Machine.Threads

/-!
The life of a machine: setting it up, starting the class library, and running the main method of a class.
-/

namespace JavaMachine.Boot

open M Text

/-- The depth of the frame stack where none is asked for. -/
def defaultDepth : Nat := 1024

/-- The depth of the frame stack for a wish; only positive ones count. -/
def depthFor (wish : Int) : Nat := if wish ≤ 0 then defaultDepth else wish.toNat

/-- The primitive types in the order in which their classes are made. -/
def primitiveLetters : List Char := ['V', 'Z', 'B', 'S', 'I', 'J', 'C', 'F', 'D']

/-- Adds the class of a primitive type. -/
def addPrimitive (m : Machine) (letter : Char) : Machine :=
  match Descriptor.primitiveName? letter with
  | none => m
  | some name =>
    let (m, c) := m.addClass {
      name, flags := ⟨Flags.publicMask ||| Flags.finalMask ||| Flags.abstractMask⟩
      state := .initialized, primitive := some letter }
    { m with primitives := m.primitives ++ [(name, c)] }

/-- A machine before any class is loaded. -/
def empty (options : Options) (storage : Storage) (stdin : List UInt8) : Machine :=
  primitiveLetters.foldl addPrimitive
    { options, storage, stdin, threads := #[{ name := "main" }] }

/-- What is said where there is nothing to load classes from. -/
def noClassPath : Failure := .plain "vm: no class path"

/-- Loads the classes that the machine itself needs. -/
def bootstrap (s : Services) : Attempt Unit :=
  Attempt.inContext "vm: bootstrap" do
    let _ ← s.loadBoot Machine.objectName
    let c ← s.loadBoot "java/lang/Class"
    modify fun m => { m with classClass := some c }
    Linking.ensureStringClasses s

/-! ## Starting -/

/-- A halt as the end of a run reports it: code that cannot be read is a broken invariant. -/
def recovered : Halt → Halt
  | .code f => .fatal f.message
  | h => h

/-- An attempt in which a halt is a failure too. -/
def guarded (act : Attempt α) : M (Except Failure α) := fun m =>
  match act.run m with
  | .ok r m => .ok r m
  | .error h m => .ok (.error (.halted (recovered h))) m

/-- A class that the library may lack. -/
def optionalClass (s : Services) (name : String) : Attempt (Option ClassId) :=
  tryCatch (some <$> s.loadBoot name) fun f =>
    match f.java? with
    | some (n, _, none) => if n = Throwables.noClassDef then return none else throw f
    | _ => throw f

/-- Calls a constructor of an object, if its class has it. -/
def construct (s : Services) (object : Ref) (desc : String) (args : List Slot) : Attempt Unit := do
  match (← classOf object).findMethod Method.initName desc with
  | some constructor => discard (s.invoke constructor (.ref object :: args))
  | none => return ()

/-- The constructor of threads and groups from a group and a name. -/
def groupAndName : String := "(Ljava/lang/ThreadGroup;Ljava/lang/String;)V"

/-- The group of the main thread: one named `main` within the system's, if groups can have names. -/
def mainGroup (s : Services) (groupClass : ClassId) : Attempt Ref := do
  let system ← newObject groupClass
  construct s system "()V" []
  if ((← classAt groupClass).findMethod Method.initName groupAndName).isSome then
    let group ← newObject groupClass
    let name ← newString "main"
    construct s group groupAndName [.ref system, .ref name]
    return group
  else return system

/-- Makes the object of the main thread. It is known before its constructor runs, which may ask for the
current thread. -/
def mainThread (s : Services) (groupClass threadClass : ClassId) : Attempt Unit := do
  s.initClass groupClass
  s.initClass threadClass
  let group ← mainGroup s groupClass
  let thread ← newObject threadClass
  updateObject thread fun o => { o with attached := some (.thread 0) }
  setIntIfPresent thread "priority" 5
  modify fun m => { m with threads := m.threads.modify 0 fun t => { t with mirror := some thread } }
  if ((← classAt threadClass).findMethod Method.initName groupAndName).isSome then
    let name ← newString "main"
    construct s thread groupAndName [.ref group, .ref name]

/-- Makes the object of the main thread where the library has threads. -/
def createMainThread (s : Services) : Attempt Unit := do
  match ← optionalClass s "java/lang/ThreadGroup" with
  | none => return ()
  | some groupClass =>
    match ← optionalClass s "java/lang/Thread" with
    | none => return ()
    | some threadClass => mainThread s groupClass threadClass

/-- Initializes the system class where the library has one. -/
def startSystem (s : Services) : Attempt Unit := do
  match ← optionalClass s "java/lang/System" with
  | none => return ()
  | some c =>
    Attempt.inContext "vm: initialize java.lang.System" (s.initClass c)
    match (← classAt c).findMethod "initializeSystemClass" "()V" with
    | some method =>
      if method.isStatic then
        Attempt.inContext "vm: initializeSystemClass" (discard (s.invoke method []))
    | none => return ()

/-- Asks the library for the loader of the program's classes. -/
def startLoader (s : Services) : Attempt Unit := do
  match ← optionalClass s "java/lang/ClassLoader" with
  | none => return ()
  | some c =>
    let desc := "()Ljava/lang/ClassLoader;"
    if ((← classAt c).findMethod "getSystemClassLoader" desc).isSome then
      let result ← Attempt.inContext "vm: system class loader"
        (s.invokeStatic c "getSystemClassLoader" desc [])
      match result with
      | slot :: _ => modify fun m => { m with systemLoader := slot.ref? }
      | [] => Attempt.lift (outside 0 0)

/-- Starts the class library, once. Classes that it lacks are passed over. -/
def start (s : Services) : M (Except Failure Unit) := do
  if (← get).started then return .ok ()
  guarded do
    Attempt.inContext "vm: main thread" (createMainThread s)
    startSystem s
    if (← get).options.systemLoader then startLoader s
    modify fun m => { m with started := true }

/-! ## Running -/

/-- Reports a failure of the main thread and hands it on. -/
def reporting (act : Attempt α) : Attempt α :=
  tryCatch act fun f => do
    let name := ((← get).threads.getD 0 default).name
    Threads.reportUncaught name f
    throw f

/-- The method that a program starts with. -/
def mainMethod (c : ClassId) (className : String) : Attempt Method := do
  match (← classAt c).findMethod "main" "([Ljava/lang/String;)V" with
  | some method => if method.isStatic && method.isPublic then return method else throw (.noMain className)
  | none => throw (.noMain className)

/-- Waits for all threads; a halt of one of them is a failure. -/
def awaitThreads (s : Services) : Attempt Unit := do
  Threads.giveWay s
  if let some h := (← get).threadHalt then throw (.halted (recovered h))

/-- Loads a class and runs its main method, and then the threads that were started. -/
def runMain (s : Services) (className : String) (args : List String) : M (Except Failure Unit) :=
  guarded do
    let l ← loaderOf (← get).systemLoader
    let c ← Attempt.inContext s!"could not find or load main class {className}"
      (s.load l (Descriptor.slashed className))
    let method ← mainMethod c className
    let array ← Linking.newStringArray s args
    reporting (s.initClass c)
    let _ ← reporting (s.invoke method [.ref array])
    awaitThreads s

end JavaMachine.Boot
