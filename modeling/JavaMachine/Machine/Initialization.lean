import JavaMachine.Machine.Throwing

/-!
Initialization of classes. A class is initialized by running its initializer, after that of its superclass.
An instruction that needs a class which is not initialized is put back, and the initializers are put on the
frame stack; a call from outside runs them at once.
-/

namespace JavaMachine.Initialization

open M Throwing

/-- The state of a class as the running thread sees it; one that another thread initializes would have to be
waited for. -/
def awaitState (c : ClassId) : M ClassState := do
  let m ← get
  match (m.classAt c).state with
  | .initializing t => if t = m.current then return .initializing t else throw .stuck
  | state => return state

/-- Claims a linked class for the running thread. -/
def claim (c : ClassId) : M Bool := do
  if (← classAt c).state = .linked then
    let t := (← get).current
    setState c (.initializing t)
    return true
  return false

/-- The initializer of a class. -/
def initializer (c : ClassId) : M Method := do
  match (← classAt c).findMethod Method.clinitName "()V" with
  | some method => return if method.isStatic then method else .emptyClinit c
  | none => return .emptyClinit c

/-- What is said of a class whose initialization failed before. -/
def failedBefore (c : ClassId) : M String := return s!"Could not initialize class {(← classAt c).javaName}"

/-- The linked classes from a class up, and the class that ends them. Superinterfaces are not looked at. -/
def chain : Nat → Option ClassId → M (List ClassId × Option ClassId)
  | 0, last => return ([], last)
  | _, none => return ([], none)
  | n + 1, some c => do
    if (← awaitState c) = .linked then
      let k ← classAt c
      if k.isInterface then return ([c], some c)
      let (rest, last) ← chain n k.super
      return (c :: rest, last)
    else return ([], some c)

/-- Puts the initializers of claimed classes on the frame stack. Where one does not fit, the claims on it
and on the rest are given back. -/
def pushInitializers (s : Context) : List ClassId → M Unit
  | [] => return ()
  | c :: rest => do
    if ← pushFrame (Frame.ofMethod (← initializer c)) then
      record (.pushed c)
      pushInitializers s rest
    else
      (c :: rest).forM fun k => finishInit k .linked
      s.throwStackOverflow

/-- Claims classes in order; if one cannot be claimed the others are given back. -/
def claimAll : (claimed : List ClassId) → List ClassId → M Bool
  | _, [] => return true
  | claimed, c :: rest => do
    if ← claim c then claimAll (c :: claimed) rest
    else
      claimed.forM fun k => finishInit k .linked
      return false

/-- Puts the initializers of a class and of its superclasses on the frame stack, the outermost superclass
on top. -/
def schedule (s : Context) (c : ClassId) : M Unit := do
  let m ← get
  let (classes, last) ← chain (m.classes.size + 1) (some c)
  match last.filter fun k => (m.classAt k).state == .erroneous with
  | some k => s.throwNew Throwables.noClassDef (← failedBefore k)
  | none => if ← claimAll [] classes then pushInitializers s classes

/-- Whether a class may be used by the instruction that runs. If not, the instruction was put back and
initializers were put on the frame stack, or an exception was thrown. -/
def ensure (s : Context) (c : ClassId) : M Bool := do
  match ← awaitState c with
  | .initialized => return true
  | .initializing _ => return true
  | .erroneous =>
    s.throwNew Throwables.noClassDef (← failedBefore c)
    return false
  | _ =>
    updateActivation fun a => { a with nextPc := a.pc }
    schedule s c
    return false

/-- Gives a class up whose superclass cannot be initialized. -/
def abandon (c : ClassId) : M Unit := modify fun m => m.enter c .erroneous (.abandoned c)

/-- Initializes the superclass of a class. A class whose superclass cannot be initialized is given up. -/
def initializeSuper (s : Services) (c : ClassId) : Attempt Unit := do
  match (← get).superOf c with
  | some super =>
    tryCatch (s.initClass super) fun f => do
      abandon c
      throw f
  | none => return ()

/-- Ends an initialization that failed, unless it is over already. -/
def failClaimed (c : ClassId) : M Unit := do
  if ← isInitializing c then finishInit c .erroneous

/-- Runs the initializer of a claimed class. -/
def runClaimed (s : Services) (c : ClassId) : Attempt Unit := do
  record (.pushed c)
  tryCatch (s.runInitializer (← initializer c)) fun f => do
    failClaimed c
    throw f

/-- Initializes a class, and its superclass first, before anything else happens. -/
def initializeClass (s : Services) (c : ClassId) : Attempt Unit := do
  match ← awaitState c with
  | .initialized => return ()
  | .initializing _ => return ()
  | .erroneous => Attempt.fail Throwables.noClassDef (← failedBefore c)
  | .unlinked => Attempt.lift do fatal s!"initializing unlinked class {(← classAt c).name}"
  | .linked =>
    initializeSuper s c
    if ← claim c then runClaimed s c else s.initClass c

end JavaMachine.Initialization
