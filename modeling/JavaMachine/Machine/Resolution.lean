import JavaMachine.Machine.Linking

/-!
Resolution of symbolic references. What an entry of a pool was resolved to is remembered, and only a
success is. An index that names no entry of the right kind is a broken invariant of the code.
-/

namespace JavaMachine.Resolution

open M

/-- The entry at an index of a class's pool. -/
def entry (c : ClassId) (index : Nat) : M PoolEntry := do
  let k ← classAt c
  match k.pool.getD index .empty with
  | .empty => fatal s!"{k.name}: bad constant pool index {index}"
  | e => return e

/-- Stops at an entry of another kind. -/
def wrongKind (c : ClassId) (index : Nat) (e : PoolEntry) (wanted : String) : M α := do
  fatal s!"{(← classAt c).name}: constant #{index} is {e.kind}, want {wanted}"

/-- Remembers what an entry was resolved to. -/
def remember (c : ClassId) (index : Nat) (e : PoolEntry) : M Unit :=
  updateClass c fun k => { k with pool := k.pool.setIfInBounds index e }

/-- Loads a class for code of another, which has to be allowed to refer to it. -/
def loadFor (s : Services) (holder : ClassId) (name : String) : Attempt ClassId := do
  let c ← s.load (← classAt holder).loader name
  let m ← get
  haltFor (m.elementHalt? c)
  if m.classAccessible holder c then return c
  Attempt.fail Throwables.illegalAccess
    s!"tried to access class {(m.classAt c).javaName} from class {(m.classAt holder).javaName}"

/-- The class that an entry names. -/
def classEntry (s : Services) (holder : ClassId) (index : Nat) : Attempt ClassId := do
  match ← entry holder index with
  | .class _ (some c) => return c
  | .class name none =>
    let c ← loadFor s holder name
    remember holder index (.class name (some c))
    return c
  | e => Attempt.lift (wrongKind holder index e "class")

/-- The owner of a member that an entry names. -/
def ownerOf (s : Services) (holder : ClassId) (name : String) : Option ClassId → Attempt ClassId
  | some c => return c
  | none => loadFor s holder name

/-- The field that an entry names. -/
def fieldEntry (s : Services) (holder : ClassId) (index : Nat) : Attempt Field := do
  match ← entry holder index with
  | .field _ _ _ _ (some f) => return f
  | .field owner name desc ownerClass none =>
    let c ← ownerOf s holder owner ownerClass
    remember holder index (.field owner name desc (some c) none)
    let m ← get
    match m.lookupField c name desc with
    | none => Attempt.fail Throwables.noSuchField name
    | some f =>
      Attempt.failIf (!m.memberAccessible holder f.owner f.flags) Throwables.illegalAccess
        s!"tried to access field {(m.classAt f.owner).javaName}.{f.name} from class {(m.classAt holder).javaName}"
      remember holder index (.field owner name desc (some c) (some f))
      return f
  | e => Attempt.lift (wrongKind holder index e "field")

/-- The method that a reference means in a class, which has to be an interface exactly if the reference is
to an interface's method. -/
def selectMethod (m : Machine) (c : ClassId) (name desc : String) (onInterface : Bool) :
    Except Failure Method :=
  let k := m.classAt c
  let missing : Failure := .java Throwables.noSuchMethod s!"{k.javaName}.{name}{desc}" none
  if onInterface then
    if k.isInterface then
      match m.lookupInterfaceMethod c name desc with
      | some method => .ok method
      | none => .error missing
    else
      .error (.java Throwables.incompatibleChange
        s!"Found class {k.javaName}, but interface was expected" none)
  else if k.isInterface then
    .error (.java Throwables.incompatibleChange
      s!"Found interface {k.javaName}, but class was expected" none)
  else
    match m.lookupMethod c name desc with
    | some method => .ok method
    | none => .error missing

/-- The method that an entry names, with the class it was looked up in. -/
def methodEntry (s : Services) (holder : ClassId) (index : Nat) : Attempt (ClassId × Method) := do
  match ← entry holder index with
  | .method _ _ _ _ (some c) (some method) => return (c, method)
  | .method owner name desc onInterface ownerClass _ =>
    let c ← ownerOf s holder owner ownerClass
    remember holder index (.method owner name desc onInterface (some c) none)
    let m ← get
    match selectMethod m c name desc onInterface with
    | .error f => throw f
    | .ok method =>
      if !m.memberAccessible holder method.owner method.flags then
        Attempt.fail Throwables.illegalAccess
          s!"tried to access method {← methodText method} from class {(m.classAt holder).javaName}"
      remember holder index (.method owner name desc onInterface (some c) (some method))
      return (c, method)
  | e => Attempt.lift (wrongKind holder index e "method")

end JavaMachine.Resolution
