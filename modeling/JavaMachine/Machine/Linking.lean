import JavaMachine.ClassFile.Reader
import JavaMachine.Machine.Services
import JavaMachine.Text.Quoted
import JavaMachine.Text.Utf8

/-!
From class files to classes: the run-time pool, fields with their places, methods, and the steps of a
definition. A class is recorded after its supertypes were loaded and checked, and before its static
constants are set.
-/

namespace JavaMachine

open Text

/-! ## The parts of a class -/

/-- Why a run-time pool cannot be built: the class file breaks a rule, or an index is outside the pool. -/
inductive PoolFault where
  | failure (f : Failure)
  | outside (index size : Nat)
deriving Inhabited

/-- The run-time form of a constant at an index. -/
def PoolEntry.ofConstant (owner : String) (pool : ConstantPool) (index : Nat) :
    Option Constant → Except PoolFault PoolEntry
  | none => .ok .empty
  | some (.utf8 _) => .ok .empty
  | some (.nameAndType _ _) => .ok .empty
  | some (.int v) => .ok (.int v)
  | some (.float b) => .ok (.float b)
  | some (.long v) => .ok (.long v)
  | some (.double b) => .ok (.double b)
  | some (.string t) =>
    match pool[t.toNat]? with
    | none => .error (.outside t.toNat pool.size)
    | some (some (.utf8 raw)) =>
      match ModifiedUtf8.decode raw with
      | .ok units => .ok (.string units none)
      | .error f => .error (.failure (.java Throwables.classFormat owner (some (.encoding f))))
    | some _ =>
      .error (.failure (.java Throwables.classFormat
        s!"{owner}: string constant #{index} does not name a Utf8 entry" none))
  | some (.class n) =>
    match pool.utf8 n with
    | .ok name => .ok (.class name none)
    | .error f => .error (.failure (.java Throwables.classFormat owner (some (.constant f))))
  | some (.member kind _ _) =>
    match pool.memberRef (UInt16.ofNat index) with
    | .ok (c, name, desc) =>
      match kind with
      | .field => .ok (.field c name desc none none)
      | .method => .ok (.method c name desc false none none)
      | .interfaceMethod => .ok (.method c name desc true none none)
    | .error f => .error (.failure (.java Throwables.classFormat owner (some (.constant f))))
  | some c => .ok (.unsupported c.tag)

/-- The run-time pool of a class; the first entry that cannot be built ends it. -/
def PoolEntry.ofPool (owner : String) (pool : ConstantPool) : Except PoolFault (Array PoolEntry) :=
  pool.zipIdx.mapM fun (c, i) => if i = 0 then .ok .empty else ofConstant owner pool i c

/-- A row of an exception table, which has to lie in the code. -/
def Handler.ofRow? (length : Nat) (r : HandlerRow) : Option Handler :=
  if r.start.toNat ≥ length ∨ r.stop ≤ r.start ∨ r.stop.toNat > length ∨ r.handler.toNat ≥ length then none
  else some ⟨r.start.toNat, r.stop.toNat, r.handler.toNat, r.catchType⟩

/-- A method of a class file; the number of its class is still open. -/
def Method.ofInfo (owner : String) (pool : ConstantPool) (info : MemberInfo) : Except Failure Method := do
  let refuse (text : String) : Except Failure Method :=
    .error (.java Throwables.classFormat s!"{owner}.{info.name}{info.descriptor}: {text}" none)
  match Descriptor.parseMethod info.descriptor with
  | .error f => .error (.java Throwables.classFormat s!"{owner}.{info.name}" (some (.descriptor f)))
  | .ok type =>
    let method : Method := {
      owner := default, flags := info.flags, name := info.name, desc := info.descriptor
      argSlots := type.slots info.flags.isStatic, params := type.params, result := type.result
      exceptions := info.exceptions.filterMap fun i => (pool.className i).toOption
      annotations := info.annotations }
    if info.flags.isNative then
      return { method with
        code := #[Opcode.impdep1.toByte, (Opcode.returning type.result).toByte]
        maxStack := Descriptor.slotWidth type.result
        maxLocals := method.argSlots }
    else
      match info.code? with
      | some body =>
        let code := body.code.toArray
        if body.maxLocals.toNat < method.argSlots then
          refuse s!"max_locals {body.maxLocals.toNat} below argument size {method.argSlots}"
        else
          match body.handlers.mapM (Handler.ofRow? code.size) with
          | none => refuse "bad exception table entry"
          | some handlers =>
            return { method with
              code, handlers, maxStack := body.maxStack.toNat, maxLocals := body.maxLocals.toNat
              lines := body.lineRows }
      | none => if info.flags.isAbstract then return method else refuse "missing Code attribute"

/-- A field of a class file; the number of its class and its place are still open. -/
def Field.ofInfo (owner : String) (info : MemberInfo) : Except Failure Field :=
  if Descriptor.isField info.descriptor then
    .ok { owner := default, flags := info.flags, name := info.name, desc := info.descriptor
          constant := info.constantValue }
  else
    .error (.java Throwables.classFormat
      s!"{owner}: field {info.name} has bad descriptor {Quoted.encode info.descriptor}" none)

/-- A class of a class file, not yet linked. -/
def Class.ofFile (loader : Nat) (cf : ClassFile) : Except PoolFault Class := do
  let name := cf.className
  let pool ← PoolEntry.ofPool name cf.pool
  let fields ← (cf.fields.mapM (Field.ofInfo name)).mapError .failure
  let methods ← (cf.methods.mapM (Method.ofInfo name cf.pool)).mapError .failure
  return {
    name, loader, pool, fields, methods, flags := cf.flags, superName := cf.superName
    interfaceNames := cf.interfaceNames, sourceFile := cf.sourceFile, annotations := cf.annotations }

/-- Gives fields their places, one after the other, static ones and others apart. The result has the
fields and the next free places. -/
def layOut : (instanceNext staticNext : Nat) → List Field → List Field × Nat × Nat
  | i, s, [] => ([], i, s)
  | i, s, f :: rest =>
    if f.isStatic then
      let (fs, i', s') := layOut i (s + f.width) rest
      ({ f with slot := s } :: fs, i', s')
    else
      let (fs, i', s') := layOut (i + f.width) s rest
      ({ f with slot := i } :: fs, i', s')

/-- A class with its number in its members, its fields in place, and its static variables zero. -/
def Class.placed (k : Class) (id : ClassId) (inherited : Nat) : Class :=
  let (fields, i, s) := layOut inherited 0 (k.fields.map ({ · with owner := id }))
  { k with
    fields, instanceSlots := i, statics := Slots.ofSize s
    methods := k.methods.map ({ · with owner := id }) }

namespace Machine

/-- The class that a loader knows by a name. -/
def loaded? (m : Machine) (l : Nat) (name : String) : Option ClassId :=
  (m.loaderAt l).classes.lookup name

/-- The names that a loader knows, sorted. -/
def classNames (m : Machine) (l : Nat) : List String :=
  sortedOnce ((m.loaderAt l).classes.map (·.1))

/-- Lets a loader know a class. -/
def record (m : Machine) (l : Nat) (name : String) (c : ClassId) : Machine :=
  { m with loaders := m.loaders.modify l fun x => { x with classes := (name, c) :: x.classes } }

/-- Adds a class to the table of classes, and notes its state. -/
def addClass (m : Machine) (k : Class) : Machine × ClassId :=
  let id : ClassId := ⟨m.classes.size⟩
  let inherited := (k.super.map fun s => (m.classAt s).instanceSlots).getD 0
  ({ m with
    classes := m.classes.push (k.placed id inherited)
    journal := .state id k.state :: m.journal }, id)

/-- Adds a class of arrays, which has no fields, to the table of classes and to its loader. The loader that
was asked for it knows it too. -/
def addArrayClass (m : Machine) (k : Class) (asked : Nat) : ClassId × Machine :=
  let (m, c) := m.addClass k
  let m := { m with classes := m.classes.modify c.index fun k => { k with instanceSlots := 0 } }
  let m := m.record k.loader k.name c
  (c, if asked = k.loader then m else m.record asked k.name c)

/-- Marks a name as being defined. -/
def beginDefine (m : Machine) (l : Nat) (name : String) : Machine :=
  { m with loaders := m.loaders.modify l fun x => { x with defining := name :: x.defining } }

/-- Ends the definition of a name. -/
def endDefine (m : Machine) (l : Nat) (name : String) : Machine :=
  { m with loaders := m.loaders.modify l fun x => { x with defining := x.defining.erase name } }

end Machine

namespace M

/-- How a loader is written. -/
def loaderText (l : Nat) : M String := do
  match ← loaderMirror l with
  | none => return "bootstrap"
  | some r =>
    let hash ← identityHash r
    return s!"{(← classOf r).javaName}@{Hex.lower 0 hash.toUInt32.toNat}"

end M

namespace Linking

open M

/-- A class through a loader, and the checks on it as a superclass. -/
def superclass (s : Services) (k : Class) : Attempt (Option ClassId) := do
  if k.name = Machine.objectName then
    Attempt.failIf (k.superName ≠ "") Throwables.classFormat "java/lang/Object may not have a superclass"
    return none
  else
    Attempt.failIf (k.superName = "") Throwables.classFormat s!"{k.name} has no superclass"
    let c ← s.load k.loader k.superName
    let super ← classAt c
    Attempt.failIf super.isInterface Throwables.incompatibleChange
      s!"class {k.javaName} has interface {super.javaName} as super class"
    Attempt.failIf super.isFinal Throwables.verify
      s!"Cannot inherit from final class {super.javaName}"
    Attempt.failIf (!(← accessible k c)) Throwables.illegalAccess
      s!"class {k.javaName} cannot access its superclass {super.javaName}"
    Attempt.failIf (k.isInterface && super.name != Machine.objectName) Throwables.classFormat
      s!"interface {k.name} must extend java/lang/Object"
    return some c
where
  /-- Whether a class that has no number yet may refer to another. -/
  accessible (k : Class) (target : ClassId) : M Bool := do
    let m ← get
    haltFor (m.elementHalt? target)
    let t := m.classAt (m.elementClass target)
    return t.isPrimitive || t.isPublic || (t.loader == k.loader && t.package == k.package)

/-- The superinterfaces of a class through its loader, with the checks on them. -/
def superinterfaces (s : Services) (k : Class) : List String → Attempt (List ClassId)
  | [] => return []
  | name :: rest => do
    let c ← s.load k.loader name
    let i ← classAt c
    Attempt.failIf (!i.isInterface) Throwables.incompatibleChange
      s!"class {k.javaName} can not implement {i.javaName}, because it is not an interface"
    Attempt.failIf (!(← superclass.accessible k c)) Throwables.illegalAccess
      s!"class {k.javaName} cannot access its superinterface {i.javaName}"
    return c :: (← superinterfaces s k rest)

/-- A class with its supertypes, which are loaded through its loader. -/
def resolveSupertypes (s : Services) (k : Class) : Attempt Class := do
  let super ← superclass s k
  let interfaces ← superinterfaces s k k.interfaceNames
  return { k with super, interfaces }

/-- Loads the class of the arrays that strings keep their units in. -/
def ensureCharArrayClass (s : Services) : Attempt Unit := do
  if (← get).charArrayClass.isNone then
    let c ← s.loadBoot "[C"
    modify fun m => { m with charArrayClass := some c }

/-- Loads the classes that strings need. -/
def ensureStringClasses (s : Services) : Attempt Unit := do
  ensureCharArrayClass s
  if (← get).stringClass.isNone then
    let c ← s.loadBoot "java/lang/String"
    modify fun m => { m with stringClass := some c }

/-- The string object of a pool entry, which the entry remembers. -/
def stringConstant (c : ClassId) (index : Nat) (units : List UInt16) (known : Option Ref) : M Ref := do
  match known with
  | some r => return r
  | none =>
    let r ← internUnits units
    updateClass c fun k => { k with pool := k.pool.setIfInBounds index (.string units (some r)) }
    return r

/-- The slots of the constant of a static field. -/
def constantSlots (s : Services) (c : ClassId) (f : Field) : Attempt (List Slot) := do
  let index := f.constant.toNat
  let mismatch : Attempt (List Slot) := do
    Attempt.fail Throwables.classFormat
      s!"{← fieldText f}: ConstantValue #{index} does not match descriptor"
  match (← classAt c).pool.getD index .empty with
  | .empty => Attempt.fail Throwables.classFormat s!"{← fieldText f}: bad ConstantValue index {index}"
  | .int v => if f.desc ∈ ["I", "S", "C", "B", "Z"] then return [.num v] else mismatch
  | .float b => if f.desc = "F" then return [.ofFloat b] else mismatch
  | .long v => if f.desc = "J" then return [.lowHalf v, .highHalf v] else mismatch
  | .double b =>
    if f.desc = "D" then return [.lowHalf b.toInt64, .highHalf b.toInt64] else mismatch
  | .string units known =>
    if f.desc = Machine.stringDesc then
      ensureStringClasses s
      return [.ref (← stringConstant c index units known)]
    else mismatch
  | _ => mismatch

/-- Puts slots into static variables. -/
def putStatics (statics : Slots) (i : Nat) : List Slot → Slots
  | [] => statics
  | v :: rest => putStatics (statics.setIfInBounds i v) (i + 1) rest

/-- Sets the static fields that have constants. -/
def seed (s : Services) (c : ClassId) : List Field → Attempt Unit
  | [] => return ()
  | f :: rest => do
    if f.isStatic && f.constant != 0 then
      let slots ← constantSlots s c f
      updateClass c fun k => { k with statics := putStatics k.statics f.slot slots }
    seed s c rest

/-- Adds a class to the machine and to its loader, sets its static constants and links it. -/
def publish (s : Services) (l : Nat) (k : Class) : Attempt ClassId := do
  let c ← modifyGet fun m =>
    let (m, c) := m.addClass k
    (c, m.record l k.name c)
  seed s c (← classAt c).fields
  setState c .linked
  return c

/-- Counts a class that was loaded, and reports it if that is asked for. -/
def reportLoaded (k : Class) (size : Nat) (source : String) : M Unit := do
  modify fun m => { m with classesLoaded := m.classesLoaded + 1, classBytes := m.classBytes + size }
  if (← get).options.verbose then
    writeOut (Utf8.encode s!"[Loaded {k.javaName} from {source}]\n")

/-- Refuses to define a class that a loader knows already. -/
def refuseKnown (l : Nat) (name : String) : Attempt Unit := do
  if ((← get).loaded? l name).isSome then
    Attempt.fail Throwables.linkage
      s!"loader {← loaderText l}: attempted duplicate class definition for name: {Quoted.encode name}"

/-- Defines a class whose name is marked as being defined. -/
def defineMarked (s : Services) (l : Nat) (cf : ClassFile) (size : Nat) (source : String) :
    Attempt ClassId := do
  refuseKnown l cf.className
  match Class.ofFile l cf with
  | .error (.failure f) => throw f
  | .error (.outside i n) => Attempt.lift (M.outside i n)
  | .ok k =>
    let k ← resolveSupertypes s k
    let c ← publish s l k
    reportLoaded k size source
    return c

/-- Defines a class in a loader, which has to be there. An expected name has to be the class's own. -/
def defineClass (s : Services) (l : Nat) (expected : String) (data : List UInt8) (source : String) :
    Attempt ClassId := do
  match ClassFile.parse data with
  | .error f =>
    if f.kind = .unsupportedVersion then
      throw (.java Throwables.unsupportedVersion expected (some (.format f)))
    else throw (.java Throwables.classFormat s!"{expected}: {f.message}" (some (.format f)))
  | .ok cf =>
    let name := cf.className
    Attempt.failIf (expected ≠ "" ∧ name ≠ expected) Throwables.noClassDef
      s!"{expected} (wrong name: {name})"
    let loader ← Attempt.some! (← get).loaders[l]?
    Attempt.failIf (loader.defining.contains name) Throwables.circularity (Descriptor.dotted name)
    modify fun m => m.beginDefine l name
    ExceptT.mk ((defineMarked s l cf data.length source).run.ensuring fun m => m.endDefine l name)

/-- Defines a class in a loader, which is its source too. -/
def define (s : Services) (l : Nat) (data : List UInt8) : Attempt ClassId := do
  defineClass s l "" data (← loaderText l)

/-! ## Loading -/

/-- The class of a field descriptor as a loader sees it. -/
def describedClass (s : Services) (l : Nat) (desc : String) : Attempt ClassId := do
  match desc.toList with
  | [letter] =>
    let primitives := (← get).primitives
    Attempt.some! ((Descriptor.primitiveName? letter).bind fun n => primitives.lookup n)
  | _ => s.load l (Descriptor.toClassName desc)

/-- The class of arrays with a given name. Its loader is that of its component, and the loader that was
asked knows it too. -/
def arrayClass (s : Services) (l : Nat) (name : String) : Attempt ClassId := do
  let element := (name.drop 1).toString
  Attempt.failIf (!Descriptor.isField element) Throwables.noClassDef name
  let component ← describedClass s l element
  let owner := (← classAt component).loader
  match (← get).loaded? owner name with
  | some c =>
    modify fun m => m.record l name c
    return c
  | none =>
    let object ← s.loadBoot Machine.objectName
    let cloneable ← s.loadBoot "java/lang/Cloneable"
    let serializable ← s.loadBoot "java/io/Serializable"
    let flags : Flags :=
      ⟨((← classAt component).flags.bits &&& Flags.publicMask) ||| Flags.finalMask ||| Flags.abstractMask⟩
    let objectName := (← classAt object).name
    let interfaceNames := [(← classAt cloneable).name, (← classAt serializable).name]
    modifyGet fun m => m.addArrayClass {
      name, flags, loader := owner, superName := objectName, interfaceNames, super := some object
      interfaces := [cloneable, serializable], state := .initialized, component := some component } l

/-- Reads and defines a class of the class path. -/
def loadFile (s : Services) (name : String) : Attempt ClassId := do
  match ← onStorage (Entry.read name (← get).options.classPath) with
  | .error f => throw (.java Throwables.noClassDef name (if f.isNotFound then none else some (.read f)))
  | .ok (data, source) => defineClass s 0 name data source

/-- Asks a loader object for a class. -/
def loadThrough (s : Services) (l : Nat) (loader : Ref) (name : String) : Attempt ClassId := do
  let m ← get
  let owner := m.classOf loader
  match m.lookupMethod owner "loadClass" "(Ljava/lang/String;)Ljava/lang/Class;" with
  | some method =>
    if method.isAbstract then refuse owner else
    let argument ← newString (Descriptor.dotted name)
    let result ← tryCatch (s.invoke method [.ref loader, .ref argument]) fun f => do
      if f.isClass (← get) Throwables.classNotFound then
        throw (.java Throwables.noClassDef name (some f))
      else throw f
    let slot ← Attempt.some! result.head?
    let object := (← get).objectAt <$> slot.ref?
    match object.bind Object.mirrored? with
    | some c =>
      let k ← classAt c
      Attempt.failIf (k.name ≠ name) Throwables.noClassDef s!"{name} (wrong name: {k.name})"
      modify fun m => m.record l name c
      return c
    | none => Attempt.fail Throwables.noClassDef name
  | none => refuse owner
where
  refuse (owner : ClassId) : Attempt ClassId := do
    Attempt.fail Throwables.noClassDef
      s!"{name} (loader {(← classAt owner).javaName} has no loadClass)"

/-- The class of a name as a loader sees it. -/
def loadClass (s : Services) (l : Nat) (name : String) : Attempt ClassId := do
  match (← get).loaded? l name with
  | some c => return c
  | none =>
    if name = "" then Attempt.fail Throwables.noClassDef "empty class name"
    else if name.startsWith "[" then arrayClass s l name
    else
      match ← loaderMirror l with
      | none => loadFile s name
      | some loader => loadThrough s l loader name

/-- The class of arrays whose elements are of a class. -/
def arrayClassOf (s : Services) (c : ClassId) : Attempt ClassId := do
  let k ← classAt c
  s.load k.loader (if ← isArrayClass c then "[" ++ k.name else "[" ++ k.descriptor)

/-- A new array of strings. -/
def newStringArray (s : Services) (values : List String) : Attempt Ref := do
  let c ← arrayClassOf s (← Attempt.some! (← get).stringClass)
  let array ← newArray c (Int32.ofNat values.length)
  let strings ← values.mapM fun v => (some <$> newString v : M (Option Ref))
  setElements array (.refs strings.toArray)
  return array

end Linking

end JavaMachine
