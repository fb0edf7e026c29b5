import JavaMachine.Machine.Native.Basic

/-!
Native methods of objects, classes, strings and throwables.
-/

namespace JavaMachine.Native

open M Throwing

/-! ## Objects -/

/-- A copy of the receiver, which has to be an array or cloneable. -/
def clone : Native := fun s => do
  let r ← receiver
  let o ← objectAt r
  if !o.isArray && !(← get).implementsNamed o.owner "java/lang/Cloneable" then
    throwNew s Throwables.cloneNotSupported (← classOf r).javaName
  else pushRef (some (← allocate o.clone))

/-- Tests the timeout; as monitors are never contended there is nothing to wait for. -/
def await : Native := fun s => do
  if (← localLong 1) < 0 then throwNew s Throwables.illegalArgument "timeout value is negative"

/-- The methods of objects. -/
def object : List (String × String × Native) := [
  ("hashCode", "()I", fun _ => do pushInt (← identityHash (← receiver))),
  ("getClass", "()Ljava/lang/Class;", fun _ => do
    pushRef (some (← mirror (← classIdOf (← receiver))))),
  ("clone", "()Ljava/lang/Object;", clone),
  ("notify", "()V", nothing),
  ("notifyAll", "()V", nothing),
  ("wait", "(J)V", await)]

/-! ## Classes -/

/-- The class of a primitive type by its keyword. -/
def primitiveClass : Native := fun s => do
  let name ← textOf (← localRef 0)
  match (← get).primitives.lookup name with
  | some c => pushRef (some (← mirror c))
  | none => throwNew s Throwables.classNotFound name

/-- Loads a class by name through a loader, and initializes it when asked. -/
def forName : Native := fun s => do
  notNull s (← localRef 0) fun text => do
    let name ← textOf (some text)
    let initNow := (← localInt 1) != 0
    let l ← loaderOf (← localRef 2)
    match ← (s.load l (Descriptor.slashed name)).run with
    | .error f =>
      if f.isClass (← get) Throwables.noClassDef then throwNew s Throwables.classNotFound name
      else throwFailure s f
    | .ok c =>
      let ready : Attempt Unit := if initNow then s.initClass c else pure ()
      orThrow s ready fun _ => do pushRef (some (← mirror c))

/-- The superclass; interfaces and primitive types have none. -/
def superclassOf : Native := fun _ => do
  let k ← classAt (← receiverClass)
  if k.isInterface || k.isPrimitive then pushRef none else pushRef (← mirrorOrNull k.super)

/-- The declared superinterfaces. -/
def interfacesOf : Native := fun s => do
  let k ← classAt (← receiverClass)
  orThrow s (s.loadBoot "[Ljava/lang/Class;") fun c => do
    let array ← newArray c (Int32.ofNat k.interfaces.length)
    let mirrors ← k.interfaces.mapM fun i => some <$> mirror i
    setElements array (.refs mirrors.toArray)
    pushRef (some array)

/-- Whether a class may be stored in a variable of another; objects that stand for no class are equal. -/
def assignable (target source : Option ClassId) : M Bool := do
  match target, source with
  | none, none => return true
  | some t, some c => M.assignable t c
  | none, some c => if (← classAt c).isPrimitive then return false else crash
  | some _, none => crash

/-- The class of a field descriptor as seen from a class. -/
def typeClass (s : Services) (c : ClassId) (desc : String) : Attempt ClassId := do
  Linking.describedClass s (← classAt c).loader desc

/-- A reflection object for each declared field. Its slot is the field's place. -/
def fieldObjects (s : Services) (c : ClassId) : List Field → List (Option Ref) →
    (List (Option Ref) → M Unit) → M Unit
  | [], done, next => next done.reverse
  | f :: rest, done, next =>
    orThrow s (typeClass s c f.desc) fun type =>
      withNew s "java/lang/reflect/Field" fun object => do
        setRefIfPresent object "clazz" "Ljava/lang/Class;" (some (← mirror c))
        setRefIfPresent object "name" Machine.stringDesc (some (← intern f.name))
        setRefIfPresent object "type" "Ljava/lang/Class;" (some (← mirror type))
        setIntIfPresent object "modifiers" (Int32.ofNat f.flags.bits.toNat)
        setIntIfPresent object "slot" (Int32.ofNat f.slot)
        fieldObjects s c rest (some object :: done) next

/-- The declared fields, all or the public ones. -/
def declaredFields : Native := fun s => do
  let c ← receiverClass
  let publicOnly := (← localInt 1) != 0
  orThrow s (s.loadBoot "[Ljava/lang/reflect/Field;") fun arrayClass => do
    let fields := (← classAt c).fields.filter fun f => !publicOnly || f.flags.isPublic
    fieldObjects s c fields [] fun objects => do
      let array ← newArray arrayClass (Int32.ofNat objects.length)
      setElements array (.refs objects.toArray)
      pushRef (some array)

/-- A property of the class that the receiver stands for. -/
def classProperty (p : Class → Bool) : Native := fun _ => do pushBool (p (← classAt (← receiverClass)))

/-- The methods of classes. -/
def classMethods : List (String × String × Native) := [
  ("getPrimitiveClass", "(Ljava/lang/String;)Ljava/lang/Class;", primitiveClass),
  ("desiredAssertionStatus0", "(Ljava/lang/Class;)Z", fun _ => pushBool false),
  ("getName0", "()Ljava/lang/String;", fun _ => do
    pushRef (some (← intern (← classAt (← receiverClass)).javaName))),
  ("forName0", "(Ljava/lang/String;ZLjava/lang/ClassLoader;Ljava/lang/Class;)Ljava/lang/Class;", forName),
  ("isInterface", "()Z", classProperty Class.isInterface),
  ("isArray", "()Z", fun _ => do pushBool (← isArrayClass (← receiverClass))),
  ("isPrimitive", "()Z", classProperty Class.isPrimitive),
  ("getComponentType", "()Ljava/lang/Class;", fun _ => do
    pushRef (← mirrorOrNull (← classAt (← receiverClass)).component)),
  ("getSuperclass", "()Ljava/lang/Class;", superclassOf),
  ("getInterfaces0", "()[Ljava/lang/Class;", interfacesOf),
  ("getModifiers", "()I", fun _ => do
    let bits := (← classAt (← receiverClass)).flags.bits &&& ~~~Flags.superMask
    pushInt (Int32.ofNat bits.toNat)),
  ("isAssignableFrom", "(Ljava/lang/Class;)Z", fun s => do
    notNull s (← localRef 1) fun other => do
      pushBool (← assignable (← mirrored (← receiver)) (← mirrored other))),
  ("isInstance", "(Ljava/lang/Object;)Z", fun _ => do
    match ← localRef 1 with
    | none => pushBool false
    | some r => pushBool (← assignable (← mirrored (← receiver)) (some (← classIdOf r)))),
  ("getClassLoader0", "()Ljava/lang/ClassLoader;", fun _ => do
    pushRef (← loaderMirror (← classAt (← receiverClass)).loader)),
  ("getDeclaringClass0", "()Ljava/lang/Class;", fun _ => pushRef none),
  ("getDeclaredFields0", "(Z)[Ljava/lang/reflect/Field;", declaredFields)]

/-! ## Strings -/

/-- The methods of strings. -/
def string : List (String × String × Native) := [
  ("intern", "()Ljava/lang/String;", fun _ => do pushRef (some (← internObject (← receiver))))]

/-! ## Throwables -/

/-- Keeps the stack trace of this moment with the receiver. -/
def fillInStackTrace : Native := fun _ => do
  let r ← receiver
  let trace := stackTrace (← get) r
  updateObject r fun o => { o with attached := some (.trace trace) }
  pushRef (some r)

/-- An element of the stack trace as an object. -/
def stackTraceElement : Native := fun s => do
  let elements := (← objectAt (← receiver)).trace
  let i ← localInt 1
  match if i < 0 then none else elements[i.toInt.toNat]? with
  | none => throwNew s Throwables.arrayIndex (toString i.toInt)
  | some e =>
    withNew s "java/lang/StackTraceElement" fun object => do
      setRefIfPresent object "declaringClass" Machine.stringDesc (some (← newString e.owner))
      setRefIfPresent object "methodName" Machine.stringDesc (some (← newString e.method))
      if e.file ≠ "" then
        setRefIfPresent object "fileName" Machine.stringDesc (some (← newString e.file))
      setIntIfPresent object "lineNumber" (Int32.ofInt e.line)
      pushRef (some object)

/-- The methods of throwables. -/
def throwable : List (String × String × Native) := [
  ("fillInStackTrace", "(I)Ljava/lang/Throwable;", fillInStackTrace),
  ("fillInStackTrace", "()Ljava/lang/Throwable;", fillInStackTrace),
  ("getStackTraceDepth", "()I", fun _ => do
    pushInt (Int32.ofNat (← objectAt (← receiver)).trace.length)),
  ("getStackTraceElement", "(I)Ljava/lang/StackTraceElement;", stackTraceElement)]

end JavaMachine.Native
