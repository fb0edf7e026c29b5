import JavaMachine.Machine.State

/-!
The hierarchy of loaded classes: looking up members by name and descriptor, and the relations between
types. A superclass or superinterface is always older than the class, so the number of classes bounds
every walk.
-/

namespace JavaMachine

namespace Machine

/-- The superclass that is initialized before a class; interfaces have none. -/
def superOf (m : Machine) (c : ClassId) : Option ClassId :=
  if (m.classAt c).isInterface then none else (m.classAt c).super

/-- A class and its superclasses, innermost first, at most `n` steps up. -/
def lineageWithin (m : Machine) : Nat → ClassId → List ClassId
  | 0, c => [c]
  | n + 1, c =>
    match (m.classAt c).super with
    | some s => c :: m.lineageWithin n s
    | none => [c]

/-- A class and its superclasses, innermost first. -/
def lineage (m : Machine) (c : ClassId) : List ClassId := m.lineageWithin m.classes.size c

/-- Looks for a field in a class, in its superinterfaces, and then in the superclass likewise. -/
def lookupFieldWithin (m : Machine) (name desc : String) : Nat → ClassId → Option Field
  | 0, _ => none
  | n + 1, c =>
    let k := m.classAt c
    (k.findField name desc).orElse fun _ =>
      (k.interfaces.findSome? (m.lookupFieldWithin name desc n)).orElse fun _ =>
        k.super.bind (m.lookupFieldWithin name desc n)

/-- The field that a name and a descriptor mean in a class. -/
def lookupField (m : Machine) (c : ClassId) (name desc : String) : Option Field :=
  m.lookupFieldWithin name desc (m.classes.size + 1) c

/-- The method of that name and descriptor that the class or its nearest superclass declares. -/
def lookupClassMethod (m : Machine) (c : ClassId) (name desc : String) : Option Method :=
  (m.lineage c).findSome? fun k => (m.classAt k).findMethod name desc

/-- A search of superinterfaces: those seen, the first abstract declaration, and what was found. -/
structure InterfaceSearch where
  seen : List ClassId := []
  declared : Option Method := none
  found : Option Method := none

/-- Looks at what one interface declares. -/
def InterfaceSearch.visit (s : InterfaceSearch) (i : ClassId) (own : Option Method) : InterfaceSearch :=
  let s := { s with seen := i :: s.seen }
  match own with
  | some method =>
    if method.isStatic || method.isPrivate then s
    else if method.isAbstract then { s with declared := s.declared.orElse fun _ => some method }
    else { s with found := some method }
  | none => s

/-- Looks at the superinterfaces of a class, each once and before its own, until a method with a body is
found. -/
def searchInterfaces (m : Machine) (name desc : String) : Nat → ClassId → InterfaceSearch → InterfaceSearch
  | 0, _, s => s
  | n + 1, c, s =>
    (m.classAt c).interfaces.foldl (fun s i =>
      if s.found.isSome || s.seen.contains i then s
      else
        let s := s.visit i ((m.classAt i).findMethod name desc)
        if s.found.isSome then s else m.searchInterfaces name desc n i s) s

/-- The method that the superinterfaces of a class and of its superclasses declare; one with a body wins. -/
def lookupInterfaces (m : Machine) (c : ClassId) (name desc : String) : Option Method :=
  let s := (m.lineage c).foldl (fun s k =>
    if s.found.isSome then s else m.searchInterfaces name desc (m.classes.size + 1) k s) {}
  s.found.orElse fun _ => s.declared

/-- The method that a name and a descriptor mean in a class. -/
def lookupMethod (m : Machine) (c : ClassId) (name desc : String) : Option Method :=
  (m.lookupClassMethod c name desc).orElse fun _ => m.lookupInterfaces c name desc

/-- The method that a name and a descriptor mean in an interface. -/
def lookupInterfaceMethod (m : Machine) (c : ClassId) (name desc : String) : Option Method :=
  let k := m.classAt c
  (k.findMethod name desc).orElse fun _ =>
    (m.lookupInterfaces c name desc).orElse fun _ =>
      match k.super.bind fun s => (m.classAt s).findMethod name desc with
      | some method => if method.isPublic && !method.isStatic then some method else none
      | none => none

/-- Whether a class is a strict superclass of another. -/
def isSubclassOf (m : Machine) (c other : ClassId) : Bool := ((m.lineage c).drop 1).contains other

/-- Whether an interface is among the superinterfaces of a class, at most `n` steps up. -/
def hasInterfaceWithin (m : Machine) (target : ClassId) : Nat → ClassId → Bool
  | 0, _ => false
  | n + 1, c => (m.classAt c).interfaces.any fun i => i == target || m.hasInterfaceWithin target n i

/-- Whether an interface extends another. -/
def isSubinterfaceOf (m : Machine) (c target : ClassId) : Bool :=
  m.hasInterfaceWithin target (m.classes.size + 1) c

/-- Whether a class or one of its superclasses implements an interface. -/
def implements (m : Machine) (c target : ClassId) : Bool :=
  (m.lineage c).any fun k => m.isSubinterfaceOf k target

/-- Whether a class has a superinterface of a name, at most `n` steps up. -/
def implementsNamedWithin (m : Machine) (name : String) : Nat → ClassId → Bool
  | 0, _ => false
  | n + 1, c =>
    let k := m.classAt c
    (k.interfaces.any fun i => (m.classAt i).name == name || m.implementsNamedWithin name n i) ||
      (k.super.map (m.implementsNamedWithin name n)).getD false

/-- Whether a class has a superinterface of a name. -/
def implementsNamed (m : Machine) (c : ClassId) (name : String) : Bool :=
  m.implementsNamedWithin name (m.classes.size + 1) c

/-- The name of the root of all classes. -/
def objectName : String := "java/lang/Object"

/-- Whether a value of the source class may be stored in a variable of the target class; arrays are
compared by their components, at most `n` levels deep. -/
def assignableWithin (m : Machine) : Nat → (target source : ClassId) → Bool
  | 0, target, source => target == source
  | n + 1, target, source =>
    if source == target then true
    else
      let s := m.classAt source
      let t := m.classAt target
      if s.isArray then
        if t.isArray then
          match s.component, t.component with
          | some sc, some tc =>
            if (m.classAt sc).isPrimitive || (m.classAt tc).isPrimitive then sc == tc
            else m.assignableWithin n tc sc
          | _, _ => false
        else if t.isInterface then t.name == "java/lang/Cloneable" || t.name == "java/io/Serializable"
        else t.name == objectName
      else if s.isPrimitive || t.isPrimitive then false
      else if s.isInterface then
        if t.isInterface then m.isSubinterfaceOf source target else t.name == objectName
      else if t.isInterface then m.implements source target
      else m.isSubclassOf source target

/-- Whether a value of the source class may be stored in a variable of the target class. -/
def isAssignable (m : Machine) (target source : ClassId) : Bool :=
  m.assignableWithin (m.classes.size + 1) target source

/-- Why the machine stops where it asks whether a class is one of arrays: the name has no first character. -/
def nameHalt? (m : Machine) (c : ClassId) : Option Halt :=
  if (m.classAt c).name = "" then some (.index 0 0) else none

/-- Why the test whether values of the source class may be stored in a variable of the target class stops the machine: a
class that it asks for its first character has no name, or one that is named like an array class has no component. The
arguments are those of `assignableWithin`. -/
def testHaltWithin (m : Machine) : Nat → (target source : ClassId) → Option Halt
  | 0, _, _ => none
  | n + 1, target, source =>
    if source == target then none
    else
      let s := m.classAt source
      let t := m.classAt target
      m.nameHalt? source <|>
        if s.isArray then
          m.nameHalt? target <|>
            if t.isArray then
              match s.component, t.component with
              | some sc, some tc =>
                if (m.classAt sc).isPrimitive || (m.classAt tc).isPrimitive then none else m.testHaltWithin n tc sc
              | some sc, none => if (m.classAt sc).isPrimitive then none else some .null
              | none, _ => some .null
            else none
        else none

/-- Why the test for storing values of the source class in a variable of the target class stops the machine. -/
def testHalt? (m : Machine) (target source : ClassId) : Option Halt :=
  m.testHaltWithin (m.classes.size + 1) target source

/-- Whether a class is a `RuntimeException` or an `Error`, which need not be declared. -/
def isUnchecked (m : Machine) (c : ClassId) : Bool :=
  (m.lineage c).any fun k =>
    (m.classAt k).name == "java/lang/RuntimeException" || (m.classAt k).name == "java/lang/Error"

/-! ## Access -/

/-- Whether two classes share a package of one loader. -/
def samePackage (m : Machine) (a b : ClassId) : Bool :=
  (m.classAt a).loader == (m.classAt b).loader && (m.classAt a).package == (m.classAt b).package

/-- The class of the innermost elements of an array. -/
def elementClassWithin (m : Machine) : Nat → ClassId → ClassId
  | 0, c => c
  | n + 1, c =>
    match (m.classAt c).component with
    | some k => m.elementClassWithin n k
    | none => c

/-- The class of the innermost elements of an array, and any other class itself. -/
def elementClass (m : Machine) (c : ClassId) : ClassId := m.elementClassWithin m.classes.size c

/-- Why the machine stops on the way to the class of the innermost elements: a class on it has no name, or is named like
an array class and has no component. -/
def elementHalt? (m : Machine) (c : ClassId) : Option Halt :=
  m.nameHalt? (m.elementClass c) <|> if (m.classAt (m.elementClass c)).isArray then some .null else none

/-- Whether code of one class may refer to another. -/
def classAccessible (m : Machine) (source target : ClassId) : Bool :=
  let target := m.elementClass target
  (m.classAt target).isPrimitive || (m.classAt target).isPublic || m.samePackage source target

/-- Whether code of a class may refer to a member with the given flags of another. -/
def memberAccessible (m : Machine) (source owner : ClassId) (flags : Flags) : Bool :=
  if flags.isPublic then true
  else if flags.isPrivate then source == owner
  else if flags.isProtected then
    source == owner || m.samePackage source owner || m.isSubclassOf source owner
  else m.samePackage source owner

/-- Whether a protected instance member may be reached through a receiver: from a subclass in another
package the receiver has to be of the accessing class. -/
def receiverAllowed (m : Machine) (source owner : ClassId) (flags : Flags) (receiver : Ref) : Bool :=
  if !flags.isProtected || m.samePackage source owner || !m.isSubclassOf source owner then true
  else
    let r := m.classOf receiver
    (m.classAt r).isArray || r == source || m.isSubclassOf r source

/-- Why the machine stops where it looks whether a protected member may be reached through a receiver. -/
def receiverHalt? (m : Machine) (source owner : ClassId) (flags : Flags) (receiver : Ref) : Option Halt :=
  if !flags.isProtected || m.samePackage source owner || !m.isSubclassOf source owner then none
  else m.nameHalt? (m.classOf receiver)

end Machine

namespace M

/-- Tests whether values of the source class may be stored in a variable of the target class. -/
def assignable (target source : ClassId) : M Bool := do
  let m ← get
  haltFor (m.testHalt? target source)
  return m.isAssignable target source

/-- Tests whether a class is one of arrays. -/
def isArrayClass (c : ClassId) : M Bool := do
  let m ← get
  haltFor (m.nameHalt? c)
  return (m.classAt c).isArray

end M

end JavaMachine
