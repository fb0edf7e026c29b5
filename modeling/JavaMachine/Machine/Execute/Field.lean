import JavaMachine.Machine.Initialization

/-!
Field instructions. The field has to be static or not as the instruction says, a final field may only be
written by the initializer of its own class, and static fields need their class initialized.
-/

namespace JavaMachine.Execute

open M Throwing

/-- Resolves a field, and goes on with it if it is static or not as wanted. -/
def withField (s : Context) (index : Nat) (static : Bool) (next : Field → M Unit) : M Unit := do
  let holder := (← activation).method.owner
  s.orThrow (Resolution.fieldEntry s.toServices holder index) fun f => do
    if f.isStatic == static then next f
    else
      let kind := if static then "static" else "non-static"
      let owner := (← classAt f.owner).javaName
      s.throwNew Throwables.incompatibleChange s!"Expected {kind} field {owner}.{f.name}"

/-- Goes on if the running method may write a field: a final one only as the initializer of that name of the
class that declares it. -/
def ifWritable (s : Context) (f : Field) (initializer : String) (next : M Unit) : M Unit := do
  let method := (← activation).method
  if !f.flags.isFinal || (method.owner == f.owner && method.name == initializer) then next
  else
    let owner := (← classAt f.owner).javaName
    let caller := (← classAt method.owner).javaName
    s.throwNew Throwables.illegalAccess
      s!"Update to final field {owner}.{f.name} attempted from {caller}.{method.name}"

/-- Goes on with a receiver that is there and through which the member may be reached. -/
def withReceiver (s : Context) (owner : ClassId) (flags : Flags) (receiver : Option Ref)
    (next : Ref → M Unit) : M Unit := do
  match receiver with
  | none => s.throwNew Throwables.nullPointer ""
  | some r =>
    let source := (← activation).method.owner
    let m ← get
    haltFor (m.receiverHalt? source owner flags r)
    if m.receiverAllowed source owner flags r then next r
    else
      let declaring := (m.classAt owner).javaName
      let holder := (m.classAt (m.classOf r)).javaName
      let caller := (m.classAt source).javaName
      s.throwNew Throwables.illegalAccess
        s!"protected member of {declaring} accessed through {holder} from {caller}"

/-- Acts on the static variables of a class. -/
def onStatics (c : ClassId) (act : Slots.Action α) : M α := fun m =>
  match act (m.classAt c).statics with
  | .ok v statics => .ok v { m with classes := m.classes.modify c.index fun k => { k with statics } }
  | .error e statics => .error (.index e.index statics.size) m

/-- Pushes a static field. -/
def getStatic (s : Context) (index : Nat) : M Unit :=
  withField s index true fun f => do
    if ← Initialization.ensure s f.owner then
      push (← onStatics f.owner (Slots.read f.slot))
      if f.isWide then push (← onStatics f.owner (Slots.read (f.slot + 1)))

/-- Pops a static field. -/
def putStatic (s : Context) (index : Nat) : M Unit :=
  withField s index true fun f =>
    ifWritable s f Method.clinitName do
      if ← Initialization.ensure s f.owner then
        if f.isWide then
          let hi ← pop
          onStatics f.owner (Slots.write (f.slot + 1) hi)
        let lo ← pop
        onStatics f.owner (Slots.write f.slot lo)

/-- Pops an object and pushes its field. -/
def getField (s : Context) (index : Nat) : M Unit :=
  withField s index false fun f => do
    let receiver ← popRef
    withReceiver s f.owner f.flags receiver fun r => do
      push (← slotOf r f.slot)
      if f.isWide then push (← slotOf r (f.slot + 1))

/-- Pops a value and an object, and sets its field. -/
def putField (s : Context) (index : Nat) : M Unit :=
  withField s index false fun f =>
    ifWritable s f Method.initName do
      let hi ← if f.isWide then pop else pure Slot.null
      let lo ← pop
      let receiver ← popRef
      withReceiver s f.owner f.flags receiver fun r => do
        setSlot r f.slot lo
        if f.isWide then setSlot r (f.slot + 1) hi

end JavaMachine.Execute
