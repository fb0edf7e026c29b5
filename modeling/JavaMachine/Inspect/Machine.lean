import JavaMachine.Inspect.Report
import JavaMachine.Machine.Linking
import JavaMachine.Machine.Throwing

/-!
Reports on what a machine holds: values, objects to a depth, classes with their pools, and throwables with
their stack traces and causes.
-/

namespace JavaMachine

open Text

/-- How many elements of an array a report shows. -/
def shownElements : Nat := 64

/-- The elements of an array that holds numbers. -/
def Elements.reports : Elements → List Report
  | .bytes a => (a.extract 0 shownElements).toList.map fun v => .int v.toInt
  | .chars a => (a.extract 0 shownElements).toList.map fun v => .int v.toNat
  | .shorts a => (a.extract 0 shownElements).toList.map fun v => .int v.toInt
  | .ints a => (a.extract 0 shownElements).toList.map fun v => .int v.toInt
  | .longs a => (a.extract 0 shownElements).toList.map fun v => .wide v.toInt
  | .floats a => (a.extract 0 shownElements).toList.map .single
  | .doubles a => (a.extract 0 shownElements).toList.map .double
  | .refs _ => []

namespace Machine

/-- The value of slots by descriptor; `show` reports references. -/
def reportValue (showRef : Option Ref → Report) (desc : String) (lo hi : Slot) : Report :=
  match desc.toList with
  | 'V' :: _ => .null
  | 'J' :: _ => .wide (Slot.joinLong lo hi).toInt
  | 'D' :: _ => .double (Slot.joinDouble lo hi)
  | 'F' :: _ => .single lo.float
  | 'L' :: _ => showRef lo.ref?
  | '[' :: _ => showRef lo.ref?
  | _ => .int lo.int.toInt

/-- The instance fields of an object: those of its class first, then those of its superclasses. -/
def instanceFields (m : Machine) (c : ClassId) : List Field :=
  (m.lineage c).flatMap fun k => (m.classAt k).fields.filter (!·.isStatic)

/-- An object or null. An array of references or an object with fields uses up one level of depth. -/
def reportRef (m : Machine) : (depth : Nat) → Option Ref → Report
  | _, none => .null
  | depth, some r =>
    let o := m.objectAt r
    let k := m.classAt o.owner
    if k.name == "java/lang/String" then .record [("str", .text (Units.toString (m.units r)))]
    else
      match o.mirrored?, o.elements with
      | some c, _ => .record [("class", .text (m.classAt c).name)]
      | none, some e =>
        let items :=
          match e, depth with
          | .refs a, 0 => (a.extract 0 shownElements).toList.map fun _ => Report.text "..."
          | .refs a, d + 1 => (a.extract 0 shownElements).toList.map (m.reportRef d)
          | e, _ => e.reports
        .record [("array", .text k.name), ("len", .int e.length), ("items", .list items)]
      | none, none =>
        match depth with
        | 0 => .record [("obj", .text k.name)]
        | d + 1 =>
          let row (f : Field) : Report :=
            let slot (i : Nat) := o.fields.getD i .null
            .list [.text (m.classAt f.owner).name, .text f.name,
              reportValue (m.reportRef d) f.desc (slot f.slot) (slot (f.slot + 1))]
          .record [("obj", .text k.name), ("fields", .list ((m.instanceFields o.owner).map row))]

/-- The result of a method by the descriptor of its type. -/
def reportResult (m : Machine) (depth : Nat) (desc : String) (slots : List Slot) : Report :=
  reportValue (m.reportRef depth) desc (slots.getD 0 .null) (slots.getD 1 .null)

/-- The static fields of a class with their values. -/
def reportStatics (m : Machine) (c : ClassId) : Report :=
  let k := m.classAt c
  let row (f : Field) : Report :=
    let slot (i : Nat) := k.statics.getD i .null
    .list [.text f.name, reportValue (m.reportRef 2) f.desc (slot f.slot) (slot (f.slot + 1))]
  .list ((k.fields.filter Field.isStatic).map row)

/-! ## Classes -/

/-- The text of a method. -/
def methodText (m : Machine) (method : Method) : String :=
  s!"{(m.classAt method.owner).name}.{method.name}{method.desc}"

/-- The text of a field. -/
def fieldText (m : Machine) (f : Field) : String := s!"{(m.classAt f.owner).name}.{f.name}:{f.desc}"

/-- A field of a class. -/
def reportField (m : Machine) (f : Field) : Report :=
  .list [.text f.name, .text f.desc, .word16 f.flags.bits, .int f.slot, .bool f.isWide,
    .text (m.fieldText f)]

/-- A method of a class. -/
def reportMethod (m : Machine) (method : Method) : Report :=
  .list [.text (m.methodText method), .word16 method.flags.bits, .int method.maxStack,
    .int method.maxLocals, .int method.argSlots, .texts method.params, .text method.result,
    .hex method.code.toList,
    .list (method.handlers.map fun h => .ints [h.start, h.stop, h.entry, h.catchType.toNat]),
    .texts method.exceptions]

/-- The loader of a class: the bootstrap loader or the class of its object. -/
def reportLoader (m : Machine) (l : Nat) : Report :=
  match (m.loaderAt l).mirror with
  | none => .text "bootstrap"
  | some r => .text (m.classAt (m.classOf r)).name

/-- All that there is to say of a class. -/
def reportClass (m : Machine) (c : ClassId) : Report :=
  let k := m.classAt c
  let name (c : ClassId) : Report := .text (m.classAt c).name
  .record ([
    ("name", .text k.name), ("java", .text k.javaName), ("flags", .word16 k.flags.bits),
    ("interfaces", .list (k.interfaces.map name)), ("state", .text k.state.text),
    ("instance", .int k.instanceSlots), ("static", .int k.statics.size),
    ("fields", .list (k.fields.map m.reportField)), ("methods", .list (k.methods.map m.reportMethod)),
    ("source", .text k.sourceFile), ("descriptor", .text k.descriptor), ("package", .text k.package),
    ("loader", m.reportLoader k.loader), ("array", .bool k.isArray), ("primitive", .bool k.isPrimitive),
    ("pool", .int k.pool.size), ("superName", .text k.superName),
    ("interfaceNames", .texts k.interfaceNames), ("annotations", .hex k.annotations)] ++
    k.super.toList.map (fun s => ("super", name s)) ++
    k.component.toList.map fun s => ("component", name s))

/-! ## Throwables -/

/-- The lines of a stack trace; of a long one the first and the last. -/
def shortened (trace : List String) : List String :=
  if trace.length ≤ 12 then trace
  else trace.take 6 ++ [s!"... {trace.length - 12} more"] ++ trace.drop (trace.length - 6)

/-- The causes of a throwable, each once; there are at most `n`. -/
def causes (m : Machine) : Nat → List Ref → Option Ref → List Ref
  | 0, _, _ => []
  | _, _, none => []
  | n + 1, seen, some r => if seen.contains r then [] else r :: m.causes n (r :: seen) (m.causeOf r)

/-- A throwable with its stack trace and its causes. -/
def reportThrowable (m : Machine) (r : Ref) : List (String × Report) :=
  let name (r : Ref) : Report := .text (m.classAt (m.classOf r)).name
  let trace := (m.objectAt r).trace.map TraceElement.text
  let cause (r : Ref) : Report :=
    .record [("class", name r), ("message", .text (m.detailMessage r)),
      ("depth", .int (m.objectAt r).trace.length)]
  let below := m.causes m.heap.size [r] (m.causeOf r)
  [("class", name r), ("message", .text (m.detailMessage r)), ("trace", .texts (shortened trace))] ++
    if below.isEmpty then [] else [("causes", .list (below.map cause))]

end Machine

namespace M

/-- All that there is to say of a class, which has to have a name. -/
def described (c : ClassId) : M Report := do
  let m ← get
  haltFor (m.nameHalt? c)
  return m.reportClass c

/-- How a class is related to another. -/
def related (a b : ClassId) : M Report := do
  let assignable ← assignable a b
  let m ← get
  return .record [("assignable", .bool assignable), ("subclass", .bool (m.isSubclassOf b a)),
    ("implements", .bool (m.implements b a))]

end M

/-- An entry of a run-time pool, and whether it was resolved. -/
def PoolEntry.report : PoolEntry → Report
  | .empty => .null
  | .int v => .list [.text "int", .int v.toInt]
  | .float bits => .list [.text "float", .single bits]
  | .long v => .list [.text "long", .wide v.toInt]
  | .double bits => .list [.text "double", .double bits]
  | .string .. => .list [.text "string"]
  | .class name resolved => .list [.text "class", .text name, .bool resolved.isSome]
  | .field owner name desc _ resolved =>
    .list [.text "field", .text owner, .text name, .text desc, .bool resolved.isSome]
  | .method owner name desc onInterface _ resolved =>
    .list [.text "method", .text s!"{owner}.{name}{desc}", .bool onInterface, .bool resolved.isSome]
  | .unsupported tag => .list [.text "unsupported", .int tag.toNat]

end JavaMachine
