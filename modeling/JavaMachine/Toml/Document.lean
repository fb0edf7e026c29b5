import JavaMachine.Toml.Reader

/-!
Documents as trees of tables. A table that is only named on the way to another one, or that a key with
points names, is implicit: it may still be opened once by a statement of its own. A key that holds an array
may be given a new value.
-/

namespace JavaMachine.Toml

/-- What a key holds: a value, a table, or an array of tables. -/
inductive Tree where
  | value (v : Value)
  | table (entries : List (String × Tree))
  | tables (elements : List (List (String × Tree)))
deriving Repr, Inhabited

/-- The entries of a table. -/
abbrev Table := List (String × Tree)

namespace Table

/-- Sets an entry in its place, or adds it at the end. -/
def set (t : Table) (key : String) (n : Tree) : Table :=
  if t.any (·.1 == key) then t.map fun e => if e.1 == key then (key, n) else e else t ++ [(key, n)]

/-- Changes the table at a path. An array of tables stands for its last one, and a table that is missing is
made. -/
def update (f : Table → Option Table) : Key → Table → Option Table
  | [], t => f t
  | k :: path, t => do
    match t.lookup k with
    | none => return set t k (.table (← update f path []))
    | some (.table inner) => return set t k (.table (← update f path inner))
    | some (.tables elements) =>
      let last ← elements.getLast?
      return set t k (.tables (elements.dropLast ++ [← update f path last]))
    | some (.value _) => none

/-- The steps of a path at which a table is missing. -/
def missing : (above : Key) → Key → Table → List Key
  | _, [], _ => []
  | above, k :: path, t =>
    let here := above ++ [k]
    match t.lookup k with
    | none => here :: missing here path []
    | some (.table inner) => missing here path inner
    | some (.tables elements) => missing here path (elements.getLast?.getD [])
    | some (.value _) => []

end Table

/-- A document that is being read, with the paths of implicit tables and of arrays, and the path of the
table that is open. -/
structure Document where
  root : Table := []
  implicit : List Key := []
  arrays : List Key := []
  context : Key := []
deriving Repr, Inhabited

namespace Document

/-- Marks a table as implicit. -/
def mark (d : Document) (path : Key) : Document :=
  if d.implicit.contains path then d else { d with implicit := path :: d.implicit }

/-- Takes the mark away. -/
def unmark (d : Document) (path : Key) : Document := { d with implicit := d.implicit.filter (· != path) }

/-- Notes whether a path holds an array. An empty key stands for the table that it is in. -/
def note (d : Document) (context : Key) (key : String) (isArray : Bool) : Document :=
  let path := if key ≠ "" then context ++ [key] else if context.isEmpty then [""] else context
  let others := d.arrays.filter (· != path)
  { d with arrays := if isArray then path :: others else others }

/-- Whether the table at a path has a key, if there is such a table. -/
def has (key : String) : Key → Table → Option Bool
  | [], t => some (t.any (·.1 == key))
  | k :: path, t =>
    match t.lookup k with
    | some (.table inner) => has key path inner
    | some (.tables elements) => has key path (elements.getLast?.getD [])
    | _ => none

/-- Gives a key of a table its value. A key that is taken is refused, unless it holds an array, whose place
the value takes, or an implicit table, which stays. -/
def define (d : Document) (context : Key) (key : String) (node : Option Tree) : Option Document := do
  let path := context ++ [key]
  let put (d : Document) : Option Document :=
    match node with
    | none => some d
    | some n => do return { d with root := ← d.root.update (fun t => some (t.set key n)) context }
  if !(← has key context d.root) then put d
  else if d.arrays.contains path then put (d.unmark path)
  else if d.implicit.contains path then return d.unmark path
  else none

/-- Opens the table at a path, which is a further element of an array if asked. -/
def enter (d : Document) (path : Key) (element : Bool) : Option Document := do
  let above := path.dropLast
  let last ← path.getLast?
  let d := (d.root.missing [] above).foldl mark d
  let d := { d with root := ← d.root.update some above }
  if element then
    let add (t : Table) : Option Table :=
      match t.lookup last with
      | none => some (t.set last (.tables [[]]))
      | some (.tables elements) => some (t.set last (.tables (elements ++ [[]])))
      | some _ => none
    return { d with root := ← d.root.update add above }
  else d.define above last (some (.table []))

/-- Opens the tables that the parts of a key before the last one name, and gives the path of the last. -/
def enterParts (d : Document) (context : Key) : Key → Option (Document × Key)
  | [] => some (d, context)
  | k :: rest => do
    let path := context ++ [k]
    enterParts (← (d.mark path).enter path false) path rest

/-- What is stored for a value; a table within a line has been stored by then. -/
def treeOf : Value → Option Tree
  | .table _ => none
  | v => some (.value v)

/-- Whether a value is an array. -/
def isArray : Value → Bool
  | .array _ => true
  | _ => false

mutual

/-- Records what the tables within a value define. `path` is where the value belongs. -/
def enterValue (d : Document) (context : Key) (key : String) (element : Bool) : Value → Option Document
  | .array items => enterItems (d.note context key true) context key items
  | .table assignments => do
    let path := context ++ [key]
    enterAssignments (← (d.mark path).enter path element) path assignments
  | _ => some d

/-- Records what the items of an array define. -/
def enterItems (d : Document) (context : Key) (key : String) : List Value → Option Document
  | [] => some d
  | v :: rest => do enterItems (← enterValue d context key true v) context key rest

/-- Carries out the assignments of a table within a line. -/
def enterAssignments (d : Document) (context : Key) : List (Key × Value) → Option Document
  | [] => some d
  | (key, v) :: rest => do
    let (d, inner) ← d.enterParts context key.dropLast
    let last ← key.getLast?
    let d ← enterValue d inner last false v
    let d ← d.define inner last (treeOf v)
    enterAssignments (d.note inner last (isArray v)) context rest

end

/-- Opens the table that a statement names. -/
def openTable (d : Document) (key : Key) (element : Bool) : Option Document := do
  let d ← d.enter key element
  return { d.note key "" false with context := key }

/-- Carries out a statement. -/
def apply (d : Document) : Statement → Option Document
  | .table key => d.openTable key false
  | .element key => d.openTable key true
  | .assign key v => d.enterAssignments d.context [(key, v)]

/-- The tables of a document. -/
def read? (bytes : List UInt8) : Option Table := do
  return (← (← Toml.read? bytes).foldlM apply {}).root

end Document

end JavaMachine.Toml
