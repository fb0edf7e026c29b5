import JavaMachine.Text.Quoted

/-!
Descriptors of fields and methods, and the names of classes. A field descriptor is any number of `[`
followed by a primitive letter or by `L`, a name and `;`. A method descriptor is the parameters between
parentheses and a return type, which may also be `V`.
-/

namespace JavaMachine.Descriptor

/-- The letters of the primitive types that a field can have. -/
def isPrimitiveLetter (c : Char) : Bool :=
  c == 'B' || c == 'C' || c == 'D' || c == 'F' || c == 'I' || c == 'J' || c == 'S' || c == 'Z'

/-- Splits off the field descriptor at the front. -/
def splitField? : List Char → Option (List Char × List Char)
  | [] => none
  | c :: rest =>
    if c = '[' then (splitField? rest).map fun p => ('[' :: p.1, p.2)
    else if isPrimitiveLetter c then some ([c], rest)
    else if c = 'L' then
      let name := rest.takeWhile (· != ';')
      match rest.dropWhile (· != ';') with
      | _ :: after => if name.isEmpty then none else some ('L' :: name ++ [';'], after)
      | [] => none
    else none

theorem length_of_splitField? {cs f rest : List Char} (h : splitField? cs = some (f, rest)) :
    rest.length < cs.length := by
  induction cs generalizing f with
  | nil => simp [splitField?] at h
  | cons c cs ih =>
    have hl := (List.dropWhile_suffix (l := cs) fun x => x != ';').length_le
    simp only [splitField?] at h
    split at h
    · obtain ⟨⟨g, r⟩, hp, he⟩ := Option.map_eq_some_iff.1 h
      obtain ⟨-, rfl⟩ := Prod.mk.inj he
      exact Nat.lt_succ_of_lt (ih hp)
    · split at h
      · simp_all
      · split at h
        · split at h
          · rename_i heq
            rw [heq] at hl
            split at h
            · simp at h
            · obtain ⟨-, rfl⟩ := Prod.mk.inj (Option.some.inj h)
              simp only [List.length_cons] at hl ⊢
              omega
          · simp at h
        · simp at h

/-- Whether a text is exactly one field descriptor. -/
def isField (s : String) : Bool :=
  match splitField? s.toList with
  | some (_, []) => true
  | _ => false

/-- Why a text is no method descriptor. -/
inductive Cause where
  | malformed
  | unterminated
  | returnType
deriving DecidableEq, Repr

/-- A text that is no method descriptor, with the parameters read before the fault. -/
structure Fault where
  cause : Cause
  text : String
  params : List String
deriving DecidableEq, Repr

/-- The text of a fault, with the descriptor in quotes. -/
def Fault.message (f : Fault) : String :=
  let quoted := Text.Quoted.encode f.text
  match f.cause with
  | .malformed => s!"malformed descriptor: {quoted}"
  | .unterminated => s!"malformed descriptor: unterminated {quoted}"
  | .returnType => s!"malformed descriptor: return type of {quoted}"

/-- How the parameters of a method descriptor end. -/
inductive ParamsEnd where
  | closed (rest : List Char)
  | open
  | bad
deriving DecidableEq, Repr

/-- Reads parameters up to the closing parenthesis. -/
def splitParams (cs : List Char) : List (List Char) × ParamsEnd :=
  match cs with
  | [] => ([], .open)
  | c :: rest =>
    if c = ')' then ([], .closed rest)
    else
      match h : splitField? (c :: rest) with
      | none => ([], .bad)
      | some (f, after) =>
        have : after.length < rest.length + 1 := length_of_splitField? h
        let (params, last) := splitParams after
        (f :: params, last)
termination_by cs.length

end Descriptor

/-- A method descriptor in parts. -/
structure MethodType where
  params : List String
  result : String
deriving DecidableEq, Repr, Inhabited

namespace Descriptor

/-- Reads a method descriptor. -/
def parseMethod (s : String) : Except Fault MethodType :=
  match s.toList with
  | '(' :: rest =>
    if rest.length < 2 then .error ⟨.malformed, s, []⟩
    else
      let (fields, last) := splitParams rest
      let params := fields.map String.ofList
      match last with
      | .bad => .error ⟨.malformed, s, params⟩
      | .open => .error ⟨.unterminated, s, params⟩
      | .closed result =>
        let text := String.ofList result
        if text = "V" ∨ isField text then .ok ⟨params, text⟩
        else .error ⟨.returnType, s, params⟩
  | _ => .error ⟨.malformed, s, []⟩

/-- How many slots a value of a type takes: two for longs and doubles, none for void. -/
def slotWidth (desc : String) : Nat :=
  match desc.toList with
  | [] => 0
  | c :: _ => if c = 'J' ∨ c = 'D' then 2 else if c = 'V' then 0 else 1

/-- Whether values of a type are references. -/
def isReference (desc : String) : Bool :=
  match desc.toList with
  | c :: _ => c == 'L' || c == '['
  | [] => false

/-- The primitive types by letter. -/
def primitives : List (Char × String) :=
  [('Z', "boolean"), ('B', "byte"), ('C', "char"), ('S', "short"), ('I', "int"), ('J', "long"),
   ('F', "float"), ('D', "double"), ('V', "void")]

/-- The keyword of a primitive letter. -/
def primitiveName? (c : Char) : Option String := primitives.lookup c

/-- The letter of a primitive keyword. -/
def primitiveLetter? (name : String) : Option Char :=
  (primitives.find? fun p => p.2 == name).map (·.1)

/-- The class name of a field descriptor; arrays keep their descriptor and primitives have keywords. -/
def toClassName (desc : String) : String :=
  match desc.toList with
  | [] => ""
  | [c] => (primitiveName? c).getD desc
  | 'L' :: rest => if rest.getLast? = some ';' then String.ofList rest.dropLast else desc
  | _ => desc

/-- The field descriptor of a class name. -/
def ofClassName (name : String) : String :=
  match name.toList with
  | [] => ""
  | '[' :: _ => name
  | _ =>
    match primitiveLetter? name with
    | some c => String.singleton c
    | none => "L" ++ name ++ ";"

/-- A name with dots. -/
def dotted (name : String) : String := name.map fun c => if c = '/' then '.' else c

/-- A name with slashes. -/
def slashed (name : String) : String := name.map fun c => if c = '.' then '/' else c

/-- What stands before the last slash. -/
def beforeLastSlash (cs : List Char) : List Char :=
  ((cs.reverse.dropWhile (· != '/')).drop 1).reverse

/-- The package of a class name; an array has that of its elements. -/
def packageOf (name : String) : String :=
  let cs := name.toList.dropWhile (· == '[')
  let inner :=
    match cs with
    | 'L' :: rest => if rest.getLast? = some ';' then rest.dropLast else cs
    | _ => cs
  String.ofList (beforeLastSlash inner)

end Descriptor

namespace MethodType

/-- How many slots the parameters take. -/
def argSlots (t : MethodType) : Nat := t.params.foldr (fun p n => Descriptor.slotWidth p + n) 0

/-- How many slots the arguments take, the receiver included. -/
def slots (t : MethodType) (isStatic : Bool) : Nat := t.argSlots + if isStatic then 0 else 1

end MethodType

/-- The number of argument slots that a method descriptor asks for. -/
def Descriptor.argSlotCount (desc : String) (isStatic : Bool) : Except Fault Nat :=
  (·.slots isStatic) <$> parseMethod desc

end JavaMachine
