import JavaMachine.Toml.Scalar
import JavaMachine.Toml.Text

/-!
Reading configuration documents: a statement a line, with comments. Arrays and tables within a line may go
over many lines and may end in a comma.
-/

namespace JavaMachine.Toml

/-! ## Layout -/

/-- Text without the blanks it starts with. -/
def skipSpaces (cs : List Char) : List Char := cs.dropWhile isSpace

/-- Text without the blanks, line ends and comments it starts with. -/
def skipLayout (comment : Bool) : List Char → List Char
  | [] => []
  | c :: rest =>
    if comment then skipLayout (!isNewline c) rest
    else if c == '#' then skipLayout true rest
    else if isSpace c || isNewline c then skipLayout false rest
    else c :: rest

/-- Text from the next line on, if this one has nothing but a comment. -/
def nextLine? (cs : List Char) : Option (List Char) :=
  match skipSpaces cs with
  | [] => some []
  | c :: rest =>
    if c == '#' then some (rest.dropWhile (!isNewline ·))
    else if isNewline c then some rest
    else none

/-! ## Keys -/

/-- The characters of keys without quotes. -/
def isBare (c : Char) : Bool := c.isAlphanum || c == '_' || c == '-'

/-- Reads a part of a key. -/
def keyPart? (cs : List Char) : Option (String × List Char) :=
  match cs with
  | '"' :: rest => (shortText .idle rest).map fun (s, rest) => (String.ofList s, rest)
  | '\x27' :: rest => (shortRaw rest).map fun (s, rest) => (String.ofList s, rest)
  | _ =>
    let name := cs.takeWhile isBare
    if name.isEmpty then none else some (String.ofList name, cs.dropWhile isBare)

/-- Reads parts of a key with points between them. -/
def keyParts? : (fuel : Nat) → List Char → Option (Key × List Char)
  | 0, _ => none
  | fuel + 1, cs => do
    let (part, rest) ← keyPart? (skipSpaces cs)
    match skipSpaces rest with
    | '.' :: rest =>
      let (parts, rest) ← keyParts? fuel rest
      return (part :: parts, rest)
    | rest => return ([part], rest)

/-- Reads a key and the blanks after it. -/
def key? (cs : List Char) : Option (Key × List Char) := keyParts? (cs.length + 1) cs

/-- Reads a key and the mark of an assignment. -/
def assigned? (cs : List Char) : Option (Key × List Char) := do
  match ← key? cs with
  | (key, '=' :: rest) => return (key, skipSpaces rest)
  | _ => none

/-! ## Values -/

mutual

/-- Reads a value. -/
def value? : (fuel : Nat) → List Char → Option (Value × List Char)
  | 0, _ => none
  | fuel + 1, cs =>
    match cs with
    | '[' :: rest => (items? fuel rest).map fun (vs, rest) => (.array vs, rest)
    | '\x7b' :: rest => (assignments? fuel rest).map fun (as, rest) => (.table as, rest)
    | '"' :: _ | '\x27' :: _ => (quoted? cs).map fun (s, rest) => (.text s, rest)
    | _ => scalar? cs

/-- Reads the items of an array. -/
def items? : (fuel : Nat) → List Char → Option (List Value × List Char)
  | 0, _ => none
  | fuel + 1, cs =>
    match skipLayout false cs with
    | ']' :: rest => some ([], rest)
    | cs => do
      let (v, rest) ← value? fuel cs
      match skipLayout false rest with
      | ',' :: rest =>
        let (vs, rest) ← items? fuel rest
        return (v :: vs, rest)
      | ']' :: rest => return ([v], rest)
      | _ => none

/-- Reads the assignments of a table within a line. -/
def assignments? : (fuel : Nat) → List Char → Option (List (Key × Value) × List Char)
  | 0, _ => none
  | fuel + 1, cs =>
    match skipLayout false cs with
    | '\x7d' :: rest => some ([], rest)
    | cs => do
      let (key, rest) ← assigned? cs
      let (v, rest) ← value? fuel rest
      match skipLayout false rest with
      | ',' :: rest =>
        let (as, rest) ← assignments? fuel rest
        return ((key, v) :: as, rest)
      | '\x7d' :: rest => return ([(key, v)], rest)
      | _ => none

end

/-! ## Statements -/

/-- Reads a statement. -/
def statement? (cs : List Char) : Option (Statement × List Char) :=
  match cs with
  | '[' :: '[' :: rest => do
    match ← key? rest with
    | (key, ']' :: ']' :: rest) => return (.element key, rest)
    | _ => none
  | '[' :: rest => do
    match ← key? rest with
    | (key, ']' :: rest) => return (.table key, rest)
    | _ => none
  | _ => do
    let (key, rest) ← assigned? cs
    let (v, rest) ← value? (2 * rest.length + 1) rest
    return (.assign key v, rest)

/-- Reads statements, one a line. -/
def statements? : (fuel : Nat) → List Char → Option (List Statement)
  | 0, _ => none
  | fuel + 1, cs =>
    match skipLayout false cs with
    | [] => some []
    | cs => do
      let (s, rest) ← statement? cs
      let rest ← nextLine? rest
      return s :: (← statements? fuel rest)

/-- The statements of a document. -/
def read? (bytes : List UInt8) : Option (List Statement) := do
  let cs ← chars? bytes
  statements? (cs.length + 1) cs

end JavaMachine.Toml
