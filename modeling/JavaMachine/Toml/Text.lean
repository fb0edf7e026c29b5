import JavaMachine.Text.Hex
import JavaMachine.Text.Utf8

/-!
The characters of configuration documents, and the four kinds of quoted text: on one line or on many, with
escapes or without.
-/

namespace JavaMachine.Toml

open JavaMachine.Text

/-! ## Characters -/

/-- Blanks within a line. -/
def isSpace (c : Char) : Bool := c == ' ' || c == '\t'

/-- The characters of line ends. -/
def isNewline (c : Char) : Bool := c == '\n' || c == '\r'

/-- Control characters other than tabs and line ends. -/
def isControl (c : Char) : Bool := (c.toNat < 0x20 && c != '\t' && !isNewline c) || c.toNat == 0x7F

/-- Whether characters may stand in a document: no control characters, and carriage returns only at the end
of a line. -/
def isClean : List Char → Bool
  | [] => true
  | '\r' :: rest => rest.head? == some '\n' && isClean rest
  | c :: rest => !isControl c && isClean rest

/-- Reads bytes that have to be UTF-8, after dropping the `skip` bytes that the last character has taken. -/
def strictChars (skip : Nat) : List UInt8 → Option (List Char)
  | [] => some []
  | a :: rest =>
    match skip with
    | k + 1 => strictChars k rest
    | 0 =>
      match Utf8.first? (a :: rest) with
      | some (c, n) => (c :: ·) <$> strictChars (n - 1) rest
      | none => none

/-- Bytes without a byte order mark. -/
def withoutMark : List UInt8 → List UInt8
  | 0xFF :: 0xFE :: rest => rest
  | 0xFE :: 0xFF :: rest => rest
  | 0xEF :: 0xBB :: 0xBF :: rest => rest
  | bytes => bytes

/-- The characters of a document. -/
def chars? (bytes : List UInt8) : Option (List Char) := do
  let cs ← strictChars 0 (withoutMark bytes)
  if isClean cs then some cs else none

/-! ## Escapes -/

/-- The character of an escape of one letter. -/
def letterEscape? : Char → Option Char
  | 'b' => some '\x08'
  | 't' => some '\t'
  | 'n' => some '\n'
  | 'f' => some '\x0c'
  | 'r' => some '\r'
  | 'e' => some '\x1b'
  | '"' => some '"'
  | '\\' => some '\\'
  | _ => none

/-- How many digits follow the letter of an escape by number. -/
def escapeDigits? : Char → Option Nat
  | 'x' => some 2
  | 'u' => some 4
  | 'U' => some 8
  | _ => none

/-- The character of a number. -/
def charOf? (n : Nat) : Option Char := if n.isValidChar then some (Char.ofNat n) else none

/-- Where a reader of text with escapes is. `quotes n slash` has read `n` quotes in a row, which `slash` says
follow an escaped backslash; `line seen` drops the blanks after a backslash, and `seen` says that a line has
ended there. -/
inductive Escape where
  | quotes (n : Nat) (slash : Bool)
  | begun
  | digits (left value : Nat)
  | line (seen : Bool)
deriving DecidableEq, Repr

namespace Escape

/-- Not within anything. -/
def idle : Escape := .quotes 0 false

/-- The character after a backslash. -/
def begin? (c : Char) : Option (List Char × Escape) :=
  match letterEscape? c, escapeDigits? c with
  | some d, _ => some ([d], .quotes 0 (c == '\\'))
  | none, some n => some ([], .digits n 0)
  | none, none => none

/-- A digit of an escape by number. -/
def digit? (left value : Nat) (c : Char) : Option (List Char × Escape) := do
  let value := value * 16 + (← Hex.value? c)
  if left ≤ 1 then return ([← charOf? value], idle) else return ([], .digits (left - 1) value)

end Escape

/-! ## Text on one line -/

/-- Reads text on one line up to its closing quote. -/
def shortText (e : Escape) : List Char → Option (List Char × List Char)
  | [] => none
  | c :: rest =>
    let next (r : Option (List Char × Escape)) : Option (List Char × List Char) := do
      let (out, e) ← r
      let (s, rest) ← shortText e rest
      return (out ++ s, rest)
    match e with
    | .begun => next (Escape.begin? c)
    | .digits left value => next (Escape.digit? left value c)
    | _ =>
      if c == '"' then some ([], rest)
      else if isNewline c then none
      else if c == '\\' then next (some ([], .begun))
      else next (some ([c], .idle))

/-- Reads text on one line that has no escapes. -/
def shortRaw (cs : List Char) : Option (List Char × List Char) :=
  let inner := cs.takeWhile fun c => c != '\x27' && !isNewline c
  match cs.dropWhile fun c => c != '\x27' && !isNewline c with
  | '\x27' :: rest => some (inner, rest)
  | _ => none

/-! ## Text on many lines -/

/-- Text without the line end that it may start with. -/
def withoutFirstNewline : List Char → List Char
  | '\n' :: rest => rest
  | '\r' :: '\n' :: rest => rest
  | cs => cs

/-- The quotes before the closing three, where `n` quotes end a text and at most `most` may. -/
def closing? (quote : Char) (most n : Nat) : Option (List Char) :=
  if 3 ≤ n ∧ n ≤ most then some (List.replicate (n - 3) quote) else none

/-- How many quotes may end a text with escapes: after an escaped backslash one more is taken. -/
def mostQuotes (slash : Bool) : Nat := if slash then 6 else 5

/-- A character of a text on many lines outside escapes, after `n` quotes. The text ends before it where no
further state is given. -/
def longPlain (n : Nat) (slash : Bool) (c : Char) : Option (List Char × Option Escape) :=
  if c == '"' then some ([], some (.quotes (n + 1) slash))
  else if 3 ≤ n then (closing? '"' (mostQuotes slash) n).map (·, none)
  else
    let quotes := List.replicate n '"'
    if c == '\\' then some (quotes, some .begun) else some (quotes ++ [c], some .idle)

/-- A character of a text on many lines: what it adds, and where the reader is then. -/
def longStep (e : Escape) (c : Char) : Option (List Char × Option Escape) :=
  match e with
  | .quotes n slash => longPlain n slash c
  | .begun =>
    if isSpace c || isNewline c then some ([], some (.line (c == '\n')))
    else (Escape.begin? c).map fun (out, e) => (out, some e)
  | .digits left value => (Escape.digit? left value c).map fun (out, e) => (out, some e)
  | .line seen =>
    if isSpace c || isNewline c then some ([], some (.line (seen || c == '\n')))
    else if seen then longPlain 0 false c
    else none

/-- Reads text on many lines up to its closing quotes. -/
def longText (e : Escape) : List Char → Option (List Char × List Char)
  | [] =>
    match e with
    | .quotes n slash => (closing? '"' (mostQuotes slash) n).map (·, [])
    | _ => none
  | c :: rest =>
    match longStep e c with
    | none => none
    | some (out, none) => some (out, c :: rest)
    | some (out, some e) => (longText e rest).map fun (s, rest) => (out ++ s, rest)

/-- Reads text on many lines that has no escapes, after `n` quotes. -/
def longRaw (n : Nat) : List Char → Option (List Char × List Char)
  | [] => (closing? '\x27' 5 n).map (·, [])
  | c :: rest =>
    if c == '\x27' then longRaw (n + 1) rest
    else if 3 ≤ n then (closing? '\x27' 5 n).map (·, c :: rest)
    else (longRaw 0 rest).map fun (s, rest) => (List.replicate n '\x27' ++ c :: s, rest)

/-- Reads a quoted text of any kind. -/
def quoted? : List Char → Option (String × List Char)
  | '"' :: '"' :: '"' :: rest => named (longText .idle (withoutFirstNewline rest))
  | '\x27' :: '\x27' :: '\x27' :: rest => named (longRaw 0 (withoutFirstNewline rest))
  | '"' :: rest => named (shortText .idle rest)
  | '\x27' :: rest => named (shortRaw rest)
  | _ => none
where
  named (r : Option (List Char × List Char)) : Option (String × List Char) :=
    r.map fun (s, rest) => (String.ofList s, rest)

end JavaMachine.Toml
