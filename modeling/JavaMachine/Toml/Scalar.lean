import JavaMachine.Text.Hex

/-!
What configuration documents are made of: values, and statements that open tables or assign values to keys. Words stand
for values: truth values, integers, numbers with a fraction or an exponent, and moments. Underscores may stand between
digits, and a decimal has no leading zeros.
-/

/-! ## Documents -/

namespace JavaMachine.Toml

/-- A key of one or more parts. -/
abbrev Key := List String

/-- A value as it is written. A table within a line has assignments. -/
inductive Value where
  | text (s : String)
  | integer (n : Int)
  | float
  | boolean (b : Bool)
  | moment
  | array (items : List Value)
  | table (assignments : List (Key × Value))
deriving Repr, Inhabited

/-- A statement of a document: a table, a further table of an array, or an assignment. -/
inductive Statement where
  | table (key : Key)
  | element (key : Key)
  | assign (key : Key) (value : Value)
deriving Repr, Inhabited

end JavaMachine.Toml

namespace JavaMachine.Toml

open JavaMachine.Text

/-! ## Digits -/

/-- The digits of a number in a base, which single underscores may divide. `needed` says that a digit has to
come next. -/
def digits? (base : Nat) (needed : Bool) : List Char → Option (List Nat)
  | [] => if needed then none else some []
  | c :: rest =>
    if c == '_' then if needed then none else digits? base true rest
    else
      match Hex.value? c with
      | some d => if d < base then (d :: ·) <$> digits? base false rest else none
      | none => none

/-- The number that digits stand for. -/
def ofDigits (base : Nat) (ds : List Nat) : Nat := ds.foldl (fun n d => n * base + d) 0

/-- The digits of a number that has to have some. -/
def number? (base : Nat) (cs : List Char) : Option (List Nat) := digits? base true cs

/-- Digits without leading zeros. -/
def plainNumber? (cs : List Char) : Option (List Nat) :=
  match cs with
  | '0' :: _ :: _ => none
  | _ => number? 10 cs

/-- A sign and what follows it. -/
def signed : List Char → Bool × List Char
  | '-' :: rest => (true, rest)
  | '+' :: rest => (false, rest)
  | cs => (false, cs)

/-! ## Integers -/

/-- An integer that fits in 64 bits. -/
def fitting? (n : Int) : Option Int := if -0x8000000000000000 ≤ n ∧ n < 0x8000000000000000 then some n else none

/-- An integer in base ten, or without a sign in base sixteen, eight or two. -/
def integer? (cs : List Char) : Option Int := do
  let based (base : Nat) (cs : List Char) : Option Int := do
    fitting? (ofDigits base (← number? base cs))
  match cs with
  | '0' :: 'x' :: rest => based 16 rest
  | '0' :: 'o' :: rest => based 8 rest
  | '0' :: 'b' :: rest => based 2 rest
  | _ =>
    let (negative, rest) := signed cs
    let n : Int := ofDigits 10 (← plainNumber? rest)
    fitting? (if negative then -n else n)

/-! ## Numbers with a fraction or an exponent -/

/-- The least power of two and the halfway point below it that a double does not reach. -/
def overflowLimit : Nat := Nat.pow 2 1024 - Nat.pow 2 970

/-- Whether digits times a power of ten are within the range of doubles. -/
def isFinite (ds : List Nat) (exponent : Int) : Bool :=
  let n := ofDigits 10 ds
  if n == 0 then true
  else
    let size := exponent + (Nat.toDigits 10 n).length
    if size < 300 then true
    else if size > 320 then false
    else if exponent ≥ 0 then n * Nat.pow 10 exponent.toNat < overflowLimit
    else n < overflowLimit * Nat.pow 10 (-exponent).toNat

/-- Whether a word is a number with a fraction or an exponent. -/
def isFloat (cs : List Char) : Bool :=
  let (_, rest) := signed cs
  if rest == ['i', 'n', 'f'] || rest == ['n', 'a', 'n'] then true
  else
    let isMark (c : Char) : Bool := c == 'e' || c == 'E'
    let mantissa := rest.takeWhile (!isMark ·)
    let power := (rest.dropWhile (!isMark ·)).drop 1
    let whole := mantissa.takeWhile (· != '.')
    let part := (mantissa.dropWhile (· != '.')).drop 1
    let hasPart := mantissa.contains '.'
    let hasPower := rest.any isMark
    let (negative, powerDigits) := signed power
    match plainNumber? whole, number? 10 part, number? 10 powerDigits with
    | some w, p, e =>
      (hasPart || hasPower) && (p.isSome || !hasPart) && (e.isSome || !hasPower) &&
        (let fraction := p.getD []
         let e : Int := ofDigits 10 (e.getD [])
         isFinite (w ++ fraction) ((if negative then -e else e) - fraction.length))
    | none, _, _ => false

/-! ## Moments -/

/-- A number of exactly two digits. -/
def pair? (a b : Char) : Option Nat := do
  if a.isDigit && b.isDigit then some ((a.toNat - 48) * 10 + (b.toNat - 48)) else none

/-- Whether a year has a 29th of February. -/
def isLeap (year : Nat) : Bool := year % 4 == 0 && (year % 100 != 0 || year % 400 == 0)

/-- How many days a month has. -/
def daysIn (year month : Nat) : Nat :=
  if month == 2 then if isLeap year then 29 else 28
  else if month == 4 || month == 6 || month == 9 || month == 11 then 30
  else 31

/-- Reads a day and gives what follows it. -/
def afterDate? : List Char → Option (List Char)
  | a :: b :: c :: d :: '-' :: e :: f :: '-' :: g :: h :: rest => do
    let year := (← pair? a b) * 100 + (← pair? c d)
    let month ← pair? e f
    let day ← pair? g h
    if 1 ≤ month ∧ month ≤ 12 ∧ 1 ≤ day ∧ day ≤ daysIn year month then some rest else none
  | _ => none

/-- Reads seconds, with a fraction or without. -/
def afterSeconds? : List Char → Option (List Char)
  | ':' :: a :: b :: rest => do
    if (← pair? a b) < 60 then
      match rest with
      | '.' :: c :: more => if c.isDigit then some (more.dropWhile Char.isDigit) else none
      | _ => some rest
    else none
  | ':' :: _ => none
  | rest => some rest

/-- Reads a time of day and gives what follows it. -/
def afterTime? : List Char → Option (List Char)
  | a :: b :: ':' :: c :: d :: rest => do
    if (← pair? a b) < 24 ∧ (← pair? c d) < 60 then afterSeconds? rest else none
  | _ => none

/-- Whether a text is nothing, or a distance from universal time. -/
def isZone : List Char → Bool
  | [] => true
  | ['Z'] => true
  | [sign, a, b, ':', c, d] =>
    (sign == '+' || sign == '-') &&
      ((pair? a b).any (· ≤ 24)) && ((pair? c d).any (· ≤ 60))
  | _ => false

/-- One spelling for the letters of moments, and a letter between day and time. -/
def momentChar : Char → Char
  | 'z' => 'Z'
  | 't' => 'T'
  | ' ' => 'T'
  | c => c

/-- Whether a text is a day, a time of day, or both. -/
def isMoment (text : List Char) : Bool :=
  let cs := text.map momentChar
  match afterDate? cs with
  | some [] => true
  | some ('T' :: rest) => (afterTime? rest).any isZone
  | some _ => false
  | none => afterTime? cs == some []

/-- The characters of moments. -/
def isMomentChar (c : Char) : Bool := c.isDigit || c ∈ ['-', ':', 'T', 't', ' ', '.', 'Z', 'z', '+']

/-! ## Words -/

/-- Whether a word goes on with a character. -/
def isWordChar (c : Char) : Bool := c ∉ [' ', '\t', '\n', '\r', '#', ',', ']', '\x7d']

/-- Whether characters start with digits that a moment goes on after. -/
def startsMoment (cs : List Char) : Bool :=
  match cs.dropWhile Char.isDigit with
  | c :: _ => (cs.head?.any Char.isDigit) && (c == '-' || c == ':')
  | [] => false

/-- The value of a word. -/
def word? (cs : List Char) : Option Value :=
  if cs == ['t', 'r', 'u', 'e'] then some (.boolean true)
  else if cs == ['f', 'a', 'l', 's', 'e'] then some (.boolean false)
  else
    match integer? cs with
    | some n => some (.integer n)
    | none => if isFloat cs then some .float else none

/-- Reads a value that is not quoted. -/
def scalar? (cs : List Char) : Option (Value × List Char) :=
  if startsMoment cs then
    let text := (cs.takeWhile isMomentChar).reverse.dropWhile (· == ' ')
    if isMoment text.reverse then some (.moment, cs.dropWhile isMomentChar) else none
  else (word? (cs.takeWhile isWordChar)).map (·, cs.dropWhile isWordChar)

end JavaMachine.Toml
