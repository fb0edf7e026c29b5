import JavaMachine.Text.Utf8

/-!
Manifests of archives: headers `name: value` up to the first empty line. A line that starts with a blank
goes on with the value of the header before it. Manifests are read as bytes, since a line may end in the middle of
a character. White space are the characters of the Unicode property.
-/

/-! ## White space -/

namespace JavaMachine.Text

/-- Whether a character is white space. -/
def isBlank (c : Char) : Bool :=
  let n := c.toNat
  (9 ≤ n && n ≤ 13) || n == 0x20 || n == 0x85 || n == 0xA0 || n == 0x1680 ||
    (0x2000 ≤ n && n ≤ 0x200A) || n == 0x2028 || n == 0x2029 || n == 0x202F || n == 0x205F || n == 0x3000

/-- Bytes without the white space at their start, after dropping the `skip` bytes that the last character has
taken. The first character is told by `char?`, with the bytes that it takes. -/
def dropBlanks (char? : List UInt8 → Option (Char × Nat)) (skip : Nat) : List UInt8 → List UInt8
  | [] => []
  | a :: rest =>
    match skip with
    | k + 1 => dropBlanks char? k rest
    | 0 =>
      match char? (a :: rest) with
      | some (c, n) => if isBlank c then dropBlanks char? (n - 1) rest else a :: rest
      | none => a :: rest

/-- Bytes without the white space at their start. -/
def trimStart (bytes : List UInt8) : List UInt8 := dropBlanks Utf8.first? 0 bytes

/-- Bytes without the white space at their end. -/
def trimEnd (bytes : List UInt8) : List UInt8 := (dropBlanks Utf8.last? 0 bytes.reverse).reverse

/-- Bytes without the white space at their ends. -/
def trim (bytes : List UInt8) : List UInt8 := trimEnd (trimStart bytes)

end JavaMachine.Text

/-! ## Headers -/

namespace JavaMachine

open Text

/-- Headers by name, both as bytes; a later value takes the place of an earlier one. -/
abbrev Headers := List (List UInt8 × List UInt8)

namespace Headers

/-- Sets the value of a header. -/
def set (hs : Headers) (name value : List UInt8) : Headers :=
  if hs.any (·.1 == name) then hs.map fun h => if h.1 == name then (name, value) else h
  else hs ++ [(name, value)]

/-- The value of a header. -/
def get (hs : Headers) (name : List UInt8) : List UInt8 := (hs.lookup name).getD []

/-- The bytes between a name and its value. -/
def colon : UInt8 := 0x3A

/-- The byte that starts a line which goes on with a value. -/
def space : UInt8 := 0x20

/-- The byte that ends a line. -/
def lineFeed : UInt8 := 0x0A

/-- The byte that may stand before a line feed. -/
def carriageReturn : UInt8 := 0x0D

/-- Reads a line that may start a header; `last` is the name of the header before it. -/
def header (hs : Headers) (last line : List UInt8) : Headers × List UInt8 :=
  match line.dropWhile (· != colon) with
  | [] => (hs, last)
  | _ :: value =>
    let name := trim (line.takeWhile (· != colon))
    (hs.set name (trim value), name)

/-- Reads a line; `last` is the name of the header before it. -/
def line (hs : Headers) (last : List UInt8) : List UInt8 → Headers × List UInt8
  | [] => header hs last []
  | b :: more =>
    if b = space ∧ last ≠ [] then (hs.set last (hs.get last ++ more), last) else header hs last (b :: more)

/-- Reads lines up to the first empty one. -/
def lines (hs : Headers) (last : List UInt8) : List (List UInt8) → Headers
  | [] => hs
  | l :: rest =>
    if l = [] then hs
    else
      let (hs, last) := hs.line last l
      lines hs last rest

/-- Joins line ends of two bytes to one. -/
def joinLineEnds : List UInt8 → List UInt8
  | [] => []
  | [b] => [b]
  | a :: b :: rest =>
    if a = carriageReturn ∧ b = lineFeed then lineFeed :: joinLineEnds rest else a :: joinLineEnds (b :: rest)

/-- Reads the main section of a manifest. -/
def read (bytes : List UInt8) : Headers := lines [] [] ((joinLineEnds bytes).splitOn lineFeed)

end Headers

/-- Headers by name as text. -/
abbrev Manifest := List (String × String)

namespace Manifest

/-- The value of a header. -/
def get (m : Manifest) (name : String) : String := (m.lookup name).getD ""

/-- Reads the main section of a manifest. -/
def ofBytes (bytes : List UInt8) : Manifest :=
  (Headers.read bytes).map fun h => (Utf8.decode h.1, Utf8.decode h.2)

/-- Reads the main section of a manifest that is given as text. -/
def parse (text : String) : Manifest := ofBytes (Utf8.encode text)

/-- The headers sorted by name. -/
def sorted (m : Manifest) : List (String × String) := m.mergeSort fun a b => a.1 ≤ b.1

end Manifest

end JavaMachine
