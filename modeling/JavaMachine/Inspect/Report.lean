import JavaMachine.Text.Hex

/-!
Reports: what can be told about a value, as a tree of texts, numbers, lists and named fields. Inspection
gives reports, and a front end decides how to print them.
-/

namespace JavaMachine

open Text

/-- A tree of plain data. -/
inductive Report where
  | null
  | bool (b : Bool)
  | int (n : Int)
  | text (s : String)
  | list (items : List Report)
  | record (fields : List (String × Report))
deriving Repr, Inhabited

namespace Report

/-- A list of numbers. -/
def ints (ns : List Int) : Report := .list (ns.map .int)

/-- A list of texts. -/
def texts (ss : List String) : Report := .list (ss.map .text)

/-- A value that may be missing. -/
def ofOption (f : α → Report) : Option α → Report
  | some a => f a
  | none => .null

/-- Bytes as hexadecimal digits. -/
def hex (bytes : List UInt8) : Report := .text (Hex.ofBytes bytes)

/-- A number that may need more than 53 bits, as text. -/
def wide (n : Int) : Report := .text (toString n)

/-- An unsigned word. -/
def word16 (v : UInt16) : Report := .int v.toNat

/-- A single-precision bit pattern that is no number. -/
def isNanSingle (bits : UInt32) : Bool :=
  bits &&& 0x7F800000 == 0x7F800000 && bits &&& 0x007FFFFF != 0

/-- A double-precision bit pattern that is no number. -/
def isNanDouble (bits : UInt64) : Bool :=
  bits &&& 0x7FF0000000000000 == 0x7FF0000000000000 && bits &&& 0x000FFFFFFFFFFFFF != 0

/-- The text of a single-precision bit pattern; all patterns of no number are one. -/
def singleText (bits : UInt32) : String :=
  if isNanSingle bits then "NaN" else "0x" ++ Hex.lower 8 bits.toNat

/-- The text of a double-precision bit pattern; all patterns of no number are one. -/
def doubleText (bits : UInt64) : String :=
  if isNanDouble bits then "NaN" else "0x" ++ Hex.lower 16 bits.toNat

/-- A single-precision bit pattern. -/
def single (bits : UInt32) : Report := .text (singleText bits)

/-- A double-precision bit pattern. -/
def double (bits : UInt64) : Report := .text (doubleText bits)

end Report

end JavaMachine
