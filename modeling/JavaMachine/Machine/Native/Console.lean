import JavaMachine.Machine.Native.Basic
import JavaMachine.Inspect.Report

/-!
Native methods for programs without streams: printing values line by line, looking at the frame stack,
bytes by name, and properties that are printed when they are set.
-/

namespace JavaMachine.Native

open M Throwing Text

/-- Prints a line. -/
def printLine (s : String) : M Unit := writeOut (Utf8.encode (s ++ "\n"))

/-- Prints a string or null. -/
def printString : Native := fun _ => do
  match ← localRef 0 with
  | none => printLine "null"
  | some r => printLine (← textOf (some r))

/-- Printing of each kind of value, floats as bit patterns, the size of the caller's stack, and the number of
frames. -/
def console : List (String × String × Native) := [
  ("println", "(Ljava/lang/String;)V", printString),
  ("println", "(I)V", fun _ => do printLine (toString (← localInt 0).toInt)),
  ("println", "(J)V", fun _ => do printLine (toString (← localLong 0).toInt)),
  ("println", "(F)V", fun _ => do printLine (Report.singleText (← localInt 0).toUInt32)),
  ("println", "(D)V", fun _ => do printLine (Report.doubleText (← localDouble 0))),
  ("depth", "()I", fun _ => do
    let caller := (← get).frames[1]?
    pushInt (Int32.ofNat ((caller.map (·.stack.size)).getD 0))),
  ("frames", "()I", fun _ => do pushInt (Int32.ofNat (← depth)))]

/-- The bytes of a name in a table as an array, or null. -/
def byteTable (table : List (String × List UInt8)) : List (String × String × Native) := [
  ("bytesFor", "(Ljava/lang/String;)[B", fun s => do
    match table.lookup (← textOf (← localRef 0)) with
    | none => pushRef none
    | some bytes =>
      orThrow s (s.loadBoot "[B") fun c => do
        pushRef (some (← allocate {
          owner := c, elements := some (.bytes (bytes.map UInt8.toInt8).toArray) })))]

/-- Properties that are printed when they are set, except hidden ones. -/
def printedProperties (hidden : List String) : List (String × String × Native) := [
  ("setProperty", "(Ljava/lang/String;Ljava/lang/String;)Ljava/lang/Object;", fun _ => do
    let name ← textOf (← localRef 1)
    let value ← textOf (← localRef 2)
    if name ∉ hidden then printLine (name ++ "=" ++ value.replace "\n" "\\n")
    pushRef none)]

end JavaMachine.Native
