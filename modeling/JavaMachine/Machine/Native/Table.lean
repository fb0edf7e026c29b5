import JavaMachine.Machine.Native.Basic
import JavaMachine.Machine.Native.File
import JavaMachine.Machine.Native.Language
import JavaMachine.Machine.Native.Loader
import JavaMachine.Machine.Native.Memory
import JavaMachine.Machine.Native.System
import JavaMachine.Machine.Native.Thread
import JavaMachine.Number.Elementary

/-!
The table of the native methods that the machine itself provides, with those of numbers: bit patterns, which slots hold
anyway, and elementary functions.
-/

/-! ## Numbers -/

namespace JavaMachine.Native

open M

/-- The first argument as it is. -/
def copyOne : Native := fun _ => do push (← onLocals (Slots.read 0))

/-- The two slots of the first argument as they are. -/
def copyTwo : Native := fun _ => do
  push (← onLocals (Slots.read 0))
  push (← onLocals (Slots.read 1))

/-- The methods of single floats. -/
def single : List (String × String × Native) := [
  ("floatToRawIntBits", "(F)I", copyOne),
  ("intBitsToFloat", "(I)F", copyOne)]

/-- The methods of doubles. -/
def double : List (String × String × Native) := [
  ("doubleToRawLongBits", "(D)J", copyTwo),
  ("longBitsToDouble", "(J)D", copyTwo)]

/-- Elementary functions. -/
def strictMath : List (String × String × Native) :=
  Double.unary.map (fun (name, f) => (name, "(D)D", fun _ => do pushDouble (f (← localDouble 0)))) ++
  Double.binary.map fun (name, f) =>
    (name, "(DD)D", fun _ => do pushDouble (f (← localDouble 0) (← localDouble 2)))

end JavaMachine.Native

/-! ## All native methods -/

namespace JavaMachine.Natives

/-- The native methods of the machine by class. -/
def families : List (String × List (String × String × Native)) := [
  ("java/lang/Object", Native.object),
  ("java/lang/Class", Native.classMethods),
  ("java/lang/System", Native.system),
  ("java/lang/Float", Native.single),
  ("java/lang/Double", Native.double),
  ("java/lang/StrictMath", Native.strictMath),
  ("java/lang/String", Native.string),
  ("java/lang/Throwable", Native.throwable),
  ("java/lang/Thread", Native.thread),
  ("java/lang/Runtime", Native.runtime),
  ("java/lang/Shutdown", Native.shutdown),
  ("java/lang/ClassLoader", Native.classLoader),
  ("java/lang/Package", Native.package),
  ("sun/misc/Unsafe", Native.direct),
  ("sun/misc/VM", Native.virtualMachine),
  ("sun/reflect/Reflection", Native.reflection),
  ("java/security/AccessController", Native.accessController),
  ("java/io/FileOutputStream", Native.fileOutput),
  ("java/io/FileInputStream", Native.fileInput),
  ("java/io/UnixFileSystem", Native.fileSystem),
  ("java/util/jar/JarFile", Native.archiveFile)]

/-- The native methods of the machine. -/
def standard : Natives :=
  families.foldl (fun n (owner, methods) => n.registerAll owner methods) {}

end JavaMachine.Natives
