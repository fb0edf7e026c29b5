import JavaMachine.Library.Files
import JavaMachine.Library.Language
import JavaMachine.Library.Support
import JavaMachine.Library.Threads

/-!
The parts of the small class library by name, assembled.
-/

namespace JavaMachine.Library

/-- The parts by name. -/
def parts : List (String × List (String × List UInt8)) := [
  ("core", language.map served),
  ("threads", threads.map served),
  ("math", mathematics.map served),
  ("unsafe", directAccess.map served),
  ("misc", support.map served),
  ("io", files.map served)]

end JavaMachine.Library
