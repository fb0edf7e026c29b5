import JavaMachine.ClassFile.Fault
import JavaMachine.ClassPath.Storage
import JavaMachine.Machine.State

/-!
Failures that an operation of the machine hands to its caller: an error that is to become a Java exception,
an exception that escaped a call, and causes from below. A failure may have a cause or a context.
-/

namespace JavaMachine

/-! ## The throwable classes that the machine itself raises -/

namespace Throwables

def classFormat := "java/lang/ClassFormatError"
def unsupportedVersion := "java/lang/UnsupportedClassVersionError"
def noClassDef := "java/lang/NoClassDefFoundError"
def circularity := "java/lang/ClassCircularityError"
def incompatibleChange := "java/lang/IncompatibleClassChangeError"
def noSuchField := "java/lang/NoSuchFieldError"
def noSuchMethod := "java/lang/NoSuchMethodError"
def illegalAccess := "java/lang/IllegalAccessError"
def abstractMethod := "java/lang/AbstractMethodError"
def instantiation := "java/lang/InstantiationError"
def unsatisfiedLink := "java/lang/UnsatisfiedLinkError"
def verify := "java/lang/VerifyError"
def linkage := "java/lang/LinkageError"
def inInitializer := "java/lang/ExceptionInInitializerError"
def internal := "java/lang/InternalError"
def stackOverflow := "java/lang/StackOverflowError"
def nullPointer := "java/lang/NullPointerException"
def arrayIndex := "java/lang/ArrayIndexOutOfBoundsException"
def arrayStore := "java/lang/ArrayStoreException"
def classCast := "java/lang/ClassCastException"
def arithmetic := "java/lang/ArithmeticException"
def negativeSize := "java/lang/NegativeArraySizeException"
def classNotFound := "java/lang/ClassNotFoundException"
def cloneNotSupported := "java/lang/CloneNotSupportedException"
def illegalArgument := "java/lang/IllegalArgumentException"
def interrupted := "java/lang/InterruptedException"
def threadState := "java/lang/IllegalThreadStateException"
def indexOutOfBounds := "java/lang/IndexOutOfBoundsException"
def io := "java/io/IOException"
def fileNotFound := "java/io/FileNotFoundException"

end Throwables

/-- A failure. -/
inductive Failure where
  | java (name message : String) (cause : Option Failure)
  | thrown (object : Option Ref)
  | format (fault : FormatFault)
  | constant (fault : IndexFault)
  | encoding (fault : Text.ModifiedUtf8.Fault)
  | descriptor (fault : Descriptor.Fault)
  | assembly (kind message : String)
  | read (fault : ReadFault)
  | noMain (name : String)
  | plain (message : String)
  | halted (halt : Halt)
  | within (context : String) (fault : Failure)
deriving Repr, Inhabited

/-- A result of the machine that may be a failure. -/
abbrev Attempt (α : Type) := ExceptT Failure M α

namespace Failure

/-- The failure below this one. -/
def inner? : Failure → Option Failure
  | .java _ _ cause => cause
  | .within _ f => some f
  | _ => none

/-- The first failure of the chain, from the outside in, that a test picks. -/
def find? (pick : Failure → Option α) : Failure → Option α
  | .java n t (some cause) => pick (.java n t (some cause)) <|> find? pick cause
  | .within c f => pick (.within c f) <|> find? pick f
  | f => pick f

/-- The exception that escaped, if any. -/
def thrown? : Failure → Option (Option Ref) :=
  find? fun
    | .thrown o => some o
    | _ => none

/-- The outermost error that is to become an exception: class, message and cause. -/
def java? : Failure → Option (String × String × Option Failure) :=
  find? fun
    | .java n t c => some (n, t, c)
    | _ => none

/-- The halt that was caught, if any. -/
def halt? : Failure → Option Halt :=
  find? fun
    | .halted h => some h
    | _ => none

end Failure

namespace Attempt

/-- Fails with a Java error. -/
def fail (name message : String) : Attempt α := throw (.java name message none)

/-- Fails with a Java error under a condition. -/
def failIf (condition : Bool) (name message : String) : Attempt Unit :=
  if condition then fail name message else pure ()

/-- An action of the machine that does not fail. -/
def lift (act : M α) : Attempt α := ExceptT.lift act

/-- The value, where there has to be one. -/
def some! (v : Option α) : Attempt α := lift (M.some! v)

/-- Names the step that failed. -/
def inContext (context : String) (act : Attempt α) : Attempt α :=
  tryCatch act fun f => throw (.within context f)

end Attempt

end JavaMachine
