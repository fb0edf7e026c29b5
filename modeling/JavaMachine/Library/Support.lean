import JavaMachine.Library.Basic

/-!
Classes around the machine: reflection on callers, privileged actions, memory, shutdown, packages and
properties; numbers as bit patterns, and elementary functions; and direct access to memory, and fields as objects.
-/

namespace JavaMachine.Library

/-- The state of the virtual machine. -/
def virtualMachineClass : ClassSource where
  name := "sun/misc/VM"
  methods := [
    declared 265 "initialize" "()V"]

/-- What a method can learn about its callers. -/
def reflectionClass : ClassSource where
  name := "sun/reflect/Reflection"
  methods := [
    declared 265 "getCallerClass" "()Ljava/lang/Class;",
    declared 265 "getClassAccessFlags" "(Ljava/lang/Class;)I"]

/-- An action that throws no declared exception. -/
def privilegedActionClass : ClassSource where
  name := "java/security/PrivilegedAction"
  flags := 0x601
  methods := [
    declared 1025 "run" "()Ljava/lang/Object;"]

/-- An action that may throw a declared exception. -/
def privilegedExceptionActionClass : ClassSource where
  name := "java/security/PrivilegedExceptionAction"
  flags := 0x601
  methods := [
    declared 1025 "run" "()Ljava/lang/Object;"]

/-- Wraps a declared exception of an action. -/
def privilegedActionExceptionClass : ClassSource where
  name := "java/security/PrivilegedActionException"
  super := "java/lang/Exception"
  methods := [
    method 1 "<init>" "(Ljava/lang/Exception;)V"
      [.plain .aload_0, .plain .aconst_null, .plain .aload_1,
       callSpecial "java/lang/Exception" "<init>" "(Ljava/lang/String;Ljava/lang/Throwable;)V",
       .plain .vreturn]]

/-- Runs privileged actions. -/
def accessControllerClass : ClassSource where
  name := "java/security/AccessController"
  methods := [
    declared 265 "doPrivileged" "(Ljava/security/PrivilegedAction;)Ljava/lang/Object;",
    declared 265 "doPrivileged" "(Ljava/security/PrivilegedAction;Ljava/security/AccessControlContext;)Ljava/lang/Object;",
    declared 265 "doPrivileged" "(Ljava/security/PrivilegedExceptionAction;)Ljava/lang/Object;",
    declared 265 "doPrivileged" "(Ljava/security/PrivilegedExceptionAction;Ljava/security/AccessControlContext;)Ljava/lang/Object;",
    declared 265 "getStackAccessControlContext" "()Ljava/security/AccessControlContext;"]

/-- Memory and processors. -/
def runtimeClass : ClassSource where
  name := "java/lang/Runtime"
  defaultConstructor := true
  methods := [
    declared 257 "availableProcessors" "()I",
    declared 257 "freeMemory" "()J",
    declared 257 "totalMemory" "()J",
    declared 257 "maxMemory" "()J",
    declared 257 "gc" "()V"]

/-- The end of the program. -/
def shutdownClass : ClassSource where
  name := "java/lang/Shutdown"
  methods := [
    declared 265 "beforeHalt" "()V",
    declared 265 "halt0" "(I)V"]

/-- Packages. -/
def packageClass : ClassSource where
  name := "java/lang/Package"
  methods := [
    declared 265 "getSystemPackage0" "(Ljava/lang/String;)Ljava/lang/String;"]

/-- A table of properties. -/
def propertiesClass : ClassSource where
  name := "java/util/Properties"
  defaultConstructor := true
  methods := [
    declared 257 "setProperty" "(Ljava/lang/String;Ljava/lang/String;)Ljava/lang/Object;"]

/-- Classes around the machine. -/
def support : List ClassSource :=
  [virtualMachineClass, reflectionClass, privilegedActionClass, privilegedExceptionActionClass,
   privilegedActionExceptionClass, accessControllerClass, runtimeClass, shutdownClass, packageClass,
   propertiesClass]

/-! ## Numbers -/

/-- Bit patterns of floats. -/
def floatClass : ClassSource where
  name := "java/lang/Float"
  methods := [
    declared 265 "floatToRawIntBits" "(F)I",
    declared 265 "intBitsToFloat" "(I)F"]

/-- Bit patterns of doubles. -/
def doubleClass : ClassSource where
  name := "java/lang/Double"
  methods := [
    declared 265 "doubleToRawLongBits" "(D)J",
    declared 265 "longBitsToDouble" "(J)D"]

/-- Elementary functions. -/
def strictMathClass : ClassSource where
  name := "java/lang/StrictMath"
  methods := [
    declared 265 "sin" "(D)D",
    declared 265 "cos" "(D)D",
    declared 265 "tan" "(D)D",
    declared 265 "asin" "(D)D",
    declared 265 "acos" "(D)D",
    declared 265 "atan" "(D)D",
    declared 265 "exp" "(D)D",
    declared 265 "log" "(D)D",
    declared 265 "log10" "(D)D",
    declared 265 "sqrt" "(D)D",
    declared 265 "cbrt" "(D)D",
    declared 265 "sinh" "(D)D",
    declared 265 "cosh" "(D)D",
    declared 265 "tanh" "(D)D",
    declared 265 "expm1" "(D)D",
    declared 265 "log1p" "(D)D",
    declared 265 "atan2" "(DD)D",
    declared 265 "pow" "(DD)D",
    declared 265 "hypot" "(DD)D",
    declared 265 "IEEEremainder" "(DD)D"]

/-- Bit patterns and elementary functions. -/
def mathematics : List ClassSource :=
  [floatClass, doubleClass, strictMathClass]

/-! ## Direct access -/

/-- Direct access to fields, elements and memory. -/
def unsafeClass : ClassSource where
  name := "sun/misc/Unsafe"
  defaultConstructor := true
  methods := [
    declared 257 "arrayBaseOffset" "(Ljava/lang/Class;)I",
    declared 257 "arrayIndexScale" "(Ljava/lang/Class;)I",
    declared 257 "addressSize" "()I",
    declared 257 "pageSize" "()I",
    declared 257 "objectFieldOffset" "(Ljava/lang/reflect/Field;)J",
    declared 257 "getInt" "(Ljava/lang/Object;J)I",
    declared 257 "getIntVolatile" "(Ljava/lang/Object;J)I",
    declared 257 "putInt" "(Ljava/lang/Object;JI)V",
    declared 257 "putIntVolatile" "(Ljava/lang/Object;JI)V",
    declared 257 "putOrderedInt" "(Ljava/lang/Object;JI)V",
    declared 257 "getLong" "(Ljava/lang/Object;J)J",
    declared 257 "getLongVolatile" "(Ljava/lang/Object;J)J",
    declared 257 "putLong" "(Ljava/lang/Object;JJ)V",
    declared 257 "putLongVolatile" "(Ljava/lang/Object;JJ)V",
    declared 257 "putOrderedLong" "(Ljava/lang/Object;JJ)V",
    declared 257 "getObject" "(Ljava/lang/Object;J)Ljava/lang/Object;",
    declared 257 "getObjectVolatile" "(Ljava/lang/Object;J)Ljava/lang/Object;",
    declared 257 "putObject" "(Ljava/lang/Object;JLjava/lang/Object;)V",
    declared 257 "putObjectVolatile" "(Ljava/lang/Object;JLjava/lang/Object;)V",
    declared 257 "putOrderedObject" "(Ljava/lang/Object;JLjava/lang/Object;)V",
    declared 257 "compareAndSwapInt" "(Ljava/lang/Object;JII)Z",
    declared 257 "compareAndSwapLong" "(Ljava/lang/Object;JJJ)Z",
    declared 257 "compareAndSwapObject" "(Ljava/lang/Object;JLjava/lang/Object;Ljava/lang/Object;)Z",
    declared 257 "allocateMemory" "(J)J",
    declared 257 "freeMemory" "(J)V",
    declared 257 "putLong" "(JJ)V",
    declared 257 "getLong" "(J)J",
    declared 257 "putByte" "(JB)V",
    declared 257 "getByte" "(J)B"]

/-- A field of a class as an object. -/
def fieldClass : ClassSource where
  name := "java/lang/reflect/Field"
  defaultConstructor := true
  fields := [
    field 2 "clazz" "Ljava/lang/Class;",
    field 2 "name" "Ljava/lang/String;",
    field 2 "type" "Ljava/lang/Class;",
    field 2 "modifiers" "I",
    field 2 "slot" "I"]

/-- Direct access and fields as objects. -/
def directAccess : List ClassSource :=
  [unsafeClass, fieldClass]

end JavaMachine.Library
