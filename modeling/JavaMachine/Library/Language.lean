import JavaMachine.Library.Basic

/-!
The classes that every program needs: objects, classes, strings, the system, loaders, and the exceptions
that the machine throws.
-/

namespace JavaMachine.Library

/-- The root of all classes. -/
def objectClass : ClassSource where
  name := "java/lang/Object"
  super := ""
  methods := [
    method 1 "<init>" "()V" [.plain .vreturn],
    declared 266 "registerNatives" "()V",
    method 8 "<clinit>" "()V" [callStatic "java/lang/Object" "registerNatives" "()V", .plain .vreturn],
    declared 257 "hashCode" "()I",
    declared 273 "getClass" "()Ljava/lang/Class;",
    declared 260 "clone" "()Ljava/lang/Object;",
    method 1 "equals" "(Ljava/lang/Object;)Z"
      [.plain .aload_0, .plain .aload_1, .jump .if_acmpne "n", .plain .iconst_1, .plain .ireturn,
       .label "n", .plain .iconst_0, .plain .ireturn],
    declared 273 "notify" "()V",
    declared 273 "notifyAll" "()V",
    declared 273 "wait" "(J)V"]

/-- The class of mirrors. -/
def classClass : ClassSource where
  name := "java/lang/Class"
  flags := 0x31
  fields := [
    field 2 "classLoader" "Ljava/lang/ClassLoader;"]
  methods := [
    declared 258 "getName0" "()Ljava/lang/String;",
    declared 257 "isInterface" "()Z",
    declared 257 "isArray" "()Z",
    declared 257 "isPrimitive" "()Z",
    declared 257 "getSuperclass" "()Ljava/lang/Class;",
    declared 257 "getComponentType" "()Ljava/lang/Class;",
    declared 257 "getModifiers" "()I",
    declared 257 "isAssignableFrom" "(Ljava/lang/Class;)Z",
    declared 257 "isInstance" "(Ljava/lang/Object;)Z",
    declared 257 "getClassLoader0" "()Ljava/lang/ClassLoader;",
    declared 265 "getPrimitiveClass" "(Ljava/lang/String;)Ljava/lang/Class;",
    declared 257 "getInterfaces0" "()[Ljava/lang/Class;",
    declared 257 "getDeclaringClass0" "()Ljava/lang/Class;",
    declared 265 "desiredAssertionStatus0" "(Ljava/lang/Class;)Z",
    declared 257 "getDeclaredFields0" "(Z)[Ljava/lang/reflect/Field;",
    declared 265 "forName0" "(Ljava/lang/String;ZLjava/lang/ClassLoader;Ljava/lang/Class;)Ljava/lang/Class;",
    method 1 "getName" "()Ljava/lang/String;"
      [.plain .aload_0, callVirtual "java/lang/Class" "getName0" "()Ljava/lang/String;", .plain .areturn],
    method 9 "forName" "(Ljava/lang/String;)Ljava/lang/Class;"
      [.plain .aload_0, .plain .iconst_1, .plain .aconst_null, .plain .aconst_null,
       callStatic "java/lang/Class" "forName0" "(Ljava/lang/String;ZLjava/lang/ClassLoader;Ljava/lang/Class;)Ljava/lang/Class;",
       .plain .areturn]]

/-- Strings: an array of units that is never written. -/
def stringClass : ClassSource where
  name := "java/lang/String"
  flags := 0x31
  interfaces := ["java/io/Serializable"]
  fields := [
    field 18 "value" "[C"]
  methods := [
    method 1 "<init>" "([C)V"
      [.plain .aload_0, callSpecial "java/lang/Object" "<init>" "()V", .plain .aload_0, .plain .aload_1,
       store "java/lang/String" "value" "[C", .plain .vreturn],
    method 1 "length" "()I"
      [.plain .aload_0, load "java/lang/String" "value" "[C", .plain .arraylength, .plain .ireturn],
    method 1 "charAt" "(I)C"
      [.plain .aload_0, load "java/lang/String" "value" "[C", .plain .iload_1, .plain .caload,
       .plain .ireturn],
    method 1 "toString" "()Ljava/lang/String;" [.plain .aload_0, .plain .areturn],
    declared 257 "intern" "()Ljava/lang/String;",
    withLocals 3 (method 1 "concat" "(Ljava/lang/String;)Ljava/lang/String;"
      [.plain .aload_0, load "java/lang/String" "value" "[C", .plain .arraylength, .plain .aload_1,
       load "java/lang/String" "value" "[C", .plain .arraylength, .plain .iadd, .u8 .newarray 5,
       .plain .astore_2, .plain .aload_0, load "java/lang/String" "value" "[C", .plain .iconst_0,
       .plain .aload_2, .plain .iconst_0, .plain .aload_0, load "java/lang/String" "value" "[C",
       .plain .arraylength,
       callStatic "java/lang/System" "arraycopy" "(Ljava/lang/Object;ILjava/lang/Object;II)V",
       .plain .aload_1, load "java/lang/String" "value" "[C", .plain .iconst_0, .plain .aload_2,
       .plain .aload_0, load "java/lang/String" "value" "[C", .plain .arraylength, .plain .aload_1,
       load "java/lang/String" "value" "[C", .plain .arraylength,
       callStatic "java/lang/System" "arraycopy" "(Ljava/lang/Object;ILjava/lang/Object;II)V",
       .type .new "java/lang/String", .plain .dup, .plain .aload_2,
       callSpecial "java/lang/String" "<init>" "([C)V", .plain .areturn])]

/-- The standard streams and services of the system. -/
def systemClass : ClassSource where
  name := "java/lang/System"
  flags := 0x31
  fields := [
    field 9 "in" "Ljava/io/InputStream;",
    field 9 "out" "Ljava/io/PrintStream;",
    field 9 "err" "Ljava/io/PrintStream;"]
  methods := [
    declared 265 "arraycopy" "(Ljava/lang/Object;ILjava/lang/Object;II)V",
    declared 265 "currentTimeMillis" "()J",
    declared 265 "nanoTime" "()J",
    declared 265 "identityHashCode" "(Ljava/lang/Object;)I",
    declared 265 "initProperties" "(Ljava/util/Properties;)Ljava/util/Properties;",
    declared 265 "setIn0" "(Ljava/io/InputStream;)V",
    declared 265 "setOut0" "(Ljava/io/PrintStream;)V",
    declared 265 "setErr0" "(Ljava/io/PrintStream;)V",
    declared 265 "mapLibraryName" "(Ljava/lang/String;)Ljava/lang/String;"]

/-- Marks classes whose objects may be copied. -/
def cloneableClass : ClassSource where
  name := "java/lang/Cloneable"
  flags := 0x601

/-- Marks classes whose objects may be written out. -/
def serializableClass : ClassSource where
  name := "java/io/Serializable"
  flags := 0x601

/-- What can be run. -/
def runnableClass : ClassSource where
  name := "java/lang/Runnable"
  flags := 0x601
  methods := [
    declared 1025 "run" "()V"]

/-- What can be thrown, with a message and a cause. -/
def throwableClass : ClassSource where
  name := "java/lang/Throwable"
  interfaces := ["java/io/Serializable"]
  fields := [
    field 2 "detailMessage" "Ljava/lang/String;",
    field 2 "cause" "Ljava/lang/Throwable;"]
  methods := [
    method 1 "<init>" "()V"
      [.plain .aload_0, callSpecial "java/lang/Object" "<init>" "()V", .plain .aload_0,
       callVirtual "java/lang/Throwable" "fillInStackTrace" "()Ljava/lang/Throwable;", .plain .pop,
       .plain .vreturn],
    method 1 "<init>" "(Ljava/lang/String;)V"
      [.plain .aload_0, callSpecial "java/lang/Object" "<init>" "()V", .plain .aload_0, .local .aload 1,
       store "java/lang/Throwable" "detailMessage" "Ljava/lang/String;", .plain .aload_0,
       callVirtual "java/lang/Throwable" "fillInStackTrace" "()Ljava/lang/Throwable;", .plain .pop,
       .plain .vreturn],
    method 1 "<init>" "(Ljava/lang/String;Ljava/lang/Throwable;)V"
      [.plain .aload_0, callSpecial "java/lang/Object" "<init>" "()V", .plain .aload_0, .local .aload 1,
       store "java/lang/Throwable" "detailMessage" "Ljava/lang/String;", .plain .aload_0, .local .aload 2,
       store "java/lang/Throwable" "cause" "Ljava/lang/Throwable;", .plain .aload_0,
       callVirtual "java/lang/Throwable" "fillInStackTrace" "()Ljava/lang/Throwable;", .plain .pop,
       .plain .vreturn],
    method 1 "<init>" "(Ljava/lang/Throwable;)V"
      [.plain .aload_0, callSpecial "java/lang/Object" "<init>" "()V", .plain .aload_0, .local .aload 1,
       store "java/lang/Throwable" "cause" "Ljava/lang/Throwable;", .plain .aload_0,
       callVirtual "java/lang/Throwable" "fillInStackTrace" "()Ljava/lang/Throwable;", .plain .pop,
       .plain .vreturn],
    declared 257 "fillInStackTrace" "()Ljava/lang/Throwable;",
    declared 257 "getStackTraceDepth" "()I",
    declared 257 "getStackTraceElement" "(I)Ljava/lang/StackTraceElement;",
    method 1 "getMessage" "()Ljava/lang/String;"
      [.plain .aload_0, load "java/lang/Throwable" "detailMessage" "Ljava/lang/String;", .plain .areturn],
    method 1 "getCause" "()Ljava/lang/Throwable;"
      [.plain .aload_0, load "java/lang/Throwable" "cause" "Ljava/lang/Throwable;", .plain .areturn]]

/-- Wraps an exception that escaped a class initializer. -/
def exceptionInInitializerErrorClass : ClassSource where
  name := "java/lang/ExceptionInInitializerError"
  super := "java/lang/LinkageError"
  defaultConstructor := true
  methods := [
    method 1 "<init>" "(Ljava/lang/Throwable;)V"
      [.plain .aload_0, .plain .aconst_null, .plain .aload_1,
       callSpecial "java/lang/LinkageError" "<init>" "(Ljava/lang/String;Ljava/lang/Throwable;)V",
       .plain .vreturn]]

/-- A frame of a stack trace. -/
def stackTraceElementClass : ClassSource where
  name := "java/lang/StackTraceElement"
  defaultConstructor := true
  fields := [
    field 2 "declaringClass" "Ljava/lang/String;",
    field 2 "methodName" "Ljava/lang/String;",
    field 2 "fileName" "Ljava/lang/String;",
    field 2 "lineNumber" "I"]

/-- Loaders of classes. -/
def classLoaderClass : ClassSource where
  name := "java/lang/ClassLoader"
  flags := 0x421
  methods := [
    method 4 "<init>" "()V"
      [.plain .aload_0, callSpecial "java/lang/Object" "<init>" "()V", .plain .vreturn],
    declared 1025 "loadClass" "(Ljava/lang/String;)Ljava/lang/Class;",
    declared 276 "findBootstrapClass" "(Ljava/lang/String;)Ljava/lang/Class;",
    declared 276 "findLoadedClass0" "(Ljava/lang/String;)Ljava/lang/Class;",
    declared 276 "defineClass1" "(Ljava/lang/String;[BIILjava/security/ProtectionDomain;Ljava/lang/String;)Ljava/lang/Class;",
    declared 265 "findBuiltinLib" "(Ljava/lang/String;)Ljava/lang/String;"]

/-- The exceptions and errors with their superclasses. -/
def throwables : List ClassSource := [
  .throwable "java/lang/Exception" "java/lang/Throwable",
  .throwable "java/lang/RuntimeException" "java/lang/Exception",
  .throwable "java/lang/Error" "java/lang/Throwable",
  .throwable "java/lang/LinkageError" "java/lang/Error",
  .throwable "java/lang/NoClassDefFoundError" "java/lang/LinkageError",
  .throwable "java/lang/ClassFormatError" "java/lang/LinkageError",
  .throwable "java/lang/UnsupportedClassVersionError" "java/lang/ClassFormatError",
  .throwable "java/lang/ClassCircularityError" "java/lang/LinkageError",
  .throwable "java/lang/IncompatibleClassChangeError" "java/lang/LinkageError",
  .throwable "java/lang/NoSuchFieldError" "java/lang/IncompatibleClassChangeError",
  .throwable "java/lang/NoSuchMethodError" "java/lang/IncompatibleClassChangeError",
  .throwable "java/lang/IllegalAccessError" "java/lang/IncompatibleClassChangeError",
  .throwable "java/lang/AbstractMethodError" "java/lang/IncompatibleClassChangeError",
  .throwable "java/lang/InstantiationError" "java/lang/IncompatibleClassChangeError",
  .throwable "java/lang/UnsatisfiedLinkError" "java/lang/LinkageError",
  .throwable "java/lang/VerifyError" "java/lang/LinkageError",
  .throwable "java/lang/VirtualMachineError" "java/lang/Error",
  .throwable "java/lang/InternalError" "java/lang/VirtualMachineError",
  .throwable "java/lang/StackOverflowError" "java/lang/VirtualMachineError",
  .throwable "java/lang/NullPointerException" "java/lang/RuntimeException",
  .throwable "java/lang/ArithmeticException" "java/lang/RuntimeException",
  .throwable "java/lang/IndexOutOfBoundsException" "java/lang/RuntimeException",
  .throwable "java/lang/ArrayIndexOutOfBoundsException" "java/lang/IndexOutOfBoundsException",
  .throwable "java/lang/ArrayStoreException" "java/lang/RuntimeException",
  .throwable "java/lang/ClassCastException" "java/lang/RuntimeException",
  .throwable "java/lang/NegativeArraySizeException" "java/lang/RuntimeException",
  .throwable "java/lang/IllegalArgumentException" "java/lang/RuntimeException",
  .throwable "java/lang/IllegalThreadStateException" "java/lang/IllegalArgumentException",
  .throwable "java/lang/ReflectiveOperationException" "java/lang/Exception",
  .throwable "java/lang/ClassNotFoundException" "java/lang/ReflectiveOperationException",
  .throwable "java/lang/CloneNotSupportedException" "java/lang/Exception",
  .throwable "java/lang/InterruptedException" "java/lang/Exception",
  .throwable "java/io/IOException" "java/lang/Exception",
  .throwable "java/io/FileNotFoundException" "java/io/IOException"]

/-- The classes that every program needs. -/
def language : List ClassSource :=
  [objectClass, classClass, stringClass, systemClass, cloneableClass, serializableClass,
   runnableClass, throwableClass, exceptionInInitializerErrorClass, stackTraceElementClass,
   classLoaderClass] ++ throwables

end JavaMachine.Library
