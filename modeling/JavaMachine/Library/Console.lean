import JavaMachine.Library.Basic

/-!
Classes for programs without streams, under a name of one's choice: a console, and a loader that defines
the classes of a table of bytes.
-/

namespace JavaMachine.Library

/-- A class of static methods that print values. -/
def consoleClass (name : String) : ClassSource where
  name := name
  methods := [
    declared 265 "println" "(Ljava/lang/String;)V",
    declared 265 "println" "(I)V",
    declared 265 "println" "(J)V",
    declared 265 "println" "(F)V",
    declared 265 "println" "(D)V",
    declared 265 "depth" "()I",
    declared 265 "frames" "()I"]

/-- The descriptor of methods from a name to a class. -/
def nameToClass : String := "(Ljava/lang/String;)Ljava/lang/Class;"

/-- The descriptor of the method that defines a class. -/
def defineDesc : String :=
  "(Ljava/lang/String;[BIILjava/security/ProtectionDomain;Ljava/lang/String;)Ljava/lang/Class;"

/-- A question to the class of loaders. -/
def askLoader (name desc : String) : Statement := callVirtual "java/lang/ClassLoader" name desc

/-- A loader that defines the classes of a table and leaves all others to the bootstrap loader. -/
def tableLoaderClass (name : String) : ClassSource where
  name := name
  super := "java/lang/ClassLoader"
  defaultConstructor := true
  methods := [
    declared 265 "bytesFor" "(Ljava/lang/String;)[B",
    withLocals 3 (method 1 "loadClass" nameToClass
      [.plain .aload_1, callStatic name "bytesFor" "(Ljava/lang/String;)[B", .plain .astore_2,
       .plain .aload_2, .jump .ifnonnull "d", .plain .aload_0, .plain .aload_1,
       askLoader "findBootstrapClass" nameToClass, .plain .areturn, .label "d", .plain .aload_0,
       .plain .aload_1, .plain .aload_2, .plain .iconst_0, .plain .aload_2, .plain .arraylength,
       .plain .aconst_null, .plain .aconst_null, askLoader "defineClass1" defineDesc, .plain .areturn]),
    method 9 "make" "()Ljava/lang/ClassLoader;"
      [.type .new name, .plain .dup, callSpecial name "<init>" "()V", .plain .areturn],
    method 1 "loaded" nameToClass
      [.plain .aload_0, .plain .aload_1, askLoader "findLoadedClass0" nameToClass, .plain .areturn],
    method 1 "boot" nameToClass
      [.plain .aload_0, .plain .aload_1, askLoader "findBootstrapClass" nameToClass, .plain .areturn],
    method 1 "define" "(Ljava/lang/String;[BIILjava/lang/String;)Ljava/lang/Class;"
      [.plain .aload_0, .plain .aload_1, .plain .aload_2, .plain .iload_3, .local .iload 4,
       .plain .aconst_null, .local .aload 5, askLoader "defineClass1" defineDesc, .plain .areturn]]

end JavaMachine.Library
