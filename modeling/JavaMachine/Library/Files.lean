import JavaMachine.Library.Basic

/-!
Files, streams and archives.
-/

namespace JavaMachine.Library

/-- A number that stands for an open file. -/
def fileDescriptorClass : ClassSource where
  name := "java/io/FileDescriptor"
  defaultConstructor := true
  fields := [
    field 2 "fd" "I"]
  methods := [
    withLocals 2 (method 9 "of" "(I)Ljava/io/FileDescriptor;"
      [.type .new "java/io/FileDescriptor", .plain .dup,
       callSpecial "java/io/FileDescriptor" "<init>" "()V", .plain .astore_1, .plain .aload_1,
       .plain .iload_0, store "java/io/FileDescriptor" "fd" "I", .plain .aload_1, .plain .areturn])]

/-- A stream of bytes to a file. -/
def fileOutputStreamClass : ClassSource where
  name := "java/io/FileOutputStream"
  defaultConstructor := true
  fields := [
    field 2 "fd" "Ljava/io/FileDescriptor;"]
  methods := [
    declared 257 "open0" "(Ljava/lang/String;Z)V",
    declared 257 "write" "(IZ)V",
    declared 257 "writeBytes" "([BIIZ)V",
    declared 257 "close0" "()V",
    withLocals 2 (method 9 "of" "(I)Ljava/io/FileOutputStream;"
      [.type .new "java/io/FileOutputStream", .plain .dup,
       callSpecial "java/io/FileOutputStream" "<init>" "()V", .plain .astore_1, .plain .aload_1,
       .plain .iload_0, callStatic "java/io/FileDescriptor" "of" "(I)Ljava/io/FileDescriptor;",
       store "java/io/FileOutputStream" "fd" "Ljava/io/FileDescriptor;", .plain .aload_1, .plain .areturn])]

/-- A stream of bytes from a file. -/
def fileInputStreamClass : ClassSource where
  name := "java/io/FileInputStream"
  defaultConstructor := true
  fields := [
    field 2 "fd" "Ljava/io/FileDescriptor;"]
  methods := [
    declared 257 "open0" "(Ljava/lang/String;)V",
    declared 257 "read0" "()I",
    declared 257 "readBytes" "([BII)I",
    declared 257 "available0" "()I",
    declared 257 "close0" "()V",
    withLocals 2 (method 9 "of" "(I)Ljava/io/FileInputStream;"
      [.type .new "java/io/FileInputStream", .plain .dup,
       callSpecial "java/io/FileInputStream" "<init>" "()V", .plain .astore_1, .plain .aload_1,
       .plain .iload_0, callStatic "java/io/FileDescriptor" "of" "(I)Ljava/io/FileDescriptor;",
       store "java/io/FileInputStream" "fd" "Ljava/io/FileDescriptor;", .plain .aload_1, .plain .areturn])]

/-- A path. -/
def fileClass : ClassSource where
  name := "java/io/File"
  defaultConstructor := true
  fields := [
    field 2 "path" "Ljava/lang/String;"]
  methods := [
    method 9 "of" "(Ljava/lang/String;)Ljava/io/File;"
      [.type .new "java/io/File", .plain .dup, callSpecial "java/io/File" "<init>" "()V", .plain .dup,
       .plain .aload_0, store "java/io/File" "path" "Ljava/lang/String;", .plain .areturn]]

/-- Questions about paths. -/
def unixFileSystemClass : ClassSource where
  name := "java/io/UnixFileSystem"
  defaultConstructor := true
  methods := [
    declared 257 "canonicalize0" "(Ljava/lang/String;)Ljava/lang/String;",
    declared 257 "getBooleanAttributes0" "(Ljava/io/File;)I",
    declared 257 "getLength" "(Ljava/io/File;)J"]

/-- An archive by name. -/
def jarFileClass : ClassSource where
  name := "java/util/jar/JarFile"
  defaultConstructor := true
  fields := [
    field 2 "name" "Ljava/lang/String;"]
  methods := [
    declared 257 "getMetaInfEntryNames" "()[Ljava/lang/String;",
    method 9 "of" "(Ljava/lang/String;)Ljava/util/jar/JarFile;"
      [.type .new "java/util/jar/JarFile", .plain .dup, callSpecial "java/util/jar/JarFile" "<init>" "()V",
       .plain .dup, .plain .aload_0, store "java/util/jar/JarFile" "name" "Ljava/lang/String;",
       .plain .areturn]]

/-- Files, streams and archives. -/
def files : List ClassSource :=
  [fileDescriptorClass, fileOutputStreamClass, fileInputStreamClass, fileClass, unixFileSystemClass,
   jarFileClass]

end JavaMachine.Library
