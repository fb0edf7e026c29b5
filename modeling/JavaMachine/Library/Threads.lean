import JavaMachine.Library.Basic

/-!
Threads and their groups.
-/

namespace JavaMachine.Library

/-- Groups of threads. -/
def threadGroupClass : ClassSource where
  name := "java/lang/ThreadGroup"
  defaultConstructor := true
  fields := [
    field 2 "name" "Ljava/lang/String;"]
  methods := [
    method 1 "<init>" "(Ljava/lang/ThreadGroup;Ljava/lang/String;)V"
      [.plain .aload_0, callSpecial "java/lang/Object" "<init>" "()V", .plain .aload_0, .plain .aload_2,
       store "java/lang/ThreadGroup" "name" "Ljava/lang/String;", .plain .vreturn]]

/-- Threads. Joining one gives way until it has ended. -/
def threadClass : ClassSource where
  name := "java/lang/Thread"
  interfaces := ["java/lang/Runnable"]
  fields := [
    field 2 "name" "Ljava/lang/String;",
    field 2 "priority" "I",
    field 2 "group" "Ljava/lang/ThreadGroup;",
    field 2 "target" "Ljava/lang/Runnable;"]
  methods := [
    method 1 "<init>" "(Ljava/lang/ThreadGroup;Ljava/lang/String;)V"
      [.plain .aload_0, callSpecial "java/lang/Object" "<init>" "()V", .plain .aload_0, .plain .aload_1,
       store "java/lang/Thread" "group" "Ljava/lang/ThreadGroup;", .plain .aload_0, .plain .aload_2,
       store "java/lang/Thread" "name" "Ljava/lang/String;", .plain .vreturn],
    method 1 "<init>" "(Ljava/lang/Runnable;)V"
      [.plain .aload_0, callSpecial "java/lang/Object" "<init>" "()V", .plain .aload_0, .plain .aload_1,
       store "java/lang/Thread" "target" "Ljava/lang/Runnable;", .plain .vreturn],
    method 1 "run" "()V"
      [.plain .aload_0, load "java/lang/Thread" "target" "Ljava/lang/Runnable;", .plain .dup,
       .jump .ifnull "none", callInterface "java/lang/Runnable" "run" "()V", .plain .vreturn, .label "none",
       .plain .pop, .plain .vreturn],
    method 1 "start" "()V"
      [.plain .aload_0, callSpecial "java/lang/Thread" "start0" "()V", .plain .vreturn],
    declared 258 "start0" "()V",
    declared 265 "currentThread" "()Ljava/lang/Thread;",
    declared 265 "yield" "()V",
    declared 273 "isAlive" "()Z",
    declared 257 "setPriority0" "(I)V",
    declared 265 "holdsLock" "(Ljava/lang/Object;)Z",
    declared 265 "sleep" "(J)V",
    declared 257 "interrupt0" "()V",
    declared 257 "isInterrupted" "(Z)Z",
    method 17 "join" "()V"
      [.label "l", .plain .aload_0, callVirtual "java/lang/Thread" "isAlive" "()Z", .jump .ifeq "d",
       callStatic "java/lang/Thread" "yield" "()V", .jump .goto "l", .label "d", .plain .vreturn],
    method 1 "getName" "()Ljava/lang/String;"
      [.plain .aload_0, load "java/lang/Thread" "name" "Ljava/lang/String;", .plain .areturn]]

/-- Threads and their groups. -/
def threads : List ClassSource :=
  [threadGroupClass, threadClass]

end JavaMachine.Library
