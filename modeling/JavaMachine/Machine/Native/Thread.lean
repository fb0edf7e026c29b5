import JavaMachine.Machine.Native.Basic
import JavaMachine.Machine.Threads

/-!
Native methods of threads.
-/

namespace JavaMachine.Native

open M Throwing

/-- The state of a thread. -/
def threadAt (id : Nat) : M Thread := return (← get).threads.getD id default

/-- Sets whether a thread is interrupted, and gives what it was before. -/
def swapInterrupted (id : Nat) (v : Bool) : M Bool := do
  let old := (← threadAt id).interrupted
  modify fun m => { m with threads := m.threads.modify id fun t => { t with interrupted := v } }
  return old

/-- Starts a thread, which is possible once. -/
def startThread : Native := fun s => do
  let r ← receiver
  if (← Threads.ofObject? r).isSome then throwNew s Throwables.threadState "" else Threads.start r

/-- Gives way for a time. -/
def sleep : Native := fun s => do
  if (← localLong 0) < 0 then throwNew s Throwables.illegalArgument "timeout value is negative"
  else
    Threads.giveWay s
    if ← swapInterrupted (← get).current false then throwNew s Throwables.interrupted "sleep interrupted"

/-- Whether a thread is interrupted; asked to, forgets it. -/
def isInterrupted : Native := fun _ => do
  match ← Threads.ofObject? (← receiver) with
  | none => pushBool false
  | some id =>
    if (← localInt 1) != 0 then pushBool (← swapInterrupted id false)
    else pushBool (← threadAt id).interrupted

/-- The methods of threads. -/
def thread : List (String × String × Native) := [
  ("currentThread", "()Ljava/lang/Thread;", fun _ => do
    pushRef (← threadAt (← get).current).mirror),
  ("isAlive", "()Z", fun _ => do
    match ← Threads.ofObject? (← receiver) with
    | none => pushBool false
    | some id => pushBool (← threadAt id).alive),
  ("setPriority0", "(I)V", nothing),
  ("start0", "()V", startThread),
  ("holdsLock", "(Ljava/lang/Object;)Z", fun s => do
    notNull s (← localRef 0) fun _ => pushBool true),
  ("yield", "()V", Threads.giveWay),
  ("sleep", "(J)V", sleep),
  ("interrupt0", "()V", fun _ => do
    if let some id ← Threads.ofObject? (← receiver) then
      let _ ← swapInterrupted id true),
  ("isInterrupted", "(Z)Z", isInterrupted)]

end JavaMachine.Native
