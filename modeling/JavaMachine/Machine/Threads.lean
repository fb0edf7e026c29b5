import JavaMachine.Machine.Interpreter

/-!
Threads. A thread that was started waits until the running one gives way, and then runs to its end. The
frames of the thread that gave way are kept meanwhile. An exception that nothing catches ends its thread
with a report, and a halt of a thread is kept for the one that waits for the end of all threads.
-/

namespace JavaMachine.Threads

open M Text

/-- The report of a failure that ends a thread. -/
def report (m : Machine) (name : String) (f : Failure) : String :=
  let start := s!"Exception in thread {Quoted.encode name} "
  match f.thrown?.join with
  | some r => start ++ Throwing.traceText m r
  | none => start ++ f.message m ++ "\n"

/-- Reports a failure on the error output. -/
def reportUncaught (name : String) (f : Failure) : M Unit := do
  writeErr (Utf8.encode (report (← get) name f))

/-- Runs the code of a thread. -/
def body (s : Services) (t : Thread) : M Unit := do
  match ← (s.invokeVirtual t.mirror "run" "()V" []).run with
  | .ok _ => return ()
  | .error f => reportUncaught t.name f

/-- The machine as the thread that gave way left it, when another has ended. -/
def resume (before after : Machine) (ended : Nat) : Machine :=
  { after with
    current := before.current
    frames := before.frames
    pending := before.pending
    overflowing := before.overflowing
    threads := after.threads.modify ended fun t => { t with alive := false } }

/-- Runs a thread to its end. -/
def runThread (s : Services) (id : Nat) : M Unit := fun m =>
  let t := m.threads.getD id default
  match body s t { m with current := id, frames := [], pending := none, overflowing := false } with
  | .ok _ after => .ok () (resume m after id)
  | .error h after => .ok () { resume m after id with threadHalt := after.threadHalt <|> some h }

/-- Runs the threads that wait, and those they start, in order. -/
def runWaiting (s : Services) : Nat → M Unit
  | 0 => throw .stuck
  | n + 1 => do
    match (← get).waiting with
    | [] => return ()
    | id :: rest =>
      modify fun m => { m with waiting := rest }
      runThread s id
      runWaiting s n

/-- Gives way to the threads that wait. -/
def giveWay (s : Services) : M Unit := runWaiting s Interpreter.levels

/-- Starts a thread for an object. -/
def start (object : Ref) : M Unit := do
  let id := (← get).threads.size
  modify fun m => { m with
    threads := m.threads.push { name := s!"Thread-{id}", mirror := some object }
    waiting := m.waiting ++ [id] }
  updateObject object fun o => { o with attached := some (.thread id) }

/-- The thread that an object stands for. -/
def ofObject? (r : Ref) : M (Option Nat) := do
  match (← objectAt r).attached with
  | some (.thread id) => return some id
  | _ => return none

end JavaMachine.Threads
