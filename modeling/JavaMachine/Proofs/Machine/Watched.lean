import JavaMachine.Machine.Interpreter

/-!
Runs that are watched. A watcher is handed the machine before each step of each run and at its end, runs inside of runs
too, and may put another machine in its place; one that does not interfere leaves the interpreter what it is
(`services_id`). So what is said of watched operations is said of those of the machine, and of the machines that are
between two steps.
-/

namespace JavaMachine

open M Throwing

namespace Watched

open Interpreter

section
variable (look : Machine → Machine) (natives : Natives) (s : Services)

/-- A run with a look at the machine before each step and at the end. -/
def run : Nat → M Unit
  | 0 => throw .stuck
  | n + 1 => do
    modify look
    if ← isRunning then
      step natives s
      run n

/-- A call from outside whose run is watched. -/
def embedded (fuel : Nat) (method : Method) (args : List Slot) : Attempt (List Slot) := do
  if args.length = method.argSlots then
    let depth ← M.depth
    ExceptT.mk (ensuring (body depth) (popTo depth))
  else
    throw (.plain
      s!"invoke {← methodText method}: got {args.length} argument slots, want {method.argSlots}")
where
  body (depth : Nat) : M (Except Failure (List Slot)) := do
    if ← pushCall args then
      Execute.enter s method
      run look natives s fuel
      callResult method depth
    else return .error (.java Throwables.stackOverflow "" none)

/-- Calls a method from outside and watches its run. -/
def invoke (fuel : Nat) (method : Method) (args : List Slot) : Attempt (List Slot) := do
  recordCall method
  embedded look natives s fuel method args

/-- The operations at a level, with all runs behind them watched. -/
def services : Nat → Services
  | 0 => .silent
  | n + 1 => {
    load := fun l name => Linking.loadClass (services n) l name
    initClass := fun c => Initialization.initializeClass (services n) c
    invoke := fun method args => invoke look natives (services n) n method args
    runInitializer := fun method => discard (embedded look natives (services n) n method []) }

end

/-! ## A watcher that does not interfere -/

theorem run_id (natives : Natives) (s : Services) (n : Nat) : run id natives s n = Interpreter.run natives s n := by
  induction n with
  | zero => rfl
  | succ n ih =>
    rw [run, Interpreter.run, ih]
    rfl

theorem embedded_id (natives : Natives) (s : Services) : embedded id natives s = Interpreter.embedded natives s := by
  funext fuel method args
  unfold embedded Interpreter.embedded embedded.body Interpreter.embedded.body
  rw [run_id]

/-- A watcher that leaves every machine as it is leaves the operations what they are. -/
theorem services_id (natives : Natives) (n : Nat) : services id natives n = Interpreter.services natives n := by
  induction n with
  | zero => rfl
  | succ n ih =>
    rw [services, Interpreter.services, ih]
    unfold invoke Interpreter.invoke
    rw [embedded_id]

end Watched

end JavaMachine
