import JavaMachine.Machine.Initialization
import JavaMachine.Proofs.Machine.Operations

/-!
Relations that allow what initialization itself does: to let classes enter states, and to note events. Claims on
classes, giving them back, and initialization at once keep them. Main result: `keeps_initializeAtOnce`.
-/

namespace JavaMachine

open M Throwing

/-- A relation that allows classes to enter states, and events to be noted. -/
class Noting (R : Ending → Machine → Machine → Prop) : Prop extends Lenient R where
  enter : ∀ {e m} c state event, R e m (m.enter c state event)
  note : ∀ {e m} event, R e m (m.note event)

/-- All operations keep a relation, those that only the machine itself may call too. -/
structure Serving (R : Ending → Machine → Machine → Prop) (s : Services) : Prop extends Hosted R s where
  runInitializer : ∀ method, Attempt.Keeps R (s.runInitializer method)

variable {R : Ending → Machine → Machine → Prop}

theorem Initialization.keeps_awaitState [Tolerant R] {c : ClassId} : Keeps R (awaitState c) := by
  unfold awaitState; grind

variable [Noting R] {s : Services}

namespace M

@[grind ←]
theorem keeps_record {e : Event} : Keeps R (record e) := keeps_modify fun _ => Noting.note e

@[grind ←]
theorem keeps_recordRun {method : Method} : Keeps R (recordRun method) := by
  refine keeps_modify fun m => ?_
  split
  · exact Noting.note _
  · exact Tolerant.minor (.refl m)

@[grind ←]
theorem keeps_recordCall {method : Method} : Keeps R (recordCall method) := by
  unfold recordCall
  split
  · exact keeps_record
  · exact keeps_pure

@[grind ←]
theorem keeps_setState {c : ClassId} {state : ClassState} : Keeps R (setState c state) :=
  keeps_modify fun _ => Noting.enter c state _

end M

namespace Throwing

@[grind ←]
theorem keeps_finishInit {c : ClassId} {state : ClassState} : Keeps R (finishInit c state) := keeps_setState

omit [Noting R] in
@[grind ←]
theorem keeps_isInitializing [Tolerant R] {c : ClassId} : Keeps R (isInitializing c) :=
  keeps_bind keeps_get fun _ => keeps_pure

end Throwing

namespace Initialization

@[grind ←]
theorem keeps_claim {c : ClassId} : Keeps R (claim c) := by
  unfold claim
  refine keeps_bind keeps_classAt fun k => ?_
  split
  · exact keeps_bind keeps_get fun m => keeps_bind keeps_setState fun _ => keeps_pure
  · exact keeps_pure

omit [Noting R] in
@[grind ←]
theorem keeps_initializer [Tolerant R] {c : ClassId} : Keeps R (initializer c) := by unfold initializer; grind

omit [Noting R] in
@[grind ←]
theorem keeps_failedBefore [Tolerant R] {c : ClassId} : Keeps R (failedBefore c) :=
  keeps_bind keeps_classAt fun _ => keeps_pure

omit [Noting R] in
theorem keeps_chain [Tolerant R] {n : Nat} {c : Option ClassId} : Keeps R (chain n c) := by
  induction n generalizing c with
  | zero => exact keeps_pure
  | succ n ih =>
    cases c with
    | none => exact keeps_pure
    | some c =>
      unfold chain
      refine keeps_bind keeps_awaitState fun state => ?_
      split
      · refine keeps_bind keeps_classAt fun k => ?_
        split
        · exact keeps_pure
        · exact keeps_bind ih fun _ => keeps_pure
      · exact keeps_pure

/-- Classes that were claimed are given back. -/
theorem keeps_giveBack {classes : List ClassId} : Keeps R (classes.forM fun k => finishInit k .linked) := by
  induction classes with
  | nil => exact keeps_pure
  | cons c rest ih => exact keeps_bind keeps_finishInit fun _ => ih

theorem keeps_claimAll {claimed classes : List ClassId} : Keeps R (claimAll claimed classes) := by
  induction classes generalizing claimed with
  | nil => exact keeps_pure
  | cons c rest ih =>
    unfold claimAll
    refine keeps_bind keeps_claim fun b => ?_
    split
    · exact ih
    · exact keeps_bind keeps_giveBack fun _ => keeps_pure

/-! ## Initialization at once -/

theorem keeps_initializeSuper (h : Hosted R s) {c : ClassId} : Attempt.Keeps R (initializeSuper s c) := by
  have habandon : Keeps R (abandon c) := keeps_modify fun _ => Noting.enter c _ _
  unfold initializeSuper
  refine Attempt.keeps_bind Attempt.keeps_get fun m => ?_
  split
  · refine Attempt.keeps_tryCatch (h.initClass _) fun f => ?_
    exact Attempt.keeps_bind (Attempt.keeps_lift habandon) fun _ => Attempt.keeps_throw
  · exact Attempt.keeps_pure

theorem keeps_failClaimed {c : ClassId} : Keeps R (failClaimed c) := by
  unfold failClaimed
  refine keeps_bind keeps_isInitializing fun b => ?_
  split
  · exact keeps_finishInit
  · exact keeps_pure

theorem keeps_runClaimed (h : Serving R s) {c : ClassId} : Attempt.Keeps R (runClaimed s c) := by
  unfold runClaimed
  refine Attempt.keeps_bind (Attempt.keeps_lift keeps_record) fun _ => ?_
  refine Attempt.keeps_bind (Attempt.keeps_lift keeps_initializer) fun method => ?_
  refine Attempt.keeps_tryCatch (h.runInitializer method) fun f => ?_
  exact Attempt.keeps_bind (Attempt.keeps_lift keeps_failClaimed) fun _ => Attempt.keeps_throw

/-- The initialization of a class at once keeps a relation that the operations behind it keep. -/
theorem keeps_initializeAtOnce (h : Serving R s) (c : ClassId) : Attempt.Keeps R (initializeClass s c) := by
  unfold initializeClass
  refine Attempt.keeps_bind (Attempt.keeps_lift keeps_awaitState) fun state => ?_
  split
  · exact Attempt.keeps_pure
  · exact Attempt.keeps_pure
  · exact Attempt.keeps_bind (Attempt.keeps_lift keeps_failedBefore) fun _ => Attempt.keeps_fail
  · exact Attempt.keeps_attemptLift (keeps_bind keeps_classAt fun _ => keeps_fatal)
  · refine Attempt.keeps_bind (keeps_initializeSuper h.toHosted) fun _ => ?_
    refine Attempt.keeps_bind (Attempt.keeps_lift keeps_claim) fun claimed => ?_
    split
    · exact keeps_runClaimed h
    · exact h.initClass c

end Initialization

end JavaMachine
