import JavaMachine.Proofs.Machine.Prompt

/-!
What attempts lead to. A `Contract` says from which machines an attempt starts, how it may change them, and how it
may fail and halt; an attempt `Leads` to what holds of its value and of the machine in which it has one. Main
results: the steps of a definition lead on from what the loads that they make lead to (`leads_superclass`,
`leads_superinterfaces`, `leads_publish`).
-/

namespace JavaMachine

open M

/-- What an attempt may do, from a machine of which something holds. -/
structure Contract where
  holds : Machine → Prop
  step : Machine → Machine → Prop
  fails : Failure → Prop
  halts : Halt → Prop

/-- A contract whose steps leave classes as they were planned and can be put together, that allows slight changes, and
that allows all failures but circularity and all halts but for want of levels. -/
class Contract.Fair (C : Contract) : Prop where
  slight : ∀ {a b}, C.holds a → Slight a b → C.holds b ∧ C.step a b
  succeeds : ∀ {a b}, C.step a b → Succeeds a b
  trans : ∀ {a b c}, C.step a b → C.step b c → C.step a c
  fails : ∀ name message cause, name ≠ Throwables.circularity → C.fails (.java name message cause)
  halts : ∀ h, h ≠ .stuck → C.halts h

/-- What a contract allows as the outcome of an attempt on a machine, where something is to hold of the value. -/
def Contract.Allows {α : Type} (C : Contract) (m : Machine) (Q : α → Machine → Prop) :
    EStateM.Result Halt Machine (Except Failure α) → Prop
  | .ok (.ok a) m' => C.holds m' ∧ C.step m m' ∧ Q a m'
  | .ok (.error f) m' => C.holds m' ∧ C.step m m' ∧ C.fails f
  | .error h m' => C.holds m' ∧ C.step m m' ∧ C.halts h

namespace Attempt

variable {α β : Type} {C : Contract} {m : Machine}

/-- From a machine that it may start from, an attempt keeps the contract, and something holds of its value and
of the machine then. -/
structure Leads (C : Contract) (act : Attempt α) (m : Machine) (Q : α → Machine → Prop) : Prop where
  outcome : C.holds m → C.Allows m Q (act.run m)

/-! ## Rules -/

theorem run_bind (act : Attempt α) (f : α → Attempt β) (m : Machine) :
    (act >>= f).run m =
      match act.run m with
      | .ok (.ok a) m' => (f a).run m'
      | .ok (.error e) m' => .ok (.error e) m'
      | .error h m' => .error h m' := by
  change (act.run >>= ExceptT.bindCont f) m = _
  rw [bind_apply]
  rcases act.run m with ⟨_ | _, _⟩ | _ <;> rfl

theorem Leads.intro {act : Attempt α} {Q : α → Machine → Prop} (h : C.holds m → Leads C act m Q) :
    Leads C act m Q := ⟨fun hm => (h hm).outcome hm⟩

theorem Leads.mono {act : Attempt α} {Q Q' : α → Machine → Prop} (h : Leads C act m Q)
    (hQ : ∀ a m', C.holds m' → C.step m m' → Q a m' → Q' a m') : Leads C act m Q' := by
  refine ⟨fun hm => ?_⟩
  have h := h.outcome hm
  generalize act.run m = r at *
  rcases r with ⟨_ | _, _⟩ | _
  · exact h
  · exact ⟨h.1, h.2.1, hQ _ _ h.1 h.2.1 h.2.2⟩
  · exact h

/-- The same attempt under another contract. -/
theorem Leads.under {C' : Contract} {act : Attempt α} {Q : α → Machine → Prop} (h : Leads C act m Q)
    (hm : C'.holds m → C.holds m)
    (hstep : ∀ m', C'.holds m → C.holds m' → C.step m m' → C'.holds m' ∧ C'.step m m')
    (hfails : ∀ f, C.fails f → C'.fails f) (hhalts : ∀ e, C.halts e → C'.halts e) : Leads C' act m Q := by
  refine ⟨fun hm' => ?_⟩
  have h := h.outcome (hm hm')
  have hstep {m'} (hh : C.holds m') (hs : C.step m m') := hstep m' hm' hh hs
  generalize act.run m = r at *
  rcases r with ⟨_ | _, _⟩ | _
  · exact ⟨(hstep h.1 h.2.1).1, (hstep h.1 h.2.1).2, hfails _ h.2.2⟩
  · exact ⟨(hstep h.1 h.2.1).1, (hstep h.1 h.2.1).2, h.2.2⟩
  · exact ⟨(hstep h.1 h.2.1).1, (hstep h.1 h.2.1).2, hhalts _ h.2.2⟩

/-- What an attempt is known to do from a machine. -/
theorem leads_of_run {act : Attempt α} {a : α} {m' : Machine} {Q : α → Machine → Prop}
    (hrun : act.run m = .ok (.ok a) m') (h : C.holds m → C.holds m' ∧ C.step m m' ∧ Q a m') : Leads C act m Q :=
  ⟨fun hm => by rw [hrun]; exact h hm⟩

theorem leads_get_bind {f : Machine → Attempt β} {Q : β → Machine → Prop} :
    Leads C (get >>= f) m Q ↔ Leads C (f m) m Q := ⟨fun h => ⟨h.outcome⟩, fun h => ⟨h.outcome⟩⟩

theorem leads_classAt_bind {c : ClassId} {f : Class → Attempt β} {Q : β → Machine → Prop} :
    Leads C (liftM (classAt c) >>= f) m Q ↔ Leads C (f (m.classAt c)) m Q :=
  ⟨fun h => ⟨h.outcome⟩, fun h => ⟨h.outcome⟩⟩

theorem leads_loaderMirror_bind {l : Nat} {f : Option Ref → Attempt β} {Q : β → Machine → Prop} :
    Leads C (liftM (loaderMirror l) >>= f) m Q ↔ Leads C (f (m.loaderAt l).mirror) m Q :=
  ⟨fun h => ⟨h.outcome⟩, fun h => ⟨h.outcome⟩⟩

theorem leads_modifyGet {f : Machine → α × Machine} {Q : α → Machine → Prop}
    (h : C.holds m → C.holds (f m).2 ∧ C.step m (f m).2 ∧ Q (f m).1 (f m).2) : Leads C (modifyGet f) m Q := ⟨h⟩

theorem leads_modify {f : Machine → Machine} {Q : Unit → Machine → Prop}
    (h : C.holds m → C.holds (f m) ∧ C.step m (f m) ∧ Q () (f m)) : Leads C (modify f) m Q := ⟨h⟩

/-- An action on storage, whose failure is a value. -/
theorem run_onStorage (act : Storage.Action α) (m : Machine) :
    (liftM (onStorage act) : Attempt (Except ReadFault α)).run m =
      match act m.storage with
      | .ok a storage => .ok (.ok (.ok a)) { m with storage }
      | .error f storage => .ok (.ok (.error f)) { m with storage } := by
  change (onStorage act >>= fun a => Pure.pure (Except.ok a) : M (Except Failure (Except ReadFault α))) m = _
  rw [bind_apply, onStorage]
  rcases act m.storage with _ | _ <;> rfl

theorem leads_onStorage {act : Storage.Action α} {Q : Except ReadFault α → Machine → Prop}
    (hok : ∀ a storage, act m.storage = .ok a storage → C.holds m →
      C.holds { m with storage } ∧ C.step m { m with storage } ∧ Q (.ok a) { m with storage })
    (herror : ∀ f storage, act m.storage = .error f storage → C.holds m →
      C.holds { m with storage } ∧ C.step m { m with storage } ∧ Q (.error f) { m with storage }) :
    Leads C (liftM (onStorage act)) m Q := by
  refine ⟨fun hm => ?_⟩
  rw [run_onStorage]
  cases hact : act m.storage with
  | ok a storage => exact hok a storage hact hm
  | error f storage => exact herror f storage hact hm

/-- An attempt between a first and a last change of the machine. -/
theorem leads_between {C' : Contract} {act : Attempt α} {first last : Machine → Machine} {Q Q' : α → Machine → Prop}
    (h : Leads C' act (first m) Q') (hfirst : C.holds m → C'.holds (first m))
    (hlast : ∀ m', C.holds m → C'.holds m' → C'.step (first m) m' → C.holds (last m') ∧ C.step m (last m'))
    (hfails : ∀ f, C'.fails f → C.fails f) (hhalts : ∀ e, C'.halts e → C.halts e)
    (hQ : ∀ a m', C'.step (first m) m' → Q' a m' → Q a (last m')) :
    Leads C (do modify first; ExceptT.mk (act.run.ensuring last)) m Q := by
  refine ⟨fun hm => ?_⟩
  have hrun : (do modify first; ExceptT.mk (act.run.ensuring last) : Attempt α).run m =
      act.run.ensuring last (first m) := rfl
  have h := h.outcome (hfirst hm)
  have hlast {m'} (hh : C'.holds m') (hs : C'.step (first m) m') := hlast m' hm hh hs
  rw [hrun, ensuring]
  generalize act.run (first m) = r at *
  rcases r with ⟨_ | a, m'⟩ | ⟨_, m'⟩
  · exact ⟨(hlast h.1 h.2.1).1, (hlast h.1 h.2.1).2, hfails _ h.2.2⟩
  · exact ⟨(hlast h.1 h.2.1).1, (hlast h.1 h.2.1).2, hQ a m' h.2.1 h.2.2⟩
  · exact ⟨(hlast h.1 h.2.1).1, (hlast h.1 h.2.1).2, hhalts _ h.2.2⟩

variable [C.Fair]

theorem Leads.bind {act : Attempt α} {f : α → Attempt β} {P : α → Machine → Prop} {Q : β → Machine → Prop}
    (ha : Leads C act m P) (hf : ∀ a m', C.step m m' → P a m' → Leads C (f a) m' Q) : Leads C (act >>= f) m Q := by
  refine ⟨fun hm => ?_⟩
  have ha := ha.outcome hm
  rw [run_bind]
  generalize act.run m = r at *
  rcases r with ⟨_ | a, m'⟩ | _
  · exact ha
  · have hrest := (hf a m' ha.2.1 ha.2.2).outcome ha.1
    dsimp only
    generalize (f a).run m' = r at *
    rcases r with ⟨_ | _, _⟩ | _
    all_goals exact ⟨hrest.1, Contract.Fair.trans ha.2.1 hrest.2.1, hrest.2.2⟩
  · exact ha

theorem step_refl (hm : C.holds m) : C.step m m := (Contract.Fair.slight hm (Minor.refl m).toSlight).2

theorem leads_pure {a : α} {Q : α → Machine → Prop} (h : C.holds m → Q a m) : Leads C (pure a) m Q :=
  ⟨fun hm => ⟨hm, step_refl hm, h hm⟩⟩

theorem leads_throw {f : Failure} {Q : α → Machine → Prop} (h : C.fails f) : Leads C (throw f) m Q :=
  ⟨fun hm => ⟨hm, step_refl hm, h⟩⟩

theorem leads_fail {name message : String} {Q : α → Machine → Prop} (h : name ≠ Throwables.circularity) :
    Leads C (fail name message) m Q := leads_throw (Contract.Fair.fails _ _ _ h)

/-- A check, which fails or leaves the machine as it is. -/
theorem leads_check_bind {b : Bool} {name message : String} {f : Unit → Attempt β} {Q : β → Machine → Prop}
    (h : b = true → C.fails (.java name message none)) (hf : b = false → Leads C (f ()) m Q) :
    Leads C (failIf b name message >>= f) m Q := by
  cases b with
  | false => exact hf rfl
  | true => exact leads_throw (h rfl)

/-- A check that has nothing to do with circularity. -/
theorem leads_failIf_bind {b : Bool} {name message : String} {f : Unit → Attempt β} {Q : β → Machine → Prop}
    (h : name ≠ Throwables.circularity) (hf : b = false → Leads C (f ()) m Q) :
    Leads C (failIf b name message >>= f) m Q := leads_check_bind (fun _ => Contract.Fair.fails _ _ _ h) hf

theorem leads_outside {i : Int} {length : Nat} {Q : α → Machine → Prop} :
    Leads C (lift (outside i length)) m Q := ⟨fun hm => ⟨hm, step_refl hm, Contract.Fair.halts _ nofun⟩⟩

/-- A value that has to be there. -/
theorem leads_some! {v : Option α} {Q : α → Machine → Prop} (h : ∀ a, v = some a → C.holds m → Q a m) :
    Leads C (some! v) m Q := by
  cases v with
  | none => exact ⟨fun hm => ⟨hm, step_refl hm, Contract.Fair.halts _ nofun⟩⟩
  | some a => exact leads_pure (h a rfl)

theorem leads_some!_bind {v : Option α} {f : α → Attempt β} {Q : β → Machine → Prop}
    (h : ∀ a, v = some a → Leads C (f a) m Q) : Leads C (some! v >>= f) m Q := by
  cases v with
  | none => exact ⟨fun hm => ⟨hm, step_refl hm, Contract.Fair.halts _ nofun⟩⟩
  | some a => exact h a rfl

theorem run_lift (act : M α) (m : Machine) :
    (liftM act : Attempt α).run m =
      match act m with
      | .ok a m' => .ok (.ok a) m'
      | .error h m' => .error h m' := by
  change (act >>= fun a => Pure.pure (Except.ok a) : M (Except Failure α)) m = _
  rw [bind_apply]
  rcases act m with _ | _ <;> rfl

/-- An action that is minor on a machine, and prompt. -/
theorem leads_minor {act : M α} {Q : α → Machine → Prop} (hminor : After act m (fun _ => Minor m) (Minor m))
    (hp : Prompt act) (hQ : ∀ a m', Minor m m' → C.holds m → Q a m') : Leads C (liftM act) m Q := by
  refine ⟨fun hm => ?_⟩
  rw [run_lift]
  unfold After at hminor
  cases he : act m with
  | ok a m' =>
    rw [he] at hminor
    have hs := Contract.Fair.slight hm hminor.toSlight
    exact ⟨hs.1, hs.2, hQ a m' hminor hm⟩
  | error e m' =>
    rw [he] at hminor
    have hs := Contract.Fair.slight hm hminor.toSlight
    exact ⟨hs.1, hs.2, Contract.Fair.halts e (hp m e m' he)⟩

/-- A minor action that is prompt. -/
theorem leads_lift {act : M α} {Q : α → Machine → Prop} (hact : M.Keeps (fun _ => Minor) act) (hp : Prompt act)
    (hQ : ∀ a m', Minor m m' → C.holds m → Q a m') : Leads C (liftM act) m Q := leads_minor (hact m) hp hQ

/-! ## Ends -/

omit [C.Fair]

/-- What holds of a value and the machine then, and what holds of the machine where there is no value. -/
def Outcome (P : α → Machine → Prop) (E : Machine → Prop) : EStateM.Result Halt Machine (Except Failure α) → Prop
  | .ok (.ok a) m => P a m
  | .ok (.error _) m => E m
  | .error _ m => E m

/-- An attempt ends with a value of which something holds, or fails or halts with a machine of which something
holds. -/
structure Ends (act : Attempt α) (m : Machine) (P : α → Machine → Prop) (E : Machine → Prop) : Prop where
  outcome : Outcome P E (act.run m)

section ends

variable {P : α → Machine → Prop} {Q : β → Machine → Prop} {E : Machine → Prop}

theorem Ends.mono {act : Attempt α} {P' : α → Machine → Prop} {E' : Machine → Prop} (h : Ends act m P E)
    (hP : ∀ a m', P a m' → P' a m') (hE : ∀ m', E m' → E' m') : Ends act m P' E' := by
  have h := h.outcome
  refine ⟨?_⟩
  generalize act.run m = r at *
  rcases r with ⟨_ | _, _⟩ | _
  · exact hE _ h
  · exact hP _ _ h
  · exact hE _ h

theorem Ends.bind {act : Attempt α} {f : α → Attempt β} (h : Ends act m P E)
    (hf : ∀ a m', P a m' → Ends (f a) m' Q E) : Ends (act >>= f) m Q E := by
  have h := h.outcome
  refine ⟨?_⟩
  rw [run_bind]
  generalize act.run m = r at *
  rcases r with ⟨_ | a, m'⟩ | _
  · exact h
  · exact (hf a m' h).outcome
  · exact h

/-- An attempt that leads somewhere ends there. -/
theorem Leads.ends {act : Attempt α} (h : Leads C act m P) (hm : C.holds m) :
    Ends act m (fun a m' => C.holds m' ∧ C.step m m' ∧ P a m') fun m' => C.holds m' ∧ C.step m m' := by
  have h := h.outcome hm
  refine ⟨?_⟩
  generalize act.run m = r at *
  rcases r with ⟨_ | _, _⟩ | _
  · exact ⟨h.1, h.2.1⟩
  · exact h
  · exact ⟨h.1, h.2.1⟩

theorem ends_pure {a : α} (h : P a m) : Ends (pure a) m P E := ⟨h⟩

theorem ends_throw {f : Failure} (h : E m) : Ends (throw f) m P E := ⟨h⟩

theorem ends_fail {name message : String} (h : E m) : Ends (fail name message) m P E := ⟨h⟩

theorem ends_outside {i : Int} {length : Nat} (h : E m) : Ends (lift (outside i length)) m P E := ⟨h⟩

theorem ends_lift {act : M α} (h : After act m P E) : Ends (liftM act) m P E := by
  refine ⟨?_⟩
  unfold After at h
  rw [run_lift]
  cases hact : act m <;> rwa [hact] at h

theorem ends_get_bind {f : Machine → Attempt β} : Ends (get >>= f) m Q E ↔ Ends (f m) m Q E :=
  ⟨fun h => ⟨h.outcome⟩, fun h => ⟨h.outcome⟩⟩

theorem ends_classAt_bind {c : ClassId} {f : Class → Attempt β} :
    Ends (liftM (classAt c) >>= f) m Q E ↔ Ends (f (m.classAt c)) m Q E :=
  ⟨fun h => ⟨h.outcome⟩, fun h => ⟨h.outcome⟩⟩

theorem ends_loaderMirror_bind {l : Nat} {f : Option Ref → Attempt β} :
    Ends (liftM (loaderMirror l) >>= f) m Q E ↔ Ends (f (m.loaderAt l).mirror) m Q E :=
  ⟨fun h => ⟨h.outcome⟩, fun h => ⟨h.outcome⟩⟩

theorem ends_modify_bind {first : Machine → Machine} {f : Unit → Attempt β} :
    Ends (modify first >>= f) m Q E ↔ Ends (f ()) (first m) Q E :=
  ⟨fun h => ⟨h.outcome⟩, fun h => ⟨h.outcome⟩⟩

theorem ends_modifyGet_bind {first : Machine → α × Machine} {f : α → Attempt β} :
    Ends (modifyGet first >>= f) m Q E ↔ Ends (f (first m).1) (first m).2 Q E :=
  ⟨fun h => ⟨h.outcome⟩, fun h => ⟨h.outcome⟩⟩

theorem ends_failIf_bind {b : Bool} {name message : String} {f : Unit → Attempt β} (hE : b = true → E m)
    (hf : b = false → Ends (f ()) m Q E) : Ends (failIf b name message >>= f) m Q E := by
  cases b with
  | false => exact hf rfl
  | true => exact ⟨hE rfl⟩

theorem ends_some!_bind {v : Option α} {f : α → Attempt β} (hE : v = none → E m)
    (hf : ∀ a, v = some a → Ends (f a) m Q E) : Ends (some! v >>= f) m Q E := by
  cases v with
  | none => exact ⟨hE rfl⟩
  | some a => exact hf a rfl

theorem ends_haltFor_bind {h : Option Halt} {f : Unit → Attempt β} (hE : h ≠ none → E m)
    (hf : h = none → Ends (f ()) m Q E) : Ends (liftM (haltFor h) >>= f) m Q E := by
  cases h with
  | none => exact ⟨(hf rfl).outcome⟩
  | some h => exact ⟨hE nofun⟩

theorem ends_onStorage_bind {act : Storage.Action α} {f : Except ReadFault α → Attempt β}
    (hf : ∀ r storage, Ends (f r) { m with storage } Q E) : Ends (liftM (onStorage act) >>= f) m Q E := by
  refine ⟨?_⟩
  rw [run_bind, run_onStorage]
  cases act m.storage <;> exact (hf _ _).outcome

/-- An attempt and a last change of the machine, however the attempt ends. -/
theorem ends_ensuring {act : Attempt α} {last : Machine → Machine}
    (h : Ends act m (fun a m' => P a (last m')) fun m' => E (last m')) :
    Ends (ExceptT.mk (act.run.ensuring last)) m P E := by
  have h := h.outcome
  refine ⟨?_⟩
  change Outcome P E (act.run.ensuring last m)
  rw [ensuring]
  generalize act.run m = r at *
  rcases r with ⟨_ | _, _⟩ | _ <;> exact h

end ends

end Attempt

end JavaMachine
