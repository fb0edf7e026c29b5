import JavaMachine.Proofs.Code.Fetch
import JavaMachine.Proofs.Fields.Access
import JavaMachine.Proofs.Loading.Remembered

/-!
Instructions that put themselves off. An instruction that needs a linked class puts the initializers of the class and of
its superclasses on the frame stack, as far up as they are linked (`StillLinked`). Main results: `run_schedule`, that these
initializers are put there in order if there is room for them, and `execute_of_uses`, what the instructions do that need a
class: they resolve their operand, and do what they are for if the class may be used.
-/

namespace JavaMachine

open M Throwing Initialization

/-! ## Chains of linked classes -/

/-- A class and its superclasses that are linked and not initialized yet. What is above them is neither erroneous nor being
initialized by another thread. -/
inductive StillLinked (m : Machine) : ClassId → List ClassId → Prop
  | top {c : ClassId} : (m.classAt c).state = .linked →
      (∀ p, m.superOf c = some p → (m.classAt p).state ≠ .linked ∧ (m.classAt p).state ≠ .erroneous ∧
        ∀ t, (m.classAt p).state = .initializing t → t = m.current) → StillLinked m c [c]
  | up {c p : ClassId} {classes : List ClassId} : (m.classAt c).state = .linked → m.superOf c = some p →
      StillLinked m p classes → StillLinked m c (c :: classes)

namespace StillLinked

variable {m : Machine} {c : ClassId} {classes : List ClassId}

theorem linked (h : StillLinked m c classes) : ∀ k ∈ classes, (m.classAt k).state = .linked := by
  induction h with
  | top hlinked => simpa using hlinked
  | up hlinked _ _ ih => exact List.forall_mem_cons.2 ⟨hlinked, ih⟩

theorem head (h : StillLinked m c classes) : (m.classAt c).state = .linked := by
  cases h with
  | top hlinked => exact hlinked
  | up hlinked => exact hlinked

theorem exists_cons (h : StillLinked m c classes) : ∃ above, classes = c :: above := by
  cases h with
  | top => exact ⟨[], rfl⟩
  | up => exact ⟨_, rfl⟩

theorem mem (h : StillLinked m c classes) : c ∈ classes := by
  obtain ⟨above, rfl⟩ := h.exists_cons
  exact List.mem_cons_self

/-- A class has one superclass, so there is one chain. -/
theorem unique {classes' : List ClassId} (h : StillLinked m c classes) (h' : StillLinked m c classes') :
    classes' = classes := by
  induction h generalizing classes' with
  | top _ hover =>
    cases h' with
    | top => rfl
    | up _ hsuper hrest => exact absurd hrest.head (hover _ hsuper).1
  | up _ hsuper hrest ih =>
    cases h' with
    | top _ hover => exact absurd hrest.head (hover _ hsuper).1
    | up _ hsuper' hrest' =>
      obtain rfl := Option.some.inj (hsuper.symm.trans hsuper')
      rw [ih hrest']

/-- The chain goes on from each of its classes. -/
theorem exists_suffix (h : StillLinked m c classes) {k : ClassId} (hk : k ∈ classes) :
    ∃ above, above <:+ classes ∧ StillLinked m k above := by
  induction h with
  | top hlinked hover =>
    obtain rfl := List.mem_singleton.1 hk
    exact ⟨_, List.suffix_refl _, .top hlinked hover⟩
  | up hlinked hsuper hrest ih =>
    rcases List.mem_cons.1 hk with rfl | hk
    · exact ⟨_, List.suffix_refl _, .up hlinked hsuper hrest⟩
    · obtain ⟨above, hsuffix, habove⟩ := ih hk
      exact ⟨above, hsuffix.trans (List.suffix_cons ..), habove⟩

/-- A chain that came back to one of its classes would be longer than itself. -/
theorem nodup (h : StillLinked m c classes) : classes.Nodup := by
  induction h with
  | top => exact List.pairwise_singleton ..
  | @up c _ classes hlinked hsuper hrest ih =>
    refine List.nodup_cons.2 ⟨fun hc => ?_, ih⟩
    obtain ⟨above, hsuffix, habove⟩ := hrest.exists_suffix hc
    have hsame := habove.unique (.up hlinked hsuper hrest)
    have hlength := hsuffix.length_le
    rw [← hsame, List.length_cons] at hlength
    omega

theorem withFrames (h : StillLinked m c classes) (frames : List Frame) : StillLinked (m.withFrames frames) c classes := by
  induction h with
  | top hlinked hover => exact .top hlinked hover
  | up hlinked hsuper _ ih => exact .up hlinked hsuper ih

theorem length_le (h : StillLinked m c classes) : classes.length ≤ m.classes.size := by
  have hsub : classes ⊆ (List.range m.classes.size).map ClassId.mk := by
    intro k hk
    have hstate : (m.classAt k).state ≠ .unlinked := by
      rw [h.linked k hk]
      exact ClassState.noConfusion
    exact List.mem_map.2 ⟨k.index, List.mem_range.2 (Machine.lt_of_state hstate), rfl⟩
  simpa using h.nodup.length_le_of_subset hsub

end StillLinked

namespace Initialization

variable {s : Context} {m : Machine}

/-! ## The chain is found -/

theorem run_awaitState {c : ClassId} (h : ∀ t, (m.classAt c).state = .initializing t → t = m.current) :
    awaitState c m = .ok (m.classAt c).state m := by
  rw [awaitState, M.run_bind (M.run_get m)]
  cases hstate : (m.classAt c).state with
  | initializing t =>
    dsimp only
    rw [if_pos (h t hstate)]
    rfl
  | _ => rfl

theorem run_chain {c : ClassId} {classes : List ClassId} (h : StillLinked m c classes) {n : Nat} (hn : classes.length ≤ n) :
    ∃ last, chain n (some c) m = .ok (classes, last) m ∧ ∀ p, last = some p → (m.classAt p).state ≠ .erroneous := by
  have hawait {k : ClassId} (hk : (m.classAt k).state = .linked) : awaitState k m = .ok .linked m := by
    rw [run_awaitState (by rw [hk]; rintro t ⟨⟩), hk]
  induction h generalizing n with
  | @top c hlinked hover =>
    obtain ⟨n, rfl⟩ := Nat.exists_eq_add_of_le' hn
    rw [List.length_singleton, chain, M.run_bind (hawait hlinked), if_pos rfl, M.run_bind (M.run_classAt c m)]
    split
    · refine ⟨some c, rfl, ?_⟩
      rintro p ⟨⟩
      rw [hlinked]
      exact ClassState.noConfusion
    · next hinterface =>
      have hsuper : m.superOf c = (m.classAt c).super := by simp [Machine.superOf, hinterface]
      rw [hsuper] at hover
      cases hp : (m.classAt c).super with
      | none =>
        refine ⟨none, ?_, by rintro p ⟨⟩⟩
        cases n <;> rfl
      | some p =>
        obtain ⟨hnot, hgood, hmine⟩ := hover p hp
        refine ⟨some p, ?_, ?_⟩
        · cases n with
          | zero => rfl
          | succ n =>
            have hrest : chain (n + 1) (some p) m = .ok ([], some p) m := by
              rw [chain, M.run_bind (run_awaitState hmine), if_neg hnot]
              rfl
            rw [M.run_bind hrest]
            rfl
        · rintro _ ⟨⟩
          exact hgood
  | @up c p classes hlinked hsuper hrest ih =>
    rw [List.length_cons] at hn
    obtain ⟨n, rfl⟩ := Nat.exists_eq_add_of_le' (Nat.le_trans (Nat.le_add_left 1 _) hn)
    obtain ⟨last, hchain, hlast⟩ := ih (Nat.le_of_succ_le_succ hn)
    rw [Machine.superOf] at hsuper
    split at hsuper
    · cases hsuper
    · next hinterface =>
      refine ⟨last, ?_, hlast⟩
      rw [chain, M.run_bind (hawait hlinked), if_pos rfl, M.run_bind (M.run_classAt c m), if_neg hinterface, hsuper,
        M.run_bind hchain]
      rfl

/-! ## The classes are claimed -/

/-- The classes are claimed one after the other. -/
theorem run_claimAll {classes : List ClassId} (hnodup : classes.Nodup)
    (hlinked : ∀ c ∈ classes, (m.classAt c).state = .linked) (claimed : List ClassId) :
    claimAll claimed classes m = .ok true (classes.foldl claiming m) := by
  induction classes generalizing m claimed with
  | nil => rfl
  | cons c rest ih =>
    obtain ⟨hc, hrest⟩ := List.nodup_cons.1 hnodup
    have hstate := hlinked c List.mem_cons_self
    have hclaim : claim c m = .ok true (claiming m c) := by
      rw [claim, M.run_bind (M.run_classAt c m), if_pos hstate]
      rfl
    rw [claimAll, M.run_bind hclaim, if_pos rfl, List.foldl_cons]
    refine ih hrest (fun k hk => ?_) _
    rw [claiming, Machine.classAt_enter, if_neg]
    · exact hlinked k (List.mem_cons_of_mem _ hk)
    · rintro ⟨rfl, -⟩
      exact hc hk

theorem frames_claimed (m : Machine) (classes : List ClassId) : (classes.foldl claiming m).frames = m.frames := by
  induction classes generalizing m with
  | nil => rfl
  | cons c rest ih => exact ih (claiming m c)

theorem current_claimed (m : Machine) (classes : List ClassId) : (classes.foldl claiming m).current = m.current := by
  induction classes generalizing m with
  | nil => rfl
  | cons c rest ih => exact ih (claiming m c)

theorem frameLimit_claimed (m : Machine) (classes : List ClassId) :
    frameLimit (classes.foldl claiming m) = frameLimit m := by
  induction classes generalizing m with
  | nil => rfl
  | cons c rest ih => exact ih (claiming m c)

theorem initializerOf_claimed (m : Machine) (classes : List ClassId) (k : ClassId) :
    (classes.foldl claiming m).initializerOf k = m.initializerOf k := by
  induction classes generalizing m with
  | nil => rfl
  | cons c rest ih =>
    have hmethods : ((claiming m c).classAt k).methods = (m.classAt k).methods :=
      congrArg (·.2.2) (m.descent_enter c k _ _)
    rw [List.foldl_cons, ih, Machine.initializerOf, Machine.initializerOf, Class.findMethod, hmethods]
    rfl

/-- A class that was claimed is in progress for the running thread. -/
theorem stateOf_claimed (m : Machine) (classes : List ClassId) (k : ClassId) :
    (classes.foldl claiming m).journal.stateOf k =
      if k ∈ classes then .initializing m.current else m.journal.stateOf k := by
  induction classes generalizing m with
  | nil => rfl
  | cons c rest ih =>
    have hcurrent : (claiming m c).current = m.current := rfl
    rw [List.foldl_cons, ih, stateOf_claiming, hcurrent]
    grind

/-! ## The initializers are pushed -/

theorem current_pushed (m : Machine) (classes : List ClassId) :
    (classes.foldl pushingInitializer m).current = m.current := by
  induction classes generalizing m with
  | nil => rfl
  | cons c rest ih => exact ih (pushingInitializer m c)

theorem stateOf_pushed (m : Machine) (classes : List ClassId) (k : ClassId) :
    (classes.foldl pushingInitializer m).journal.stateOf k = m.journal.stateOf k := by
  induction classes generalizing m with
  | nil => rfl
  | cons c rest ih => exact ih (pushingInitializer m c)

/-! ## Initializers are scheduled -/

/-- The machine in which classes were claimed and their initializers put on the frame stack. -/
def scheduled (m : Machine) (classes : List ClassId) : Machine := classes.foldl pushingInitializer (classes.foldl claiming m)

theorem frames_scheduled (m : Machine) (classes : List ClassId) :
    (scheduled m classes).frames = (classes.map fun k => Frame.ofMethod (m.initializerOf k)).reverse ++ m.frames := by
  rw [scheduled, frames_pushed, frames_claimed]
  simp only [initializerOf_claimed]

theorem current_scheduled (m : Machine) (classes : List ClassId) : (scheduled m classes).current = m.current := by
  rw [scheduled, current_pushed, current_claimed]

theorem mem_journal_scheduled (m : Machine) {classes : List ClassId} {c : ClassId} (hc : c ∈ classes) :
    .pushed c ∈ (scheduled m classes).journal := by
  rw [scheduled, journal_pushed]
  exact List.mem_append_left _ (List.mem_reverse.2 (List.mem_map_of_mem hc))

theorem stateOf_scheduled (m : Machine) {classes : List ClassId} {c : ClassId} (hc : c ∈ classes) :
    (scheduled m classes).journal.stateOf c = .initializing m.current := by
  rw [scheduled, stateOf_pushed, stateOf_claimed, if_pos hc]

/-- The initializers of a class and of its superclasses are put on the frame stack if there is room for them. -/
theorem run_schedule {c : ClassId} {classes : List ClassId} (h : StillLinked m c classes)
    (hroom : m.frames.length + classes.length ≤ frameLimit m) : schedule s c m = .ok () (scheduled m classes) := by
  obtain ⟨last, hchain, hlast⟩ := run_chain h (Nat.le_succ_of_le h.length_le)
  have hgood : (last.filter fun k => (m.classAt k).state == .erroneous) = none := by
    cases last with
    | none => rfl
    | some p => simpa using hlast p rfl
  rw [schedule, M.run_bind (M.run_get m), M.run_bind hchain]
  dsimp only
  rw [hgood]
  dsimp only
  rw [M.run_bind (run_claimAll h.nodup h.linked []), if_pos rfl]
  exact run_pushInitializers (by rw [frames_claimed, frameLimit_claimed]; exact hroom)

/-! ## Classes are asked for -/

variable {use : M Unit}

/-- The instruction is put back, and the initializers are on top of its frame. -/
theorem run_ensure {c : ClassId} {classes : List ClassId} {a : Activation} {rest : List Frame}
    (hframes : m.frames = .active a :: rest) (h : StillLinked m c classes)
    (hroom : m.frames.length + classes.length ≤ frameLimit m) :
    ensure s c m = .ok false (scheduled (m.withFrames (.active { a with nextPc := a.pc } :: rest)) classes) := by
  have hawait : awaitState c m = .ok .linked m := by
    rw [run_awaitState (by rw [h.head]; nofun), h.head]
  rw [ensure, M.run_bind hawait]
  dsimp only
  rw [M.run_bind (Interpreter.run_updateActivation hframes _), M.run_bind (run_schedule (h.withFrames _) ?_)]
  · rfl
  · rw [hframes] at hroom
    exact hroom

theorem run_ensure_of_initialized {c : ClassId} (h : (m.classAt c).state = .initialized) : ensure s c m = .ok true m := by
  have hawait : awaitState c m = .ok .initialized m := by
    rw [run_awaitState (by rw [h]; nofun), h]
  rw [ensure, M.run_bind hawait]
  rfl

/-- A class that has failed before is not used. -/
theorem run_ensure_of_erroneous {c : ClassId} (h : (m.classAt c).state = .erroneous) :
    (do if ← ensure s c then use) m =
      s.throwNew Throwables.noClassDef s!"Could not initialize class {(m.classAt c).javaName}" m := by
  have hawait : awaitState c m = .ok .erroneous m := by
    rw [run_awaitState (by rw [h]; nofun), h]
  have hfailed : failedBefore c m = .ok s!"Could not initialize class {(m.classAt c).javaName}" m := rfl
  rw [ensure, bind_assoc, M.run_bind hawait]
  dsimp only
  rw [bind_assoc, M.run_bind hfailed, bind_assoc, bind_apply]
  cases s.throwNew Throwables.noClassDef s!"Could not initialize class {(m.classAt c).javaName}" m with
  | ok => rfl
  | error => rfl

end Initialization

/-! ## Instructions that need a class -/

namespace Execute

variable {s : Services} {m x : Machine} {method : Method} {i : Instruction} {c : ClassId} {use : M Unit}

/-- An instruction needs a class: its operand is resolved for the method that runs, which leads to another machine, and is
what the instruction asks for. What it is used for comes after that. -/
inductive Uses (s : Services) (m : Machine) (method : Method) (x : Machine) : Instruction → ClassId → M Unit → Prop
  | new {index : Nat} {c : ClassId}
      (resolves : (Resolution.classEntry s method.owner index).run m = .ok (.ok c) x)
      (concrete : ((x.classAt c).isInterface || (x.classAt c).isAbstract) = false) :
      Uses s m method x (.new index) c (do pushRef (some (← newObject c)))
  | getStatic {index : Nat} {f : Field}
      (resolves : (Resolution.fieldEntry s method.owner index).run m = .ok (.ok f) x)
      (static : f.isStatic = true) :
      Uses s m method x (.getStatic index) f.owner (do
        push (← onStatics f.owner (Slots.read f.slot))
        if f.isWide then push (← onStatics f.owner (Slots.read (f.slot + 1))))
  | putStatic {index : Nat} {f : Field}
      (resolves : (Resolution.fieldEntry s method.owner index).run m = .ok (.ok f) x)
      (static : f.isStatic = true)
      (writable : method.MayWrite f Method.clinitName) :
      Uses s m method x (.putStatic index) f.owner (do
        if f.isWide then
          let hi ← pop
          onStatics f.owner (Slots.write (f.slot + 1) hi)
        let lo ← pop
        onStatics f.owner (Slots.write f.slot lo))
  | call {index : Nat} {owner : ClassId} {called : Method}
      (resolves : (Resolution.methodEntry s method.owner index).run m = .ok (.ok (owner, called)) x)
      (static : called.isStatic = true) :
      Uses s m method x (.call .static index) called.owner (enterCalled s called)

/-- Until it uses its class, such an instruction does no more than to resolve its operand. -/
theorem Uses.holds {R : Ending → Machine → Machine → Prop} (h : Uses s m method x i c use) (hr : Resolving R s) :
    R .done m x := by
  cases h with
  | new resolves => exact (hr.classEntry _ _ m).of_ok resolves
  | getStatic resolves => exact (hr.fieldEntry _ _ m).of_ok resolves
  | putStatic resolves => exact (hr.fieldEntry _ _ m).of_ok resolves
  | call resolves => exact (hr.methodEntry _ _ m).of_ok resolves

section run

variable {a : Activation} {rest : List Frame}

theorem run_activation (hframes : m.frames = .active a :: rest) : activation m = .ok a m := by
  rw [activation, hframes]

theorem run_orThrow {α : Type} {context : Context} {act : Attempt α} {v : α} (h : act.run m = .ok (.ok v) x)
    (next : α → M Unit) : context.orThrow act next m = next v x := by
  rw [Context.orThrow, M.run_bind h]

theorem run_withField {index : Nat} {f : Field} {static : Bool} {next : Field → M Unit}
    (hframes : m.frames = .active a :: rest)
    (hresolves : (Resolution.fieldEntry s a.method.owner index).run m = .ok (.ok f) x) (hstatic : f.isStatic = static) :
    withField s index static next m = next f x := by
  rw [withField, M.run_bind (run_activation hframes)]
  refine (run_orThrow hresolves _).trans ?_
  rw [if_pos (beq_iff_eq.2 hstatic)]

theorem run_ifWritable {f : Field} {initializer : String} {next : M Unit} (hframes : m.frames = .active a :: rest)
    (hwrite : a.method.MayWrite f initializer) : ifWritable s f initializer next m = next m := by
  rw [ifWritable, M.run_bind (run_activation hframes)]
  dsimp only
  rw [if_pos hwrite.writable]

/-- The instructions resolve their operand, and use its class if they may. -/
theorem execute_of_uses {natives : Natives} (h : Uses s m a.method x i c use) (hframes : m.frames = .active a :: rest)
    (hsame : x.frames = m.frames) :
    Interpreter.execute natives s i m = (do if ← Initialization.ensure s c then use) x := by
  cases h with
  | new resolves concrete =>
    have hholder : holder m = .ok a.method.owner m := by
      rw [holder, M.run_bind (run_activation hframes)]
      rfl
    change withClass s _ _ m = _
    rw [withClass, M.run_bind hholder]
    refine (run_orThrow resolves _).trans ?_
    rw [M.run_bind (M.run_classAt c x), concrete]
    rfl
  | getStatic resolves static => exact run_withField hframes resolves static
  | putStatic resolves static writable =>
    exact (run_withField hframes resolves static).trans (run_ifWritable (hsame.trans hframes) writable)
  | call resolves static =>
    change Execute.call s .static _ m = _
    rw [Execute.call, M.run_bind (run_activation hframes)]
    refine (run_orThrow resolves _).trans ?_
    dsimp only
    rw [callStatic, static]
    rfl

end run

open Interpreter in
/-- Where its class has the same flags and the pool remembers what it remembered, the instruction needs the same class for
the same use, and resolves it without any change. -/
theorem Uses.again {n : Nat} {y : Machine} (h : Uses (services Natives.standard n) m method x i c use)
    (hflags : (y.classAt c).flags = (x.classAt c).flags)
    (hremembers : ∀ index r, (x.classAt method.owner).Remembers index r → (y.classAt method.owner).Remembers index r) :
    Uses (services Natives.standard n) y method y i c use := by
  cases h with
  | new resolves concrete =>
    obtain ⟨r, hr, hrun⟩ := Resolution.recalls_classEntry resolves
    refine .new (hrun y (hremembers _ r hr)) ?_
    rw [Class.isInterface, Class.isAbstract, hflags]
    exact concrete
  | getStatic resolves static =>
    obtain ⟨r, hr, hrun⟩ := Resolution.recalls_fieldEntry resolves
    exact .getStatic (hrun y (hremembers _ r hr)) static
  | putStatic resolves static writable =>
    obtain ⟨r, hr, hrun⟩ := Resolution.recalls_fieldEntry resolves
    exact .putStatic (hrun y (hremembers _ r hr)) static writable
  | call resolves static =>
    obtain ⟨r, hr, hrun⟩ := Resolution.recalls_methodEntry resolves
    exact .call (hrun y (hremembers _ r hr)) static

end Execute

end JavaMachine
