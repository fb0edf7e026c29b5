import JavaMachine.Proofs.Initialization.Requests
import JavaMachine.Proofs.Machine.Claims

/-!
The frame stack as the operations of the machine leave it. A machine is `Framed` if every frame that runs code fits its
method, and there are no more frames than the limit allows. What is `Kept` leaves the frames as they are, and sets
nothing up anew where the machine is framed. Main results: adding classes keeps the frames if the operations behind it
do (`Linking.kept_publish`), so loading and defining them does, and so do exceptions that are made and threads that run
meanwhile.
-/

namespace JavaMachine

open M Throwing

/-! ## Frames that fit -/

/-- An activation has the room that its method asks for, and its operand stack is tidy. -/
structure Activation.Fits (a : Activation) : Prop where
  capacity : a.stack.slots.size = a.method.maxStack
  tidy : a.stack.Tidy
  locals : a.locals.size = a.method.maxLocals

/-- A frame that runs code fits its method. -/
def Frame.Fits (f : Frame) : Prop := ∀ a, f = .active a → a.Fits

/-- Every frame fits, and there are no more than the running thread may have. -/
structure Machine.Framed (m : Machine) : Prop where
  fits : ∀ f ∈ m.frames, f.Fits
  depth : m.frames.length ≤ frameLimit m

theorem Frame.fits_ofMethod (method : Method) : (Frame.ofMethod method).Fits := by
  rintro a ⟨⟩
  exact ⟨Array.size_replicate, OperandStack.tidy_ofCapacity _, Array.size_replicate⟩

theorem Frame.Fits.becomes {f g : Frame} (h : f.Fits) (hg : f.Becomes g) : g.Fits := by
  cases hg with
  | barrier => nofun
  | shim => nofun
  | @active a a' hmethod hpc hstack hlocals =>
    rintro _ ⟨⟩
    have ha := h a rfl
    refine ⟨?_, hstack.tidy ha.tidy, ?_⟩
    · rw [hstack.capacity, ha.capacity, hmethod]
    · rw [hlocals, ha.locals, hmethod]

theorem Machine.Framed.congr {a b : Machine} (h : a.Framed) (hframes : b.frames = a.frames)
    (hlimit : frameLimit a ≤ frameLimit b) : b.Framed where
  fits := by
    rw [hframes]
    exact h.fits
  depth := by
    rw [hframes]
    exact Nat.le_trans h.depth hlimit

theorem frameLimit_congr {a b : Machine} (hoptions : b.options = a.options) (hoverflowing : b.overflowing = a.overflowing) :
    frameLimit b = frameLimit a := by
  rw [frameLimit, frameLimit, hoptions, hoverflowing]

/-! ## What operations do -/

/-- A change of nothing that has to do with the frame stack. -/
structure Aside (a b : Machine) : Prop where
  frames : b.frames = a.frames
  pending : b.pending = a.pending
  overflowing : b.overflowing = a.overflowing
  options : b.options = a.options

/-- What an operation of the machine does: the frames are as before, and no exception is left pending unless one was
or the machine halts. The setup stays, as far as a framed machine is concerned. -/
structure Kept (e : Ending) (a b : Machine) : Prop where
  frames : b.frames = a.frames
  overflowing : b.overflowing = a.overflowing
  pending : e = .done → a.pending = none → b.pending = none
  options : a.Framed → b.options = a.options

namespace Kept

variable {e : Ending} {a b c : Machine}

theorem framed (h : Kept e a b) (ha : a.Framed) : b.Framed :=
  ha.congr h.frames (Nat.le_of_eq (frameLimit_congr (h.options ha) h.overflowing).symm)

theorem of_aside (h : Aside a b) : Kept e a b :=
  ⟨h.frames, h.overflowing, fun _ ha => h.pending.trans ha, fun _ => h.options⟩

theorem trans (h : Kept .done a b) (h' : Kept e b c) : Kept e a c where
  frames := h'.frames.trans h.frames
  overflowing := h'.overflowing.trans h.overflowing
  pending hd ha := h'.pending hd (h.pending rfl ha)
  options ha := (h'.options (h.framed ha)).trans (h.options ha)

theorem aside (h : Kept e a b) (h' : Aside b c) : Kept e a c where
  frames := h'.frames.trans h.frames
  overflowing := h'.overflowing.trans h.overflowing
  pending hd ha := h'.pending.trans (h.pending hd ha)
  options ha := h'.options.trans (h.options ha)

end Kept

theorem Slight.aside {a b : Machine} (h : Slight a b) : Aside a b := ⟨h.frames, h.pending, h.overflowing, h.options⟩

instance : Noting Kept where
  minor h := .of_aside h.aside
  trans := Kept.trans
  calm h h' := h.aside h'.aside
  stored _ := .of_aside ⟨rfl, rfl, rfl, rfl⟩
  enter _ _ _ := .of_aside ⟨rfl, rfl, rfl, rfl⟩
  note _ := .of_aside ⟨rfl, rfl, rfl, rfl⟩

instance : Careless Kept where
  slight h := .of_aside h.aside

instance : Forgetful Kept where
  setEntry _ _ _ := .of_aside ⟨rfl, rfl, rfl, rfl⟩

variable {s : Services}

/-! ## Loading -/

theorem Linking.aside_addArrayClass (m : Machine) (k : Class) (asked : Nat) : Aside m (m.addArrayClass k asked).2 := by
  simp only [Machine.addArrayClass]
  split
  · exact ⟨rfl, rfl, rfl, rfl⟩
  · exact ⟨rfl, rfl, rfl, rfl⟩

instance : Defining Kept where
  loaders _ := .of_aside ⟨rfl, rfl, rfl, rfl⟩
  afterLoaders _ h := h.aside ⟨rfl, rfl, rfl, rfl⟩
  strings _ _ := .of_aside ⟨rfl, rfl, rfl, rfl⟩
  arrays k asked _ := .of_aside (Linking.aside_addArrayClass _ k asked)

/-- Adding a class to the machine leaves the frames as they are. -/
theorem Linking.kept_publish (h : Hosted Kept s) (l : Nat) (k : Class) (_ : k.state = .unlinked)
    (_ : k.mirror = none) :
    Attempt.Keeps Kept (publish s l k) := by
  unfold publish
  refine Attempt.keeps_bind (Attempt.keeps_modifyGet fun m => .of_aside ⟨rfl, rfl, rfl, rfl⟩) fun c => ?_
  refine Attempt.keeps_bind (Attempt.keeps_lift keeps_classAt) fun k => ?_
  have hseed : Attempt.Keeps Kept (seed s c k.fields) :=
    keeps_seed (fun _ _ => Resolution.keeps_remember) (keeps_ensureStringClasses h)
  refine Attempt.keeps_bind hseed fun _ => ?_
  exact Attempt.keeps_bind (Attempt.keeps_lift keeps_setState) fun _ => Attempt.keeps_pure

/-! ## Exceptions and threads -/

/-- A machine that is framed is so within the reserve too. -/
theorem Machine.Framed.overflowing {m : Machine} (h : m.Framed) : { m with overflowing := true }.Framed := by
  refine h.congr rfl ?_
  simp only [frameLimit, if_true]
  split <;> omega

/-- A throwable is made within the reserve, which is given back afterwards. -/
theorem kept_newThrowable (h : Hosted Kept s) (name message : String) (cause : Option Ref) :
    Keeps Kept (newThrowable s name message cause) := by
  intro m
  have hbuild : Keeps Kept (newThrowable.build s name message cause) := keeps_newThrowable_build h
  have hrestored {e : Ending} {m' : Machine} (hkept : Kept e { m with overflowing := true } m') :
      Kept e m { m' with overflowing := m.overflowing } :=
    ⟨hkept.frames, rfl, hkept.pending, fun hm => hkept.options hm.overflowing⟩
  rw [newThrowable, after_bind_iff, after_get, after_bind_iff, after_modify, after_ensuring_iff]
  exact (hbuild _).mono (fun _ _ => hrestored) fun _ => hrestored

namespace Threads

/-- The thread that gave way finds its frames as they were. -/
theorem kept_runThread (h : Hosted Kept s) (id : Nat) : Keeps Kept (runThread s id) := by
  intro m
  let start : Machine := { m with current := id, frames := [], pending := none, overflowing := false }
  have hstart : start.Framed := ⟨nofun, Nat.zero_le _⟩
  have hbody : Keeps Kept (body s (m.threads.getD id default)) := by
    unfold body reportUncaught
    refine keeps_bind (Services.keeps_invokeVirtual h).run fun r => ?_
    split
    · exact keeps_pure
    · exact keeps_bind keeps_get fun _ => keeps_writeErr
  have hresumed {e : Ending} {after : Machine} (threadHalt : Option Halt) (hkept : Kept e start after) :
      Kept .done m { resume m after id with threadHalt } :=
    ⟨rfl, rfl, fun _ hm => hm, fun _ => hkept.options hstart⟩
  have hrun := hbody start
  unfold After at hrun
  unfold After runThread
  dsimp only
  split at hrun
  · next r after hact =>
    rw [hact]
    exact hresumed after.threadHalt hrun
  · next halt after hact =>
    rw [hact]
    exact hresumed _ hrun

theorem kept_runWaiting (h : Hosted Kept s) (n : Nat) : Keeps Kept (runWaiting s n) := by
  induction n with
  | zero => exact keeps_throw
  | succ n ih =>
    unfold runWaiting
    refine keeps_bind keeps_get fun m => ?_
    split
    · exact keeps_pure
    · refine keeps_bind (keeps_modify fun _ => .of_aside ⟨rfl, rfl, rfl, rfl⟩) fun _ => ?_
      exact keeps_bind (kept_runThread h _) fun _ => ih

theorem kept_giveWay (h : Hosted Kept s) : Keeps Kept (giveWay s) := kept_runWaiting h _

end Threads

end JavaMachine
