import JavaMachine.Proofs.Calls.Arguments
import JavaMachine.Proofs.Loading.Remembered
import JavaMachine.Proofs.Raising.Instructions

/-!
How exceptions of the machine are made. No object ever goes away, so a throwable is none of the objects that were there
when the instruction ran that raises it. All that its making calls is a constructor of it, on the frames of that moment.
-/

namespace JavaMachine

open M Throwing

variable {s : Services}

/-! ## The heap -/

/-- No object goes away. -/
def Hoarding (_ : Ending) (a b : Machine) : Prop := a.heap.size ≤ b.heap.size

instance : Frameless Hoarding where
  minor h := h.heap
  trans := Nat.le_trans
  calm h hm := Nat.le_trans h hm.heap
  stored _ := Nat.le_refl _
  enter _ _ _ := Nat.le_refl _
  note _ := Nat.le_refl _
  reframe h := h.steady.heap
  reframed h hr := Nat.le_trans h hr.steady.heap
  halted := id

theorem heap_addArrayClass (m : Machine) (k : Class) (asked : Nat) : (m.addArrayClass k asked).2.heap = m.heap := by
  simp only [Machine.addArrayClass]
  split <;> rfl

instance : Careless Hoarding where
  slight h := h.heap

instance : Defining Hoarding where
  loaders _ := Nat.le_refl _
  afterLoaders _ h := h
  strings _ _ := Nat.le_refl _
  arrays k asked _ := Nat.le_of_eq (congrArg Array.size (heap_addArrayClass _ k asked).symm)

instance : Forgetful Hoarding where
  setEntry _ _ _ := Nat.le_refl _

theorem Linking.hoarding_publish (h : Hosted Hoarding s) (l : Nat) (k : Class) (_ : k.state = .unlinked)
    (_ : k.mirror = none) :
    Attempt.Keeps Hoarding (publish s l k) := by
  unfold publish
  refine Attempt.keeps_bind (Attempt.keeps_modifyGet fun m => Nat.le_refl _) fun c => ?_
  refine Attempt.keeps_bind (Attempt.keeps_lift keeps_classAt) fun k => ?_
  have hseed : Attempt.Keeps Hoarding (seed s c k.fields) :=
    keeps_seed (fun _ _ => Resolution.keeps_remember) (keeps_ensureStringClasses h)
  refine Attempt.keeps_bind hseed fun _ => ?_
  exact Attempt.keeps_bind (Attempt.keeps_lift keeps_setState) fun _ => Attempt.keeps_pure

/-- Whatever the machine does, no object goes away. -/
theorem serving_hoarding (n : Nat) : Serving Hoarding (Interpreter.services Natives.standard n) := by
  induction n with
  | zero => exact Interpreter.serving_silent (.of_load fun _ _ => keeps_throw)
  | succ n ih =>
    have hpublish := Linking.hoarding_publish ih.toHosted
    have hload := Linking.keeps_loadClass ih.toHosted hpublish
    have hdefine := Linking.keeps_defineClass ih.toHosted hpublish
    exact Interpreter.serving_succ ih hload hdefine (.of_careless (ih.toHosted.workingFrameless hdefine)) (.of_load hload)

/-! ## The frames -/

theorem Frame.Eased.trans {f g h : Frame} (hfg : f.Eased g) (hgh : g.Eased h) : f.Eased h := by
  cases hfg with
  | barrier => exact hgh
  | shim hs =>
    cases hgh with
    | shim hs' => exact .shim (hs'.trans hs)
  | active hmethod hlocals hpc hnext hstack =>
    cases hgh with
    | active hmethod' hlocals' hpc' hnext' hstack' =>
      refine .active (hmethod'.trans hmethod) (hlocals'.trans hlocals) (hpc'.trans hpc) ?_ (hstack'.trans hstack)
      rcases hnext' with hnext' | hnext'
      · exact hnext.imp hnext'.trans hnext'.trans
      · exact .inr (hnext'.trans hpc)

theorem Eased.trans {a b c : List Frame} (h : Eased a b) (h' : Eased b c) : Eased a c := by
  cases h with
  | same => exact h'
  | top rest hf =>
    cases h' with
    | same => exact .top rest hf
    | top _ hg => exact .top rest (hf.trans hg)

theorem Readies.frames (h : Hosted Kept s) {a b : Machine} (hab : Readies s a b) : Eased a.frames b.frames := by
  induction hab with
  | refl m => exact .same _
  | own hown _ ih => exact hown.frames.trans ih
  | @load a b c l name r hload _ ih =>
    have hkept : Kept .done a b := (h.load l name a).of_ok hload
    rwa [hkept.frames] at ih

theorem Readies.heap (h : Hosted Hoarding s) {a b : Machine} (hab : Readies s a b) : a.heap.size ≤ b.heap.size := by
  induction hab with
  | refl m => exact Nat.le_refl _
  | own hown _ ih =>
    rw [hown.rest] at ih
    exact ih
  | @load a b c l name r hload _ ih =>
    have hmore : Hoarding .done a b := (h.load l name a).of_ok hload
    exact Nat.le_trans hmore ih

/-- Initializers that have not started. -/
def Unstarted (frames : List Frame) : Prop := ∀ f ∈ frames, ∃ method : Method, method.isClinit ∧ f = Frame.ofMethod method

/-- Where something is raised, the frame that ran the instruction is innermost but for initializers that have not started,
and they are there only if one did not fit. -/
theorem PreparesFor.frames (h : Hosted Kept s) {a c : Machine} {r : Raise} (hac : PreparesFor s a r c) {top : Activation}
    {rest : List Frame} (hframes : a.frames = .active top :: rest) :
    ∃ above b, c.frames = above ++ .active b :: rest ∧ b.method = top.method ∧ b.locals = top.locals ∧ b.pc = top.pc ∧
      Unstarted above ∧ (above ≠ [] → r = .new Throwables.stackOverflow "") := by
  have hready {x : Machine} (hx : Readies s a x) :
      ∃ b, x.frames = .active b :: rest ∧ b.method = top.method ∧ b.locals = top.locals ∧ b.pc = top.pc := by
    have heased := hx.frames h
    rw [hframes] at heased
    generalize hxframes : x.frames = frames at heased
    cases heased with
    | same => exact ⟨top, rfl, rfl, rfl, rfl⟩
    | top _ hf =>
      cases hf with
      | active hmethod hlocals hpc => exact ⟨_, rfl, hmethod, hlocals, hpc⟩
  rcases hac with hx | ⟨hr, x, hx, hcovered⟩
  · obtain ⟨b, hb, hsame⟩ := hready hx
    exact ⟨[], b, hb, hsame.1, hsame.2.1, hsame.2.2, by simp [Unstarted], fun hne => absurd rfl hne⟩
  · obtain ⟨b, hb, hsame⟩ := hready hx
    obtain ⟨above, habove, hc⟩ := hcovered.frames
    exact ⟨above, b, by rw [hc, hb], hsame.1, hsame.2.1, hsame.2.2, habove, fun _ => hr⟩

theorem PreparesFor.heap (h : Hosted Hoarding s) {a c : Machine} {r : Raise} (hac : PreparesFor s a r c) :
    a.heap.size ≤ c.heap.size := by
  obtain ⟨x, hx, hcovered⟩ := hac.prepares
  rw [hcovered.rest]
  exact hx.heap h

/-! ## Calls -/

namespace Throwing

/-- All that an action calls is of some kind: what becomes of other calls makes no difference. -/
def CallsOnly {α : Type} (s : Services) (act : Services → M α) (m : Machine)
    (P : Method → List Slot → Machine → Prop) : Prop :=
  ∀ invoke, (∀ method args c, P method args c → (invoke method args).run c = (s.invoke method args).run c) →
    act { s with invoke } m = act s m

namespace CallsOnly

variable {α β : Type} {m : Machine} {P : Method → List Slot → Machine → Prop}

theorem silent (act : M α) : CallsOnly s (fun _ => act) m P := fun _ _ => rfl

theorem mono {P' : Method → List Slot → Machine → Prop} {act : Services → M α} (h : CallsOnly s act m P)
    (hP : ∀ method args c, P method args c → P' method args c) : CallsOnly s act m P' :=
  fun invoke hinvoke => h invoke fun method args c hcall => hinvoke method args c (hP method args c hcall)

theorem bind {act : Services → M α} {next : α → Services → M β} {Q : α → Machine → Prop}
    (hact : CallsOnly s act m P) (hQ : After (act s) m Q fun _ => True) (hnext : ∀ a b, Q a b → CallsOnly s (next a) b P) :
    CallsOnly s (fun s => act s >>= fun a => next a s) m P := by
  intro invoke hinvoke
  change (act { s with invoke } >>= fun a => next a { s with invoke }) m = (act s >>= fun a => next a s) m
  rw [bind_apply, bind_apply, hact invoke hinvoke]
  cases hr : act s m with
  | ok a b => exact hnext a b (hQ.of_ok hr) invoke hinvoke
  | error e b => rfl

theorem ensuring {act : Services → M α} (h : CallsOnly s act m P) (last : Machine → Machine) :
    CallsOnly s (fun s => M.ensuring (act s) last) m P := by
  intro invoke hinvoke
  change M.ensuring (act { s with invoke }) last m = M.ensuring (act s) last m
  unfold M.ensuring
  rw [h invoke hinvoke]

end CallsOnly

/-! ## Making throwables -/

/-- A call of a constructor of an object that is not there in a machine, on its frames. -/
structure Constructs (m : Machine) (ex : Ref) (constructor : Method) (args : List Slot) (c : Machine) : Prop where
  isInit : constructor.isInit
  receiver : args.head? = some (.ref ex)
  new : m.heap.size ≤ ex.index
  frames : c.frames = m.frames

theorem isInit_of_findMethod {k : Class} {desc : String} {method : Method}
    (h : k.findMethod Method.initName desc = some method) : method.isInit := by
  rw [Method.isInit, beq_iff_eq]
  exact (Class.of_findMethod h).2.1

/-- The frames are as they were, and no object went away. -/
structure Calm (a b : Machine) : Prop where
  frames : b.frames = a.frames
  heap : a.heap.size ≤ b.heap.size

theorem Calm.trans {a b c : Machine} (h : Calm a b) (h' : Calm b c) : Calm a c :=
  ⟨h'.frames.trans h.frames, Nat.le_trans h.heap h'.heap⟩

theorem after_calm {α : Type} {act : M α} (hkept : Keeps Kept act) (hheap : Keeps Hoarding act) (m : Machine) :
    After act m (fun _ => Calm m) fun _ => True := by
  have hk := hkept m
  have hh := hheap m
  unfold After at *
  cases hr : act m with
  | ok a b =>
    rw [hr] at hk hh
    exact ⟨hk.frames, hh⟩
  | error e b => trivial

theorem after_newObject_calm (c : ClassId) (m : Machine) :
    After (newObject c) m (fun r b => Calm m b ∧ m.heap.size ≤ r.index) fun _ => True := by
  rw [newObject, after_bind_iff, after_get]
  cases m.classes[c.index]? with
  | none => trivial
  | some k =>
    refine ⟨⟨rfl, ?_⟩, Nat.le_refl _⟩
    change m.heap.size ≤ (m.heap.push _).size
    rw [Array.size_push]
    omega

section

variable {name message : String} {cause : Option Ref} {m c : Machine}

theorem callsOnly_finish {object : Ref} {constructor : Method} {args : List Slot} (hc : Calm m c)
    (hnew : m.heap.size ≤ object.index) (hinit : constructor.isInit) :
    CallsOnly s (fun s => newThrowable.finish s name message cause object constructor (.ref object :: args)) c
      fun constructor args c => ∃ ex, Constructs m ex constructor args c := by
  unfold newThrowable.finish
  refine .bind (Q := fun _ _ => True) ?_ ?_ fun _ _ _ => .silent _
  · exact fun invoke hinvoke => hinvoke _ _ _ ⟨object, hinit, rfl, hnew, hc.frames⟩
  · unfold After
    split <;> trivial

theorem callsOnly_build (hkept : Hosted Kept s) (hheap : Hosted Hoarding s) (hc : Calm m c) :
    CallsOnly s (fun s => newThrowable.build s name message cause) c fun constructor args c =>
      ∃ ex, Constructs m ex constructor args c := by
  have hstring (c : Machine) : After (newString message) c (fun _ => Calm c) fun _ => True :=
    after_calm keeps_newString keeps_newString c
  unfold newThrowable.build
  refine .bind (fun _ _ => rfl) (after_calm hkept.loadBoot hheap.loadBoot c) fun r c₁ hc₁ => ?_
  cases r with
  | error f => exact .silent _
  | ok k =>
    refine .bind (fun _ _ => rfl) (after_calm (hkept.initClass k) (hheap.initClass k) c₁) fun r c₂ hc₂ => ?_
    cases r with
    | error f => exact .silent _
    | ok _ =>
      refine .bind (.silent _) (after_newObject_calm k c₂) fun object c₃ ⟨hc₃, hnew⟩ => ?_
      have hcalm : Calm m c₃ := ((hc.trans hc₁).trans hc₂).trans hc₃
      have hobject : m.heap.size ≤ object.index := Nat.le_trans ((hc.trans hc₁).trans hc₂).heap hnew
      refine .bind (Q := fun _ b => b = c₃) (.silent _) rfl fun declaring b hb => ?_
      rw [hb]
      dsimp only
      split
      · next constructor hfound =>
        refine .bind (.silent _) (hstring c₃) fun text c₄ hc₄ => ?_
        refine callsOnly_finish (hcalm.trans hc₄) hobject ?_
        split at hfound
        · cases hfound
        · exact isInit_of_findMethod hfound
      · cases hfound : declaring.findMethod Method.initName "()V" with
        | none => exact fun _ _ => rfl
        | some constructor =>
          have hinit := isInit_of_findMethod hfound
          by_cases hmessage : message ≠ ""
          · simp only [if_pos hmessage]
            exact .bind (.silent _) (hstring c₃) fun _ c₄ hc₄ => callsOnly_finish (hcalm.trans hc₄) hobject hinit
          · simp only [if_neg hmessage]
            exact callsOnly_finish hcalm hobject hinit

end

/-- All that making a throwable calls is a constructor of it. -/
theorem callsOnly_newThrowable (hkept : Hosted Kept s) (hheap : Hosted Hoarding s) (name message : String)
    (cause : Option Ref) (m : Machine) :
    CallsOnly s (fun s => newThrowable s name message cause) m fun constructor args c =>
      ∃ ex, Constructs m ex constructor args c := by
  unfold newThrowable
  refine .bind (Q := fun _ b => b = m) (.silent _) rfl fun before b hb => ?_
  rw [hb]
  refine .bind (.silent _) (Q := fun _ c => Calm m c) ⟨rfl, Nat.le_refl _⟩ fun _ c hc => ?_
  exact .ensuring (callsOnly_build hkept hheap hc) _

end Throwing

end JavaMachine
