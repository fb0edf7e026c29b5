import JavaMachine.Proofs.Calls.Arguments
import JavaMachine.Proofs.Loading.Attained
import JavaMachine.Proofs.Loading.Resolution
import JavaMachine.Proofs.Raising.Instructions

/-!
Methods that calls select. The receiver of a call is found below the arguments of the method that its operand means, and
the method that is selected for it takes its own arguments off the stack. Main result: the two take the same slots, so
that the receiver and the arguments become the first local variables, if the one that is selected is not static
(`Interpreter.call_enters`). A static one may be selected, for superclasses are searched for names and descriptors only
(`static_method_entered`).
-/

namespace JavaMachine

open M Execute

/-! ## Selected methods -/

/-- The method that a call selects, where the operand of the instruction means a method: that method itself, or what the
superclass of the calling class or the class of the receiver has for its name and descriptor. -/
def Machine.selected (m : Machine) (kind : CallKind) (caller resolved receiver : ClassId) (method : Method) :
    Option Method :=
  match kind with
  | .static => some method
  | .special =>
    if !method.isInit && !(m.classAt resolved).isInterface && (m.classAt caller).flags.isSuper
        && m.isSubclassOf caller resolved then
      (m.classAt caller).super.bind fun super => m.lookupMethod super method.name method.desc
    else some method
  | .virtual => if method.isPrivate then some method else m.lookupMethod receiver method.name method.desc
  | .interface =>
    if method.isPrivate then some method
    else (m.lookupMethod receiver method.name method.desc).filter (·.isPublic)

namespace Machine

variable {m : Machine} {kind : CallKind} {caller resolved receiver : ClassId} {method target : Method}

/-- What a call selects is the method that it means, or found for its name and descriptor. -/
theorem of_selected (h : m.selected kind caller resolved receiver method = some target) :
    target = method ∨ ∃ c, m.lookupMethod c method.name method.desc = some target := by
  cases kind with
  | static => exact .inl (Option.some_inj.1 h).symm
  | special =>
    rw [selected] at h
    split at h
    · obtain ⟨super, -, hsuper⟩ := Option.bind_eq_some_iff.1 h
      exact .inr ⟨super, hsuper⟩
    · exact .inl (Option.some_inj.1 h).symm
  | «virtual» =>
    rw [selected] at h
    split at h
    · exact .inl (Option.some_inj.1 h).symm
    · exact .inr ⟨receiver, h⟩
  | interface =>
    rw [selected] at h
    split at h
    · exact .inl (Option.some_inj.1 h).symm
    · exact .inr ⟨receiver, (Option.filter_eq_some_iff.1 h).1⟩

/-- A method that a call may select for another: it has its name and descriptor and suits them. -/
structure Selects (m : Machine) (method target : Method) : Prop where
  declared : target ∈ (m.classAt target.owner).methods
  name : target.name = method.name
  desc : target.desc = method.desc
  suits : target.Suits
  static : target.isStatic → ∃ c k, k ∈ m.lineage c ∧ (m.classAt k).findMethod method.name method.desc = some target

theorem Fit.selects (hm : m.Fit) (hmethod : method ∈ (m.classAt method.owner).methods)
    (hinstance : method.isStatic = false) (h : m.selected kind caller resolved receiver method = some target) :
    m.Selects method target := by
  rcases of_selected h with rfl | ⟨c, hc⟩
  · refine ⟨hmethod, rfl, rfl, ((hm.owns _).methods _ hmethod).2, fun hstatic => ?_⟩
    rw [hinstance] at hstatic
    cases hstatic
  · obtain ⟨hdeclared, hname, hdesc, hsuits⟩ := hm.declared (declared_of_lookupMethod hc)
    refine ⟨hdeclared, hname, hdesc, hsuits, fun hstatic => ?_⟩
    rw [lookupMethod, Option.orElse_eq_or, Option.or_eq_some_iff] at hc
    rcases hc with hclass | ⟨-, hinterface⟩
    · obtain ⟨k, hk, hfound⟩ := of_lookupClassMethod hclass
      exact ⟨c, k, hk, hfound⟩
    · rw [(of_lookupInterfaces hinterface).2.1] at hstatic
      cases hstatic

/-- A method that is selected for an instance method takes the same slots, or one less if it is static. -/
theorem Selects.argSlots (h : m.Selects method target) (hsuits : method.Suits) (hinstance : method.isStatic = false) :
    target.argSlots + (if target.isStatic then 1 else 0) = method.argSlots := by
  obtain ⟨type, htype, hslots⟩ := hsuits.slots
  obtain ⟨type', htype', hslots'⟩ := h.suits.slots
  rw [h.desc, htype] at htype'
  cases htype'
  rw [hslots, hslots', hinstance, MethodType.slots, MethodType.slots]
  cases target.isStatic <;> rfl

end Machine

/-! ## Calls -/

namespace Execute

/-- A call of a method enters the method that is selected for the receiver below its arguments. If that one is static
the receiver stays on the stack, and the arguments are the first local variables. -/
def Enters (m : Machine) (kind : CallKind) (caller resolved : ClassId) (method : Method) (operands : List Slot)
    (frames frames' : List Frame) : Prop :=
  ∃ receiver target below args, method.isStatic = false ∧ operands = below ++ .ref receiver :: args ∧
    args.length + 1 = method.argSlots ∧ m.selected kind caller resolved (m.classOf receiver) method = some target ∧
    m.Selects method target ∧ target.isAbstract = false ∧
    (target.isStatic = false → Passes frames frames' target below (.ref receiver :: args)) ∧
    (target.isStatic = true → Passes frames frames' target (below ++ [.ref receiver]) args)

section calls

variable {s : Context} {m : Machine} {kind : CallKind} {resolved : ClassId} {method : Method} {operands : List Slot}
  {caller : Activation} {rest : List Frame}

/-- What a call of a method ends in, where it does not stop: something is raised, or the method is entered that is
selected. -/
abbrev Calls (s : Context) (m : Machine) (kind : CallKind) (caller : ClassId) (resolved : ClassId) (method : Method)
    (operands : List Slot) (act : M Unit) : Prop :=
  After act m (fun _ m' => Raised s.raise m' ∨ Enters m kind caller resolved method operands m.frames m'.frames)
    fun _ => True

theorem calls_raiseText {text : Method} {raised : String → Throwing.Raise} :
    Calls s m kind caller.method.owner resolved method operands (methodText text >>= fun t => s.raise (raised t)) := by
  rw [Calls, methodText, after_bind_iff, after_bind_iff, after_classAt]
  exact after_raise _

theorem calls_raiseClass {c : ClassId} {raised : Class → Throwing.Raise} :
    Calls s m kind caller.method.owner resolved method operands (classAt c >>= fun k => s.raise (raised k)) := by
  rw [Calls, after_bind_iff, after_classAt]
  exact after_raise _

theorem calls_ifInstance {next : M Unit}
    (hnext : method.isStatic = false → Calls s m kind caller.method.owner resolved method operands next) :
    Calls s m kind caller.method.owner resolved method operands (ifInstance s method next) := by
  unfold ifInstance
  split
  · exact calls_raiseText
  · next hinstance => exact hnext (Bool.not_eq_true _ ▸ hinstance)

variable (hframes : m.frames = .active caller :: rest)
include hframes

theorem calls_withReceiver {owner : ClassId} {flags : Flags} {receiver : Option Ref} {next : Ref → M Unit}
    (hnext : ∀ r, receiver = some r → Calls s m kind caller.method.owner resolved method operands (next r)) :
    Calls s m kind caller.method.owner resolved method operands (withReceiver s owner flags receiver next) := by
  unfold withReceiver
  split
  · exact after_raise _
  · next r =>
    have hactivation : activation m = .ok caller m := by rw [activation, hframes]
    refine after_bind_of_eq hactivation ?_
    rw [after_bind_iff, after_get, after_bind_iff]
    refine (after_haltFor _ m).mono ?_ fun _ _ => trivial
    rintro _ m' ⟨rfl, -⟩
    split
    · exact hnext r rfl
    · exact after_raise _

variable (hstack : caller.stack.Carries operands)
include hstack

/-- The receiver is seen below the arguments of the method. -/
theorem calls_peekReceiver (hsuits : method.Suits) (hinstance : method.isStatic = false) {next : Option Ref → M Unit}
    (hnext : ∀ below v args, operands = below ++ v :: args → args.length + 1 = method.argSlots →
      Calls s m kind caller.method.owner resolved method operands (next v.ref?)) :
    Calls s m kind caller.method.owner resolved method operands (peekReceiver method >>= next) := by
  obtain ⟨type, -, hslots⟩ := hsuits.slots
  have hslots : method.argSlots = type.argSlots + 1 := by rw [hslots, hinstance]; rfl
  have hdepth : (method.argSlots : Int) - 1 = (type.argSlots : Nat) := by omega
  rw [Calls, peekReceiver, bind_assoc, after_bind_iff, hdepth]
  refine (after_peek hframes hstack _).mono (fun v m' h => ?_) fun _ => id
  obtain ⟨rfl, below, args, hsplit, hlength⟩ := h
  exact hnext below v args hsplit (by omega)

/-- A method that is selected is entered. -/
theorem calls_enterCalled (hm : m.Fit) (hmethod : method ∈ (m.classAt method.owner).methods)
    (hinstance : method.isStatic = false) {below args : List Slot} {receiver : Ref} {target : Method}
    (hsplit : operands = below ++ .ref receiver :: args) (hlength : args.length + 1 = method.argSlots)
    (hselected : m.selected kind caller.method.owner resolved (m.classOf receiver) method = some target) :
    Calls s m kind caller.method.owner resolved method operands (enterCalled s target) := by
  have hselects := hm.selects hmethod hinstance hselected
  have hslots := hselects.argSlots ((hm.owns _).methods _ hmethod).2 hinstance
  refine (after_enterCalled hframes hstack hselects.suits.locals).mono (fun _ m' h => ?_) fun _ => id
  refine h.imp_right fun ⟨hbody, lower, taken, htaken, hcount, hpasses⟩ => ?_
  refine ⟨receiver, target, below, args, hinstance, hsplit, hlength, hselected, hselects, hbody, fun htarget => ?_,
    fun htarget => ?_⟩
  · have hsame : below = lower ∧ .ref receiver :: args = taken := by
      refine List.append_inj' (hsplit.symm.trans htaken) ?_
      rw [htarget] at hslots
      rw [List.length_cons, hlength, hcount, ← hslots]
      rfl
    obtain ⟨rfl, rfl⟩ := hsame
    exact hpasses
  · have hsame : below ++ [.ref receiver] = lower ∧ args = taken := by
      refine List.append_inj' ((List.append_assoc ..).trans (hsplit.symm.trans htaken)) ?_
      rw [htarget, if_pos rfl] at hslots
      omega
    obtain ⟨rfl, rfl⟩ := hsame
    exact hpasses

theorem calls_special (hm : m.Fit) (hmethod : method ∈ (m.classAt method.owner).methods) :
    Calls s m .special caller.method.owner resolved method operands (callSpecial s resolved method) := by
  have hsuits := ((hm.owns _).methods _ hmethod).2
  refine calls_ifInstance fun hinstance => ?_
  split
  · exact calls_raiseClass
  · refine calls_peekReceiver hframes hstack hsuits hinstance fun below v args hsplit hlength => ?_
    refine calls_withReceiver hframes fun r hr => ?_
    obtain rfl : v = .ref r := Slot.eq_ref_of_ref? hr
    have hactivation : activation m = .ok caller m := by rw [activation, hframes]
    refine after_bind_of_eq hactivation ?_
    rw [after_bind_iff, after_get]
    split
    · next hsuper =>
      rw [after_bind_iff]
      cases hdirect : (m.classAt caller.method.owner).super with
      | none => trivial
      | some super =>
        change After (pure super) m _ _
        rw [after_pure]
        split
        · next target htarget =>
          refine calls_enterCalled hframes hstack hm hmethod hinstance hsplit hlength ?_
          rw [Machine.selected, if_pos hsuper, hdirect]
          exact htarget
        · exact calls_raiseText
    · next hplain =>
      refine calls_enterCalled hframes hstack hm hmethod hinstance hsplit hlength ?_
      rw [Machine.selected, if_neg hplain]

theorem calls_virtual (hm : m.Fit) (hmethod : method ∈ (m.classAt method.owner).methods) :
    Calls s m .virtual caller.method.owner resolved method operands (callVirtual s method) := by
  have hsuits := ((hm.owns _).methods _ hmethod).2
  refine calls_ifInstance fun hinstance => ?_
  refine calls_peekReceiver hframes hstack hsuits hinstance fun below v args hsplit hlength => ?_
  refine calls_withReceiver hframes fun r hr => ?_
  obtain rfl : v = .ref r := Slot.eq_ref_of_ref? hr
  split
  · next hprivate =>
    refine calls_enterCalled hframes hstack hm hmethod hinstance hsplit hlength ?_
    rw [Machine.selected, if_pos hprivate]
  · next hpublic =>
    rw [Calls, after_bind_iff, after_get]
    unfold enterSelected
    dsimp only
    split
    · next target htarget =>
      refine calls_enterCalled hframes hstack hm hmethod hinstance hsplit hlength ?_
      rw [Machine.selected, if_neg hpublic, htarget]
    · exact calls_raiseClass

theorem calls_interface (hm : m.Fit) (hmethod : method ∈ (m.classAt method.owner).methods) :
    Calls s m .interface caller.method.owner resolved method operands (callInterface s resolved method) := by
  have hsuits := ((hm.owns _).methods _ hmethod).2
  refine calls_ifInstance fun hinstance => ?_
  refine calls_peekReceiver hframes hstack hsuits hinstance fun below v args hsplit hlength => ?_
  split
  · exact after_raise _
  · next r hr =>
    obtain rfl : v = .ref r := Slot.eq_ref_of_ref? hr
    rw [Calls, after_bind_iff, after_get]
    dsimp only
    rw [after_bind_iff]
    refine (after_assignable _ _ m).mono ?_ fun _ _ => trivial
    rintro fits m ⟨rfl, -, rfl⟩
    split
    · exact after_raise _
    · split
      · next hprivate =>
        refine calls_enterCalled hframes hstack hm hmethod hinstance hsplit hlength ?_
        rw [Machine.selected, if_pos hprivate]
      · next hprivate =>
        split
        · next target htarget =>
          split
          · next hpublic =>
            refine calls_enterCalled hframes hstack hm hmethod hinstance hsplit hlength ?_
            rw [Machine.selected, if_neg hprivate, htarget, Option.filter_some, if_pos hpublic]
          · exact calls_raiseText
        · exact calls_raiseClass

end calls

end Execute

/-- A call goes on with the method that its operand means. -/
theorem Execute.after_call {m : Machine} (h : m.Sound) (level : Nat) {raise : Throwing.Raise → M Unit} {kind : CallKind}
    (hkind : kind ≠ .static) (index : Nat) {caller : Activation} {rest : List Frame} {operands : List Slot}
    (hframes : m.frames = .active caller :: rest) (hstack : caller.stack.Carries operands) :
    After (call ⟨Interpreter.services Natives.standard level, raise⟩ kind index) m
      (fun _ m' => Raised raise m' ∨ ∃ m₁ resolved method,
        (Resolution.methodEntry (Interpreter.services Natives.standard level) caller.method.owner index).run m =
          .ok (.ok (resolved, method)) m₁ ∧
        Enters m₁ kind caller.method.owner resolved method operands m.frames m'.frames) fun _ => True := by
  unfold call Context.orThrow
  have hactivation : activation m = .ok caller m := by rw [activation, hframes]
  refine after_bind_of_eq hactivation ?_
  have hends : Attempt.Ends (Resolution.methodEntry (Interpreter.services _ level) caller.method.owner index) m _ _ :=
    Resolution.ends_methodEntry (Interpreter.growing_services level).2 h
  have houtcome := hends.outcome
  have hkept := (Interpreter.serving_standard level).toHosted.methodEntry caller.method.owner index m
  unfold After at hkept
  rw [after_bind_iff]
  unfold After
  cases hrun : (Resolution.methodEntry (Interpreter.services _ level) caller.method.owner index).run m with
  | error e m₁ => trivial
  | ok r m₁ =>
    rw [hrun] at houtcome hkept
    cases r with
    | error f => exact after_raise _
    | ok found =>
      obtain ⟨resolved, method⟩ := found
      obtain ⟨hgrows, _, _, _, _, -, -, hmeans⟩ := houtcome
      have hm := hgrows.sound.fit
      have hframes₁ := hkept.frames.trans hframes
      have hcalls : After (match kind with
          | .static => callStatic ⟨Interpreter.services Natives.standard level, raise⟩ method
          | .special => callSpecial ⟨Interpreter.services Natives.standard level, raise⟩ resolved method
          | .virtual => callVirtual ⟨Interpreter.services Natives.standard level, raise⟩ method
          | .interface => callInterface ⟨Interpreter.services Natives.standard level, raise⟩ resolved method) m₁
          (fun _ m' => Raised raise m' ∨
            Enters m₁ kind caller.method.owner resolved method operands m₁.frames m'.frames) fun _ => True := by
        cases kind with
        | static => exact absurd rfl hkind
        | special => exact calls_special hframes₁ hstack hm hmeans.declared
        | «virtual» => exact calls_virtual hframes₁ hstack hm hmeans.declared
        | interface => exact calls_interface hframes₁ hstack hm hmeans.declared
      refine After.mono hcalls (fun _ m' hm' => hm'.imp_right fun henters => ?_) fun _ => id
      rw [hkept.frames] at henters
      exact ⟨m₁, resolved, method, rfl, henters⟩

namespace Interpreter

/-- A call instruction that raises nothing enters a method of the name and the descriptor of the one that its operand
means. If it is no static one, it takes the slots of that one off the stack of its caller: the receiver is its first
local variable, and the arguments follow. -/
theorem call_enters {m : Machine} (h : Attained m) (level : Nat) {kind : CallKind} (hkind : kind ≠ .static)
    (index : Nat) {caller : Activation} {rest : List Frame} {operands : List Slot}
    (hframes : m.frames = .active caller :: rest) (hstack : caller.stack.Carries operands)
    (hraises : ¬ Raises Natives.standard (services Natives.standard level) (.call kind index) m) :
    After (execute Natives.standard (services Natives.standard level) (.call kind index)) m
      (fun _ m' => ∃ m₁ resolved method,
        (Resolution.methodEntry (services Natives.standard level) caller.method.owner index).run m =
          .ok (.ok (resolved, method)) m₁ ∧
        Enters m₁ kind caller.method.owner resolved method operands m.frames m'.frames) fun _ => True := by
  obtain ⟨result, hresult⟩ := not_not.1 hraises
  -- what becomes of exceptions makes no difference, so they may as well stop the machine
  have hcall : After (call ⟨services Natives.standard level, fun _ => throw .stuck⟩ kind index) m _ _ :=
    after_call h.sound level hkind index hframes hstack
  unfold After at hcall ⊢
  have hstops : call ⟨services Natives.standard level, fun _ => throw .stuck⟩ kind index m = result := hresult _
  have hgoes : execute Natives.standard (services Natives.standard level) (.call kind index) m = result := hresult _
  rw [hstops] at hcall
  rw [hgoes]
  cases result with
  | error e m' => trivial
  | ok _ m' =>
    refine hcall.resolve_left ?_
    rintro ⟨r, c, hraised⟩
    nomatch hraised

end Interpreter

namespace Samples

/-- A method that returns a number. -/
def constantly (flags : UInt16) (name : String) (number : Opcode) : MethodSource :=
  { flags, name, desc := "()I", maxStack := some 1, body := some [.plain number, .plain .ireturn] }

/-- A class with two methods of its objects. -/
def parent : ClassSource :=
  { name := "Parent", methods := [constantly 0 "f" .iconst_1, constantly 0 "g" .iconst_1] }

/-- A class that overrides one of them, but has a static method for the other. Its initializer calls both. -/
def child : ClassSource := {
  name := "Child", super := "Parent"
  methods := [{
    flags := 8, name := Method.clinitName, desc := "()V", maxStack := some 2
    body := some [
      .type .new "Child", .plain .dup, .invoke .invokevirtual "Parent" "g" "()I", .plain .pop,
      .invoke .invokevirtual "Parent" "f" "()I", .plain .vreturn] },
    constantly 8 "f" .iconst_2, constantly 0 "g" .iconst_2] }

/-- The machine in which the initializer ran. -/
def related : Machine := asked [root, parent, child] [.load 0 "Child", .initClass (sample 1)]

/-- The initializer, before it calls a method of its object. -/
def sending : Activation := {
  method := (related.classAt (sample 1)).methods.head!
  locals := #[]
  stack := ⟨#[.ref ⟨0⟩, .null], 1⟩ }

/-- The machine in which the initializer calls the method. -/
def calling : Machine := { related with current := 0, frames := [.active sending] }

/-- What the frames of a machine run, with their local variables and operands. -/
def summary (m : Machine) : List (Option (String × Bool × List Slot × List Slot)) :=
  m.frames.map fun f => f.activation?.map fun a =>
    (a.method.name, a.method.isStatic, a.locals.toList, a.stack.toList)

/-- The frames after a call of a method of the object, if it raises nothing. -/
def sent (index : Nat) : List (Option (String × Bool × List Slot × List Slot)) :=
  match Interpreter.execute Natives.standard ⟨Interpreter.services Natives.standard 12, fun _ => throw .stuck⟩
      (.call .virtual index) calling with
  | .ok _ m => summary m
  | .error _ _ => []

/-- What the operand of a call means: the slots that it takes, and what is selected for the object. -/
def meant (index : Nat) : Option (Nat × Option (String × ClassId × Bool × Nat)) :=
  match (Resolution.methodEntry (Interpreter.services Natives.standard 12) sending.method.owner index).run calling with
  | .ok (.ok (resolved, method)) m =>
    some (method.argSlots, (m.selected .virtual sending.method.owner resolved (m.classOf ⟨0⟩) method).map fun target =>
      (target.name, target.owner, target.isStatic, target.maxLocals))
  | _ => none

end Samples

open Samples in
/-- The initializer calls the method by which the class of its object overrides one of its superclass. -/
theorem Interpreter.call_enters_override :
    ∃ m' callee stack,
      execute Natives.standard (services Natives.standard 12) (.call .virtual 8) calling = .ok () m' ∧
      m'.frames = [.active callee, .active { sending with stack }] ∧ stack.Carries [] ∧ callee.method.name = "g" ∧
      callee.method.owner = sample 1 ∧ callee.locals.toList = [.ref ⟨0⟩] := by
  have hevents : sent 8 ≠ [] ∧ meant 8 = some (1, some ("g", sample 1, false, 1)) := by decide +kernel
  obtain ⟨hsent, hmeant⟩ := hevents
  obtain ⟨m', hquiet⟩ : ∃ m', execute Natives.standard ⟨services Natives.standard 12, fun _ => throw .stuck⟩
      (.call .virtual 8) calling = .ok () m' := by
    unfold sent at hsent
    split at hsent
    · next hok => exact ⟨_, hok⟩
    · exact absurd rfl hsent
  have hraises := not_raises_of_ok (i := .call .virtual 8) nofun hquiet
  have hattained : Attained calling := .running 0 _ (attained_asked [root, parent, child] _)
  have hstack : sending.stack.Carries [.ref ⟨0⟩] := ⟨by decide, rfl⟩
  have hkind : CallKind.virtual ≠ .static := nofun
  have henters := call_enters hattained 12 hkind 8 rfl hstack hraises
  obtain ⟨result, hresult⟩ := not_not.1 hraises
  have hreal : execute Natives.standard (services Natives.standard 12) (.call .virtual 8) calling = .ok () m' :=
    (hresult _).trans ((hresult _).symm.trans hquiet)
  unfold After at henters
  rw [hreal] at henters
  obtain ⟨m₁, resolved, method, hrun, r, target, below, args, -, hsplit, hlength, henters⟩ := henters
  obtain ⟨hselected, -, -, hpasses, -⟩ := henters
  unfold meant at hmeant
  rw [hrun] at hmeant
  obtain ⟨hslots, hmeant⟩ := Prod.mk.inj (Option.some_inj.1 hmeant)
  obtain rfl : args = [] := List.eq_nil_of_length_eq_zero (by omega)
  have hnothing : [] ++ [Slot.ref ⟨0⟩] = below ++ [.ref r] := hsplit
  obtain ⟨rfl, hreceiver⟩ := List.append_inj' hnothing rfl
  cases hreceiver
  rw [hselected] at hmeant
  have htarget := Option.some_inj.1 hmeant
  simp only [Prod.mk.injEq] at htarget
  obtain ⟨hname, howner, hinstance, hlocals⟩ := htarget
  obtain ⟨caller, callee, stack, rest, hbefore, -, hcarries, hmethod, hfilled, hafter⟩ := hpasses hinstance
  cases hbefore
  refine ⟨m', callee, stack, hreal, hafter, hcarries, ?_, ?_, ?_⟩
  · rw [hmethod, hname]
  · rw [hmethod, howner]
  · rw [hfilled, hlocals]
    rfl

open Samples in
/-- A static method is selected for the other: the object stays on the stack of the initializer, and the method does not
get it. -/
theorem static_method_entered :
    Attained calling ∧ sent 11 = [some ("f", true, [], []), some (Method.clinitName, true, [], [.ref ⟨0⟩])] :=
  ⟨.running 0 _ (attained_asked [root, parent, child] _), by decide +kernel⟩

end JavaMachine
