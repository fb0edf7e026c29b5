import JavaMachine.Machine.Native.Table
import JavaMachine.Proofs.Raising.Preparations

/-!
Every instruction raises an exception last. Main result: `raised_last`.
-/

namespace JavaMachine

open M Throwing

variable {s : Services}

/-! ## Actions that raise last -/

theorem RaisesLast.mono {P P' : Raise → Machine → Prop} {act : (Raise → M Unit) → M Unit} {m : Machine}
    (h : RaisesLast P act m) (hP : ∀ r c, P r c → P' r c) : RaisesLast P' act m := by
  rcases h with ⟨result, hresult⟩ | ⟨r, c, hc, hraised⟩
  · exact .silent result hresult
  · exact .raised r c (hP r c hc) hraised

/-- What comes before an action that raises last may not depend on what becomes of exceptions. -/
theorem RaisesLast.bind {α : Type} {P : Raise → Machine → Prop} {pre : M α} {next : α → (Raise → M Unit) → M Unit}
    {m : Machine} (h : After pre m (fun a b => RaisesLast P (next a) b) fun _ => True) :
    RaisesLast P (fun raise => pre >>= fun a => next a raise) m := by
  unfold After at h
  cases hr : pre m with
  | error e b =>
    refine .silent (.error e b) fun raise => ?_
    rw [bind_apply, hr]
  | ok a b =>
    rw [hr] at h
    rcases h with ⟨result, hresult⟩ | ⟨r, c, hc, hraised⟩
    · refine .silent result fun raise => ?_
      rw [bind_apply, hr]
      exact hresult raise
    · refine .raised r c hc fun raise => ?_
      rw [bind_apply, hr]
      exact hraised raise

/-- An action raises last in every machine, after preparations. -/
abbrev Last (s : Services) (act : (Raise → M Unit) → M Unit) : Prop := ∀ m, RaisesLast (PreparesFor s m) act m

namespace Last

variable {α : Type} {act act' : (Raise → M Unit) → M Unit}

theorem silent (act : M Unit) : Last s fun _ => act := fun m => .silent (act m) fun _ => rfl

theorem raised (r : Raise) : Last s fun raise => raise r := fun m => .raised r m (.inl (.refl m)) fun _ => rfl

theorem bind {pre : M α} {next : α → (Raise → M Unit) → M Unit} (hpre : Readying s pre) (hnext : ∀ a, Last s (next a)) :
    Last s fun raise => pre >>= fun a => next a raise := by
  intro m
  exact .bind ((hpre m).mono (fun a b hb => (hnext a b).mono fun _ _ => .after hb) fun _ => id)

theorem ite {p : Prop} [Decidable p] (h : Last s act) (h' : Last s act') :
    Last s fun raise => if p then act raise else act' raise := by
  by_cases hp : p
  · simpa only [if_pos hp] using h
  · simpa only [if_neg hp] using h'

theorem throwNew (name message : String) : Last s fun raise => Context.throwNew ⟨s, raise⟩ name message := raised _

theorem orThrow {act : Attempt α} {next : α → (Raise → M Unit) → M Unit} (hact : act.Readying s)
    (hnext : ∀ a, Last s (next a)) : Last s fun raise => Context.orThrow ⟨s, raise⟩ act fun a => next a raise := by
  unfold Context.orThrow
  refine bind hact fun r => ?_
  cases r with
  | ok a => exact hnext a
  | error f => exact raised _

end Last

namespace Execute

theorem last_int {op : IntegerOp} : Last s fun raise => int ⟨s, raise⟩ op := by
  unfold int
  refine .bind readying_popInt fun b => .bind readying_popInt fun a => ?_
  cases intResult op a b with
  | some r => exact .silent _
  | none => exact .throwNew _ _

theorem last_long {op : IntegerOp} : Last s fun raise => long ⟨s, raise⟩ op := by
  unfold long
  refine .bind readying_popLong fun b => .bind readying_popLong fun a => ?_
  cases longResult op a b with
  | some r => exact .silent _
  | none => exact .throwNew _ _

/-! ### Arrays -/

theorem readying_arrayLength {r : Ref} : Readying s (arrayLength r) := by
  unfold arrayLength
  refine readying_bind readying_objectAt fun o => ?_
  split
  · exact readying_pure
  · exact readying_bind readying_classOf fun _ => readying_throw

/-- An access goes on with a reference and an index that fit. -/
theorem last_withElement {next : Ref → Nat → (Raise → M Unit) → M Unit} (hnext : ∀ r i, Last s (next r i)) :
    Last s fun raise => withElement ⟨s, raise⟩ fun r i => next r i raise := by
  unfold withElement
  refine .bind readying_popInt fun i => .bind readying_popRef fun array => ?_
  unfold checkIndex
  cases array with
  | none =>
    simp only [bind_assoc, pure_bind, bind_pure_unit]
    exact .throwNew _ _
  | some r =>
    simp only [bind_assoc]
    refine .bind readying_arrayLength fun n => ?_
    by_cases hout : (decide (i < 0) || decide (n ≤ i)) = true
    · simp only [if_pos hout, bind_assoc, pure_bind, bind_pure_unit]
      exact .throwNew _ _
    · simp only [if_neg hout, pure_bind]
      exact hnext r _

theorem last_arrayLoad {kind : ElementKind} : Last s fun raise => arrayLoad ⟨s, raise⟩ kind :=
  last_withElement fun _ _ => .silent _

theorem last_storeRef {r : Ref} {i : Nat} {v : Slot} : Last s fun raise => storeRef ⟨s, raise⟩ r i v := by
  unfold storeRef
  cases v.ref? with
  | none => exact .silent _
  | some value =>
    refine .bind readying_classOf fun k => .bind readying_some! fun component => .bind readying_present fun o => ?_
    exact .bind readying_assignable fun fits => .ite (.silent _) (.bind readying_classAt fun _ => .throwNew _ _)

theorem last_arrayStore {kind : ElementKind} : Last s fun raise => arrayStore ⟨s, raise⟩ kind := by
  unfold arrayStore
  refine .ite (.bind readying_pop fun hi => ?_) (.bind readying_pure fun hi => ?_)
  all_goals
    refine .bind readying_pop fun lo => last_withElement fun r i => ?_
    cases kind with
    | ref => exact last_storeRef
    | _ => exact .silent _

/-! ### Resolution -/

end Execute

namespace Resolution

theorem readying_entry {c : ClassId} {index : Nat} : Readying s (entry c index) := by
  unfold entry
  refine readying_bind readying_classAt fun k => ?_
  split
  · exact readying_throw
  · exact readying_pure

theorem readying_wrongKind {α : Type} {c : ClassId} {index : Nat} {e : PoolEntry} {wanted : String} :
    Readying s (wrongKind c index e wanted : M α) := readying_bind readying_classAt fun _ => readying_throw

theorem readying_remember {c : ClassId} {index : Nat} {e : PoolEntry} : Readying s (remember c index e) :=
  readying_modify fun m => .of_class .same m.journal fun _ => ⟨_, _, rfl⟩

theorem readying_loadFor {holder : ClassId} {name : String} : (loadFor s holder name).Readying s := by
  unfold loadFor
  refine Attempt.readying_bind (Attempt.readying_lift readying_classAt) fun k => ?_
  refine Attempt.readying_bind Attempt.readying_load fun c => ?_
  refine Attempt.readying_bind (Attempt.readying_lift readying_get) fun m => ?_
  refine Attempt.readying_bind (Attempt.readying_lift readying_haltFor) fun _ => ?_
  split
  · exact Attempt.readying_pure
  · exact Attempt.readying_throw

theorem readying_classEntry {holder : ClassId} {index : Nat} : (classEntry s holder index).Readying s := by
  unfold classEntry
  refine Attempt.readying_bind (Attempt.readying_lift readying_entry) fun e => ?_
  split
  · exact Attempt.readying_pure
  · refine Attempt.readying_bind readying_loadFor fun c => ?_
    refine Attempt.readying_bind (Attempt.readying_lift readying_remember) fun _ => ?_
    exact Attempt.readying_pure
  · exact Attempt.readying_lift readying_wrongKind

theorem readying_ownerOf {holder : ClassId} {name : String} {owner : Option ClassId} :
    (ownerOf s holder name owner).Readying s := by
  cases owner with
  | some c => exact Attempt.readying_pure
  | none => exact readying_loadFor

theorem readying_fieldEntry {holder : ClassId} {index : Nat} : (fieldEntry s holder index).Readying s := by
  unfold fieldEntry
  refine Attempt.readying_bind (Attempt.readying_lift readying_entry) fun e => ?_
  split
  · exact Attempt.readying_pure
  · refine Attempt.readying_bind readying_ownerOf fun c => ?_
    refine Attempt.readying_bind (Attempt.readying_lift readying_remember) fun _ => ?_
    refine Attempt.readying_bind (Attempt.readying_lift readying_get) fun m => ?_
    split
    · exact Attempt.readying_throw
    · refine Attempt.readying_bind Attempt.readying_failIf fun _ => ?_
      refine Attempt.readying_bind (Attempt.readying_lift readying_remember) fun _ => ?_
      exact Attempt.readying_pure
  · exact Attempt.readying_lift readying_wrongKind

theorem readying_methodEntry {holder : ClassId} {index : Nat} : (methodEntry s holder index).Readying s := by
  unfold methodEntry
  refine Attempt.readying_bind (Attempt.readying_lift readying_entry) fun e => ?_
  split
  · exact Attempt.readying_pure
  · refine Attempt.readying_bind readying_ownerOf fun c => ?_
    refine Attempt.readying_bind (Attempt.readying_lift readying_remember) fun _ => ?_
    refine Attempt.readying_bind (Attempt.readying_lift readying_get) fun m => ?_
    split
    · exact Attempt.readying_throw
    · have hremember {e : PoolEntry} {v : ClassId × Method} : Attempt.Readying s (do
          remember holder index e
          return v) :=
        Attempt.readying_bind (Attempt.readying_lift readying_remember) fun _ => Attempt.readying_pure
      split
      · refine Attempt.readying_bind (Attempt.readying_lift readying_methodText) fun text => ?_
        exact Attempt.readying_bind Attempt.readying_throw fun _ => hremember
      · exact hremember
  · exact Attempt.readying_lift readying_wrongKind

end Resolution

namespace Execute

/-! ### Fields -/

theorem last_withField {index : Nat} {static : Bool} {next : Field → (Raise → M Unit) → M Unit}
    (hnext : ∀ f, Last s (next f)) :
    Last s fun raise => withField ⟨s, raise⟩ index static fun f => next f raise := by
  unfold withField
  refine .bind readying_activation fun a => .orThrow Resolution.readying_fieldEntry fun f => ?_
  exact .ite (hnext f) (.bind readying_classAt fun _ => .throwNew _ _)

theorem last_ifWritable {f : Field} {initializer : String} {next : (Raise → M Unit) → M Unit} (hnext : Last s next) :
    Last s fun raise => ifWritable ⟨s, raise⟩ f initializer (next raise) := by
  unfold ifWritable
  refine .bind readying_activation fun a => .ite hnext ?_
  exact .bind readying_classAt fun _ => .bind readying_classAt fun _ => .throwNew _ _

theorem last_withReceiver {owner : ClassId} {flags : Flags} {receiver : Option Ref}
    {next : Ref → (Raise → M Unit) → M Unit} (hnext : ∀ r, Last s (next r)) :
    Last s fun raise => withReceiver ⟨s, raise⟩ owner flags receiver fun r => next r raise := by
  unfold withReceiver
  cases receiver with
  | none => exact .throwNew _ _
  | some r =>
    refine .bind readying_activation fun a => .bind readying_get fun m => .bind readying_haltFor fun _ => ?_
    exact .ite (hnext r) (.throwNew _ _)

theorem last_getField {index : Nat} : Last s fun raise => getField ⟨s, raise⟩ index := by
  unfold getField
  refine last_withField fun f => .bind readying_popRef fun receiver => ?_
  exact last_withReceiver fun _ => .silent _

theorem last_putField {index : Nat} : Last s fun raise => putField ⟨s, raise⟩ index := by
  unfold putField
  refine last_withField fun f => last_ifWritable (.ite (.bind readying_pop fun hi => ?_) (.bind readying_pure fun hi => ?_))
  all_goals
    refine .bind readying_pop fun lo => .bind readying_popRef fun receiver => ?_
    exact last_withReceiver fun _ => .silent _

end Execute

/-! ## Initialization -/

theorem Spared.enter {F : List Frame → List Frame → Prop} (hF : ∀ frames, F frames frames) (m : Machine) (c : ClassId)
    (state : ClassState) (e : Event) : Spared F m (m.enter c state e) :=
  .of_class hF _ fun _ => ⟨_, _, rfl⟩

namespace Initialization

theorem readying_awaitState {c : ClassId} : Readying s (awaitState c) := by
  unfold awaitState
  refine readying_bind readying_get fun m => ?_
  split
  · split
    · exact readying_pure
    · exact readying_throw
  · exact readying_pure

theorem readying_failedBefore {c : ClassId} : Readying s (failedBefore c) :=
  readying_bind readying_classAt fun _ => readying_pure

theorem readying_chain {n : Nat} {last : Option ClassId} : Readying s (chain n last) := by
  induction n generalizing last with
  | zero => exact readying_pure
  | succ n ih =>
    cases last with
    | none => exact readying_pure
    | some c =>
      unfold chain
      refine readying_bind readying_awaitState fun state => ?_
      split
      · refine readying_bind readying_classAt fun k => ?_
        split
        · exact readying_pure
        · exact readying_bind ih fun _ => readying_pure
      · exact readying_pure

theorem readying_setState {c : ClassId} {state : ClassState} : Readying s (setState c state) :=
  readying_modify fun m => .enter .same m c state _

theorem readying_claim {c : ClassId} : Readying s (claim c) := by
  unfold claim
  refine readying_bind readying_classAt fun k => ?_
  split
  · exact readying_bind readying_get fun _ => readying_bind readying_setState fun _ => readying_pure
  · exact readying_pure

theorem readying_giveBack {classes : List ClassId} : Readying s (classes.forM fun k => finishInit k .linked) := by
  induction classes with
  | nil => exact readying_pure
  | cons c rest ih => exact readying_bind readying_setState fun _ => ih

theorem readying_claimAll {claimed classes : List ClassId} : Readying s (claimAll claimed classes) := by
  induction classes generalizing claimed with
  | nil => exact readying_pure
  | cons c rest ih =>
    unfold claimAll
    refine readying_bind readying_claim fun b => ?_
    split
    · exact ih
    · exact readying_bind readying_giveBack fun _ => readying_pure

theorem after_initializer_isClinit {c : ClassId} (m : Machine) :
    After (initializer c) m (fun method b => b = m ∧ method.isClinit) fun _ => True := by
  simp only [initializer, after_bind_iff, after_classAt]
  split
  · next method hfound =>
    split
    · refine ⟨rfl, ?_⟩
      have hname := List.find?_some hfound
      rw [Bool.and_eq_true] at hname
      exact hname.1
    · exact ⟨rfl, rfl⟩
  · exact ⟨rfl, rfl⟩

theorem spared_giveBack (classes : List ClassId) (m : Machine) :
    After (classes.forM fun k => finishInit k .linked) m (fun _ => Spared Covered m) fun _ => True := by
  induction classes generalizing m with
  | nil => exact .of_frames (.refl _)
  | cons c rest ih =>
    refine After.bind (P := fun _ => Spared Covered m) ?_ fun _ b hb => ?_
    · exact .enter .refl m c .linked _
    · exact (ih b).mono (fun _ _ => hb.trans .trans) fun _ => id

/-- Initializers come on the frame stack until one does not fit, which is all that is raised. -/
theorem raises_pushInitializers (classes : List ClassId) (m : Machine) :
    RaisesLast (fun r c => r = .new Throwables.stackOverflow "" ∧ Spared Covered m c)
      (fun raise => pushInitializers ⟨s, raise⟩ classes) m := by
  induction classes generalizing m with
  | nil => exact .silent _ fun _ => rfl
  | cons c rest ih =>
    unfold pushInitializers
    refine .bind ((after_initializer_isClinit m).mono ?_ fun _ => id)
    rintro method start ⟨rfl, hclinit⟩
    refine .bind (after_pushFrame (fun _ => ?_) ?_ trivial)
    · refine .bind ((ih _).mono fun r b hb => ?_)
      have hpushed : Covered start.frames (Frame.ofMethod method :: start.frames) :=
        ⟨[Frame.ofMethod method], fun f hf => ⟨method, hclinit, List.mem_singleton.1 hf⟩, rfl⟩
      exact hb.imp_right fun hb => (Spared.of_frames hpushed).trans .trans ((Spared.of_journal .refl _ _).trans .trans hb)
    · refine .bind ((spared_giveBack (c :: rest) _).mono (fun _ b hb => ?_) fun _ => id)
      exact .raised _ b ⟨rfl, hb⟩ fun _ => rfl

theorem last_schedule (c : ClassId) : Last s fun raise => schedule ⟨s, raise⟩ c := by
  unfold schedule
  refine .bind readying_get fun m => .bind readying_chain fun (classes, last) => ?_
  dsimp only
  cases last.filter fun k => (m.classAt k).state == .erroneous with
  | some k => exact .bind readying_failedBefore fun _ => .throwNew _ _
  | none =>
    refine .bind readying_claimAll fun b => .ite ?_ (.silent _)
    exact fun m => (raises_pushInitializers classes m).mono fun r c hc => .inr (hc.imp_right fun hc => ⟨m, .refl m, hc⟩)

theorem readying_putBack : Readying s (updateActivation fun a => { a with nextPc := a.pc }) := by
  refine readying_modify fun m => ?_
  dsimp only
  split
  · next a rest hm =>
    refine .of_frames ?_
    rw [hm]
    exact .top rest (.active rfl rfl rfl (.inr rfl) List.prefix_rfl)
  · exact .of_frames (.same _)

/-- An instruction goes on with a class that may be used. -/
theorem last_ensure (c : ClassId) {next : (Raise → M Unit) → M Unit} (hnext : Last s next) :
    Last s fun raise => (do if ← ensure ⟨s, raise⟩ c then next raise) := by
  unfold ensure
  simp only [bind_assoc]
  refine .bind readying_awaitState fun state => ?_
  cases state with
  | initialized => simpa only [pure_bind, if_true] using hnext
  | initializing t => simpa only [pure_bind, if_true] using hnext
  | erroneous =>
    simp only [bind_assoc, pure_bind, Bool.false_eq_true, if_false, bind_pure_unit]
    exact .bind readying_failedBefore fun _ => .throwNew _ _
  | unlinked | linked =>
    simp only [bind_assoc, pure_bind, Bool.false_eq_true, if_false, bind_pure_unit]
    exact .bind readying_putBack fun _ => last_schedule c

end Initialization

namespace Execute

theorem last_getStatic {index : Nat} : Last s fun raise => getStatic ⟨s, raise⟩ index := by
  unfold getStatic
  exact last_withField fun f => Initialization.last_ensure _ (.silent _)

theorem last_putStatic {index : Nat} : Last s fun raise => putStatic ⟨s, raise⟩ index := by
  unfold putStatic
  exact last_withField fun f => last_ifWritable (Initialization.last_ensure _ (.silent _))

/-! ### Objects -/

theorem readying_holder : Readying s holder := readying_bind readying_activation fun _ => readying_pure

theorem last_withClass {index : Nat} {next : ClassId → (Raise → M Unit) → M Unit} (hnext : ∀ c, Last s (next c)) :
    Last s fun raise => withClass ⟨s, raise⟩ index fun c => next c raise := by
  unfold withClass
  exact .bind readying_holder fun c => .orThrow Resolution.readying_classEntry hnext

theorem last_constant {index : Nat} : Last s fun raise => constant ⟨s, raise⟩ index := by
  unfold constant
  refine .bind readying_holder fun c => .bind Resolution.readying_entry fun e => ?_
  cases e with
  | «class» name resolved => exact last_withClass fun _ => .silent _
  | unsupported tag => exact .throwNew _ _
  | _ => exact .silent _

theorem last_new {index : Nat} : Last s fun raise => new ⟨s, raise⟩ index := by
  unfold new
  refine last_withClass fun c => .bind readying_classAt fun k => .ite (.throwNew _ _) ?_
  exact Initialization.last_ensure _ (.silent _)

theorem last_newNumberArray {code : UInt8} : Last s fun raise => newNumberArray ⟨s, raise⟩ code := by
  unfold newNumberArray
  cases arrayTypeDescriptor? code with
  | none => exact .silent _
  | some name =>
    refine .bind readying_popInt fun n => .ite (.throwNew _ _) ?_
    exact .orThrow Attempt.readying_load fun _ => .silent _

theorem readying_arrayClassOf {c : ClassId} : (Linking.arrayClassOf s c).Readying s :=
  Attempt.readying_bind (Attempt.readying_lift readying_classAt) fun _ =>
    Attempt.readying_bind (Attempt.readying_lift readying_isArrayClass) fun _ => Attempt.readying_load

theorem last_newRefArray {index : Nat} : Last s fun raise => newRefArray ⟨s, raise⟩ index := by
  unfold newRefArray
  refine .bind readying_popInt fun n => last_withClass fun c => .ite (.throwNew _ _) ?_
  exact .orThrow readying_arrayClassOf fun _ => .silent _

theorem readying_popCounts {n : Nat} {counts : List Int32} : Readying s (popCounts n counts) := by
  induction n generalizing counts with
  | zero => exact readying_pure
  | succ n ih => exact readying_bind readying_popInt fun _ => ih

theorem last_newArrays {index dimensions : Nat} : Last s fun raise => newArrays ⟨s, raise⟩ index dimensions := by
  unfold newArrays
  refine .bind readying_popCounts fun counts => last_withClass fun c => ?_
  cases counts.find? (· < 0) with
  | some n => exact .throwNew _ _
  | none => exact .silent _

theorem last_pushLength : Last s fun raise => pushLength ⟨s, raise⟩ := by
  unfold pushLength
  refine .bind readying_popRef fun r => ?_
  cases r with
  | none => exact .throwNew _ _
  | some r => exact .silent _

theorem last_checkCast {index : Nat} : Last s fun raise => checkCast ⟨s, raise⟩ index := by
  unfold checkCast
  refine .bind (readying_onStack draws_peek) fun top => last_withClass fun c => ?_
  dsimp only
  cases top.ref? with
  | none => exact .silent _
  | some r =>
    refine .bind readying_isInstance fun b => .ite ?_ (.silent _)
    exact .bind readying_classOf fun _ => .bind readying_classAt fun _ => .throwNew _ _

theorem last_instanceOf {index : Nat} : Last s fun raise => instanceOf ⟨s, raise⟩ index := by
  unfold instanceOf
  refine .bind readying_popRef fun object => last_withClass fun c => ?_
  cases object with
  | none => exact .silent _
  | some r => exact .silent _

theorem last_monitor : Last s fun raise => monitor ⟨s, raise⟩ := by
  unfold monitor
  exact .bind readying_popRef fun r => .ite (.throwNew _ _) (.silent _)

/-! ### Calls -/

theorem last_enter {method : Method} : Last s fun raise => enter ⟨s, raise⟩ method := by
  unfold enter
  refine .ite (.bind readying_classAt fun k => .throwNew _ _) fun m => ?_
  refine .bind (after_pushFrame (fun _ => ?_) ?_ trivial)
  · exact .silent _ fun _ => rfl
  · exact .raised _ m (.inl (.refl m)) fun _ => rfl

theorem last_enterCalled {method : Method} : Last s fun raise => enterCalled ⟨s, raise⟩ method := by
  unfold enterCalled
  exact .bind readying_recordCall fun _ => last_enter

theorem last_ifInstance {method : Method} {next : (Raise → M Unit) → M Unit} (hnext : Last s next) :
    Last s fun raise => ifInstance ⟨s, raise⟩ method (next raise) := by
  unfold ifInstance
  exact .ite (.bind readying_methodText fun _ => .throwNew _ _) hnext

theorem readying_peekReceiver {method : Method} : Readying s (peekReceiver method) :=
  readying_bind (readying_onStack draws_peek) fun _ => readying_pure

theorem last_enterSelected {selected : Option Method} {owner : ClassId} {method : Method} :
    Last s fun raise => enterSelected ⟨s, raise⟩ selected owner method := by
  unfold enterSelected
  cases selected with
  | some target => exact last_enterCalled
  | none => exact .bind readying_classAt fun _ => .throwNew _ _

theorem last_callStatic {method : Method} : Last s fun raise => callStatic ⟨s, raise⟩ method := by
  unfold callStatic
  refine .ite (.bind readying_methodText fun _ => .throwNew _ _) ?_
  exact Initialization.last_ensure _ last_enterCalled

theorem last_callSpecial {resolved : ClassId} {method : Method} :
    Last s fun raise => callSpecial ⟨s, raise⟩ resolved method := by
  unfold callSpecial
  refine last_ifInstance (.ite (.bind readying_classAt fun _ => .throwNew _ _) ?_)
  refine .bind readying_peekReceiver fun receiver => last_withReceiver fun _ => ?_
  refine .bind readying_activation fun a => .bind readying_get fun m => .ite ?_ last_enterCalled
  refine .bind readying_some! fun super => ?_
  cases m.lookupMethod super method.name method.desc with
  | some target => exact last_enterCalled
  | none => exact .bind readying_methodText fun _ => .throwNew _ _

theorem last_callVirtual {method : Method} : Last s fun raise => callVirtual ⟨s, raise⟩ method := by
  unfold callVirtual
  refine last_ifInstance (.bind readying_peekReceiver fun receiver => last_withReceiver fun r => ?_)
  exact .ite last_enterCalled (.bind readying_get fun m => last_enterSelected)

theorem last_callInterface {resolved : ClassId} {method : Method} :
    Last s fun raise => callInterface ⟨s, raise⟩ resolved method := by
  unfold callInterface
  refine last_ifInstance (.bind readying_peekReceiver fun receiver => ?_)
  cases receiver with
  | none => exact .throwNew _ _
  | some r =>
    refine .bind readying_get fun m => .bind readying_assignable fun fits => .ite (.throwNew _ _) (.ite last_enterCalled ?_)
    dsimp only
    cases m.lookupMethod (m.classOf r) method.name method.desc with
    | some target => exact .ite last_enterCalled (.bind readying_methodText fun _ => .throwNew _ _)
    | none => exact last_enterSelected

theorem last_call {kind : CallKind} {index : Nat} : Last s fun raise => call ⟨s, raise⟩ kind index := by
  unfold call
  refine .bind readying_activation fun a => .orThrow Resolution.readying_methodEntry fun (resolved, method) => ?_
  cases kind with
  | static => exact last_callStatic
  | special => exact last_callSpecial
  | «virtual» => exact last_callVirtual
  | interface => exact last_callInterface

end Execute

/-! ## Instructions -/

namespace Interpreter

open Execute

/-- Every instruction but that which runs native methods raises an exception last. -/
theorem last_instruction (natives : Natives) {i : Instruction} (hi : i ≠ .native) :
    Last s fun raise => execute natives ⟨s, raise⟩ i := by
  cases i with
  | constant index => exact last_constant
  | arrayLoad kind => exact last_arrayLoad
  | arrayStore kind => exact last_arrayStore
  | int op => exact last_int
  | long op => exact last_long
  | getStatic index => exact last_getStatic
  | putStatic index => exact last_putStatic
  | getField index => exact last_getField
  | putField index => exact last_putField
  | call kind index => exact last_call
  | callDynamic index => exact .throwNew _ _
  | new index => exact last_new
  | newArray code => exact last_newNumberArray
  | newRefArray index => exact last_newRefArray
  | newMultiArray index dimensions => exact last_newArrays
  | arrayLength => exact last_pushLength
  | raise => exact .bind readying_popRef fun r => .raised _
  | checkCast index => exact last_checkCast
  | instanceOf index => exact last_instanceOf
  | monitor => exact last_monitor
  | native => exact absurd rfl hi
  | _ => exact .silent _

theorem last_execute (natives : Natives) {i : Instruction} (hi : i ≠ .native) (m : Machine) :
    RaisesLast (fun _ => Prepares s m) (fun raise => execute natives ⟨s, raise⟩ i) m :=
  (last_instruction natives hi m).mono fun _ _ => PreparesFor.prepares

/-- Whether an instruction raises an exception: what becomes of exceptions makes a difference. -/
def Raises (natives : Natives) (s : Services) (i : Instruction) (m : Machine) : Prop :=
  ¬ ∃ result, ∀ raise, execute natives ⟨s, raise⟩ i m = result

/-- An instruction that raises an exception has only prepared the machine when it does so, and does nothing
afterwards: it ends as what becomes of the exception does. -/
theorem raised_last (natives : Natives) (s : Services) {i : Instruction} (hi : i ≠ .native) {m : Machine}
    (h : Raises natives s i m) :
    ∃ r c, Prepares s m c ∧ ∀ raise, execute natives ⟨s, raise⟩ i m = raise r c := by
  rcases last_execute natives hi m with ⟨result, hresult⟩ | ⟨r, c, hc, hraised⟩
  · exact absurd ⟨result, hresult⟩ h
  · exact ⟨r, c, hc, hraised⟩

/-- What is raised is what the machine has been prepared for. -/
theorem prepared_for_raised (natives : Natives) (s : Services) {i : Instruction} (hi : i ≠ .native) {m : Machine}
    (h : Raises natives s i m) :
    ∃ r c, PreparesFor s m r c ∧ ∀ raise, execute natives ⟨s, raise⟩ i m = raise r c := by
  rcases last_instruction natives hi m with ⟨result, hresult⟩ | ⟨r, c, hc, hraised⟩
  · exact absurd ⟨result, hresult⟩ h
  · exact ⟨r, c, hc, hraised⟩

/-- An instruction that goes through even where exceptions would stop the machine raises none. -/
theorem not_raises_of_ok {natives : Natives} {s : Services} {i : Instruction} (hi : i ≠ .native) {m m' : Machine}
    (h : execute natives ⟨s, fun _ => throw .stuck⟩ i m = .ok () m') : ¬ Raises natives s i m := by
  intro hraises
  rcases last_execute natives hi m with ⟨result, hresult⟩ | ⟨r, c, -, hraised⟩
  · exact hraises ⟨result, hresult⟩
  · nomatch h.symm.trans (hraised _)

end Interpreter

namespace Samples

/-- A machine in the middle of a method. -/
def middle (stack : OperandStack) : Machine :=
  let method : Method := { owner := ⟨0⟩, flags := ⟨0⟩, name := "store", desc := "()V", maxStack := 4 }
  { options := { classPath := .memory 0 "" }, frames := [.active { method, locals := #[], stack, pc := 5, nextPc := 6 }] }

/-- An empty reference, an index and a long are on the stack. -/
def storing : Machine := middle ⟨#[.null, .num 0, .num 1, .num 0], 4⟩

/-- All four slots were popped. -/
def stored : Machine := middle ⟨#[.null, .null, .null, .null], 0⟩

end Samples

open Samples Interpreter in
/-- A long that is stored through an empty reference is popped with it before the exception is raised. -/
theorem Interpreter.raised_last_storing :
    Instruction.arrayStore .long ≠ .native ∧ Raises Natives.standard .silent (.arrayStore .long) storing ∧
      ∃ r c, Prepares .silent storing c ∧
        ∀ raise, execute Natives.standard ⟨.silent, raise⟩ (.arrayStore .long) storing = raise r c := by
  have hignored : execute Natives.standard ⟨.silent, fun _ => pure ()⟩ (.arrayStore .long) storing = .ok () stored := rfl
  have hhalted : execute Natives.standard ⟨.silent, fun _ => throw .stuck⟩ (.arrayStore .long) storing =
      .error .stuck stored := rfl
  have hraises : Raises Natives.standard .silent (.arrayStore .long) storing := by
    rintro ⟨result, hresult⟩
    have hsame := (hignored.symm.trans (hresult _)).trans ((hresult _).symm.trans hhalted)
    nomatch hsame
  have hi : Instruction.arrayStore .long ≠ .native := nofun
  exact ⟨hi, hraises, raised_last Natives.standard .silent hi hraises⟩

end JavaMachine
