import JavaMachine.Machine.Interpreter
import JavaMachine.Machine.Threads
import JavaMachine.Proofs.Machine.Operations

/-!
Every instruction keeps a relation that the operations behind it keep. What an instruction does beside them
changes the innermost frame, the heap and the static variables only, and that is quiet. Main result:
`closes_execute`, for every instruction, given the natives.
-/

namespace JavaMachine

open M Throwing

/-- The operations that instructions and native methods are built from keep a relation: beside those that call each
other, making exceptions, defining classes, and giving way to other threads. -/
structure Helping (R : Ending → Machine → Machine → Prop) (s : Services) : Prop extends Hosted R s where
  newThrowable : ∀ name message cause, Keeps R (newThrowable s name message cause)
  defineClass : ∀ l expected data source, Attempt.Keeps R (Linking.defineClass s l expected data source)
  giveWay : Keeps R (Threads.giveWay s)

/-- What an instruction or a native method may end with is another relation: throwing an exception, putting
initializers on the frame stack, and entering a method. -/
structure Working (R S : Ending → Machine → Machine → Prop) (s : Services) : Prop extends Helping R s where
  throwObject : ∀ r, Keeps S (throwObject s r)
  ensure : ∀ c, Settles R S (Initialization.ensure s c) (· = true)
  enterCalled : ∀ method, Keeps S (Execute.enterCalled s method)

attribute [grind →] Helping.toHosted Working.toHelping
attribute [grind ←] Helping.newThrowable Helping.defineClass Helping.giveWay

variable {R S : Ending → Machine → Machine → Prop} [Touching R] {s : Services}

/-! ## Throwing -/

@[grind ←]
theorem Throwing.closes_throwNew (h : Working R S s) {name message : String} : Closes R S (throwNew s name message) := by
  unfold throwNew
  exact closes_bind (h.newThrowable _ _ _) fun r => closes_at_once (h.throwObject r)

@[grind ←]
theorem Throwing.closes_throwFailure (h : Working R S s) {f : Failure} : Closes R S (throwFailure s f) := by
  unfold throwFailure
  split
  · exact closes_at_once (h.throwObject _)
  · exact keeps_throw.closes
  · split
    · exact closes_bind (h.newThrowable _ _ _) fun _ => closes_at_once (h.throwObject _)
    · exact closes_bind keeps_get fun _ => closes_throwNew h

@[grind ←]
theorem Throwing.closes_throwNull (h : Working R S s) : Closes R S (throwNull s) := closes_throwNew h

@[grind ←]
theorem Throwing.closes_orThrow {α : Type} (h : Working R S s) {act : Attempt α} {next : α → M Unit}
    (ha : Attempt.Keeps R act) (hn : ∀ a, Closes R S (next a)) : Closes R S (orThrow s act next) := by
  unfold orThrow; grind

@[grind ←]
theorem Throwing.closes_raise (h : Working R S s) {r : Raise} : Closes R S (raise s r) := by
  cases r with
  | object r => exact closes_at_once (h.throwObject r)
  | new name message => exact closes_throwNew h
  | failure f => exact closes_throwFailure h

@[simp, grind =]
theorem Throwing.toServices_context (s : Services) : (context s).toServices = s := rfl

@[grind ←]
theorem Context.closes_throwNew (h : Working R S s) {name message : String} :
    Closes R S ((context s).throwNew name message) := Throwing.closes_throwNew h

@[grind ←]
theorem Context.closes_orThrow {α : Type} (h : Working R S s) {act : Attempt α} {next : α → M Unit}
    (ha : Attempt.Keeps R act) (hn : ∀ a, Closes R S (next a)) : Closes R S ((context s).orThrow act next) :=
  Throwing.closes_orThrow h ha hn

namespace M

omit [Touching R] in
@[grind ←]
theorem keeps_wrongElements [Tolerant R] {α : Type} {kind : ElementKind} {e : Option Elements} :
    Keeps R (wrongElements kind e : M α) := keeps_throw

omit [Touching R] in
@[grind ←]
theorem keeps_loadElement [Tolerant R] {r : Ref} {kind : ElementKind} {i : Nat} : Keeps R (loadElement r kind i) := by
  unfold loadElement; grind

/-- Elements of the kind of an access can be stored in. -/
theorem Elements.store?_ne_none {kind : ElementKind} {e : Elements} (h : e.holds kind) (i : Nat) (lo hi : Slot) :
    e.store? kind i lo hi ≠ none := by
  cases kind <;> cases e <;> first | exact Option.some_ne_none _ | cases h

/-- A store of a reference leaves the other elements as they are. -/
theorem Elements.mem_store? {kind : ElementKind} {e : Elements} {i : Nat} {lo hi : Slot} {refs : Array (Option Ref)}
    (h : e.store? kind i lo hi = some (.refs refs)) :
    kind = .ref ∧ ∃ old, e = .refs old ∧ ∀ v, some v ∈ refs → some v ∈ old ∨ lo.ref? = some v := by
  cases kind <;> cases e <;> cases h
  next old =>
  refine ⟨rfl, old, rfl, fun v hv => ?_⟩
  exact (Array.mem_or_eq_of_mem_setIfInBounds hv).imp_right Eq.symm

/-- An object in which an element is stored stays an array, so its fields do not matter. -/
theorem Elements.none_of_store? {kind : ElementKind} {i : Nat} {lo hi : Slot} {e : Option Elements}
    (hholds : (e.map (Elements.holds kind)).getD false) (h : (e.bind fun e => e.store? kind i lo hi) = none) : e = none := by
  cases e with
  | none => rfl
  | some e => exact absurd h (Elements.store?_ne_none hholds i lo hi)

@[grind ←]
theorem careless_storeElement {R : Ending → Machine → Machine → Prop} [Careless R] {r : Ref} {kind : ElementKind} {i : Nat}
    {lo hi : Slot} : Keeps R (storeElement r kind i lo hi) := by
  intro m
  rw [storeElement, after_bind_iff, after_objectAt]
  split
  · next hholds =>
    exact Careless.slight (slight_changeElements (fun e => e.bind fun e => e.store? kind i lo hi)
      (Elements.none_of_store? hholds))
  · exact Tolerant.minor (.refl m)

/-- An element is stored that the array may hold. -/
theorem minor_storeElement {m : Machine} {r : Ref} {kind : ElementKind} {i : Nat} {lo hi : Slot}
    (h : kind = .ref → ∀ v, lo.ref? = some v → ∀ f, f.Judges → Persists m f → f.Stocked m →
      f.Admits m (m.classOf r) v) :
    After (storeElement r kind i lo hi) m (fun _ => Minor m) (Minor m) := by
  rw [storeElement, after_bind_iff, after_objectAt]
  split
  · next hholds =>
    refine minor_changeElements (fun e => e.bind fun e => e.store? kind i lo hi) (Elements.none_of_store? hholds) ?_
    intro f hf hc hm refs hrefs
    obtain ⟨e, he, hstored⟩ := Option.bind_eq_some_iff.1 hrefs
    obtain ⟨hkind, old, rfl, hmem⟩ := Elements.mem_store? hstored
    refine .inr fun v hv => ?_
    rcases hmem v hv with hold | hnew
    · exact hm.held r old he v hold
    · exact h hkind v hnew f hf hc hm
  · exact .refl m

omit [Touching R] in
/-- Numbers and null may be stored in every array of their kind. -/
@[grind ←]
theorem keeps_storeElement [Tolerant R] {r : Ref} {kind : ElementKind} {i : Nat} {lo hi : Slot}
    (h : kind = .ref → lo.ref? = none) : Keeps R (storeElement r kind i lo hi) := fun m => by
  refine (minor_storeElement fun hkind v hv => ?_).mono (fun _ _ => Tolerant.minor) fun _ => Tolerant.minor
  rw [h hkind] at hv
  cases hv

/-- A reference is stored whose class passes the test of the array. -/
theorem minor_storeFitting {m : Machine} {r v : Ref} {i : Nat} {lo hi : Slot} {k : ClassId}
    (hv : lo.ref? = some v) (hvalid : v.index < m.heap.size) (hk : (m.classAt (m.classOf r)).component = some k)
    (h : m.isAssignable k (m.classOf v) = true) :
    After (storeElement r .ref i lo hi) m (fun _ => Minor m) (Minor m) := by
  refine minor_storeElement fun _ x hx f hf hc hm => ?_
  obtain rfl : v = x := Option.some.inj (hv.symm.trans hx)
  exact hf.admits hc hk hvalid h

end M

namespace Execute

/-! ## Moving slots, arithmetic and control -/

theorem keeps_load {wide : Bool} {index : Nat} : Keeps R (load wide index) := by unfold load; grind

theorem keeps_store {wide : Bool} {index : Nat} : Keeps R (store wide index) := by unfold store; grind

theorem keeps_increment {index : Nat} {delta : Int32} : Keeps R (increment index delta) := by
  unfold increment; grind

@[grind ←]
theorem closes_divisionByZero (h : Working R S s) : Closes R S (divisionByZero s) := closes_throwNew h

theorem closes_int (h : Working R S s) {op : IntegerOp} : Closes R S (int s op) := by unfold int; grind

theorem closes_long (h : Working R S s) {op : IntegerOp} : Closes R S (long s op) := by unfold long; grind

theorem keeps_negate {kind : NumberKind} : Keeps R (negate kind) := by
  cases kind <;> (unfold negate; grind)

theorem keeps_convert {c : Conversion} : Keeps R (convert c) := by
  cases c <;> (unfold convert; grind)

@[grind ←]
theorem keeps_decideCondition {c : Condition} : Keeps R (decideCondition c) := by
  cases c <;> (unfold decideCondition; grind)

@[grind ←]
theorem keeps_jump {offset : Int32} : Keeps R (jump offset) := keeps_goOn

theorem keeps_branch {c : Condition} {offset : Int32} : Keeps R (branch c offset) := by
  unfold branch; grind

theorem keeps_callSubroutine {offset : Int32} : Keeps R (callSubroutine offset) := by
  unfold callSubroutine; grind

theorem keeps_endSubroutine {index : Nat} : Keeps R (endSubroutine index) := by
  unfold endSubroutine
  exact keeps_bind keeps_localInt fun _ => keeps_goOn

theorem keeps_select {table : SwitchTable} : Keeps R (select table) := by unfold select; grind

/-! ## Arrays -/

theorem settles_checkIndex (h : Working R S s) {array : Option Ref} {i : Int32} :
    Settles R S (checkIndex s array i) (·.isSome) := by
  unfold checkIndex
  split
  · exact .ended (closes_throwNew h) nofun
  · refine .bind keeps_arrayLength fun n => ?_
    split
    · exact .ended (closes_throwNew h) nofun
    · exact .of_keeps keeps_pure

@[grind ←]
theorem closes_withElement (h : Working R S s) {next : Ref → Nat → M Unit} (hn : ∀ r i, Closes R S (next r i)) :
    Closes R S (withElement s next) := by
  unfold withElement
  refine closes_bind keeps_popInt fun i => closes_bind keeps_popRef fun array => ?_
  exact (settles_checkIndex h).closes_some (fun r => hn r _) rfl

theorem closes_arrayLoad (h : Working R S s) {kind : ElementKind} : Closes R S (arrayLoad s kind) := by
  unfold arrayLoad; grind

@[grind ←]
theorem closes_storeRef (h : Working R S s) {r : Ref} {i : Nat} {v : Slot} : Closes R S (storeRef s r i v) := by
  unfold storeRef
  cases hv : v.ref? with
  | none => exact (keeps_storeElement fun _ => hv).closes
  | some value =>
    intro m
    rw [after_bind_iff, after_classOf, after_bind_iff]
    cases hk : (m.classAt (m.classOf r)).component with
    | none => exact .inl (Tolerant.minor (.refl m))
    | some k =>
      rw [after_some, after_bind_iff]
      refine (after_present value m).mono ?_ ?_
      · rintro o m ⟨rfl, hvalid, rfl⟩
        refine after_bind_iff.2 ((after_assignable k _ m).mono ?_ ?_)
        · rintro fits m ⟨rfl, -, rfl⟩
          split
          · next hfits =>
            have hstore : After (storeElement r .ref i v .null) m (fun _ => Minor m) (Minor m) :=
              minor_storeFitting hv hvalid hk hfits
            exact hstore.mono (fun _ _ h => .inl (Tolerant.minor h)) fun _ h => .inl (Tolerant.minor h)
          · exact closes_bind keeps_classAt (fun _ => closes_throwNew h) _
        · rintro _ rfl
          exact .inl (Tolerant.minor (.refl _))
      · rintro _ rfl
        exact .inl (Tolerant.minor (.refl _))

theorem closes_storeLow (h : Working R S s) {kind : ElementKind} (hi : Slot) : Closes R S (do
    let lo ← pop
    withElement s fun r i => do
      match kind with
      | .ref => storeRef s r i lo
      | .byte =>
        let narrow := if (← classOf r).name == "[Z" then .num (lo.int &&& 1) else lo
        storeElement r kind i narrow hi
      | _ => storeElement r kind i lo hi) := by
  refine closes_bind keeps_pop fun lo => closes_withElement h fun r i => ?_
  split
  · exact closes_storeRef h
  · refine closes_bind keeps_classOf fun k => ?_
    exact Keeps.closes (keeps_storeElement (by nofun))
  · next href _ => exact (keeps_storeElement fun hkind => absurd hkind href).closes

theorem closes_arrayStore (h : Working R S s) {kind : ElementKind} : Closes R S (arrayStore s kind) := by
  unfold arrayStore
  cases kind.isWide with
  | true => exact closes_bind keeps_pop (closes_storeLow h)
  | false => exact closes_bind keeps_pure (closes_storeLow h)

/-! ## Fields -/

@[grind ←]
theorem closes_withField (h : Working R S s) {index : Nat} {static : Bool} {next : Field → M Unit}
    (hn : ∀ f, Closes R S (next f)) : Closes R S (withField s index static next) := by unfold withField; grind

@[grind ←]
theorem closes_ifWritable (h : Working R S s) {f : Field} {initializer : String} {next : M Unit}
    (hn : Closes R S next) : Closes R S (ifWritable s f initializer next) := by unfold ifWritable; grind

@[grind ←]
theorem closes_withReceiver (h : Working R S s) {owner : ClassId} {flags : Flags} {receiver : Option Ref}
    {next : Ref → M Unit} (hn : ∀ r, Closes R S (next r)) :
    Closes R S (withReceiver s owner flags receiver next) := by unfold withReceiver; grind

/-- Static variables may change, but not how many there are. -/
theorem keeps_onStatics {α : Type} {c : ClassId} {act : Slots.Action α}
    (h : ∀ {slots v after}, act slots = .ok v after → after.size = slots.size) : Keeps R (onStatics c act) := by
  intro m
  unfold After onStatics
  cases hact : act (m.classAt c).statics with
  | ok v statics =>
    refine Tolerant.minor (minor_updateClass (fun _ => rfl) ?_ rfl rfl)
    rw [Class.plan, h hact]
    rfl
  | error e statics => exact Tolerant.minor (.refl m)

@[grind ←]
theorem keeps_readStatic {c : ClassId} {i : Int} : Keeps R (onStatics c (Slots.read i)) := by
  refine keeps_onStatics fun hread => ?_
  unfold Slots.read at hread
  split at hread
  · cases hread
  · split at hread
    · cases hread
      rfl
    · cases hread

@[grind ←]
theorem keeps_writeStatic {c : ClassId} {i : Int} {v : Slot} : Keeps R (onStatics c (Slots.write i v)) :=
  keeps_onStatics Slots.size_write

/-- An instruction that needs an initialized class goes on only if it is one. -/
theorem closes_ensured (h : Working R S s) {c : ClassId} {next : M Unit} (hn : Closes R S next) :
    Closes R S (do if ← Initialization.ensure s c then next) := by
  refine (h.ensure c).closes (fun b hb => ?_) fun b hb => ?_
  · rw [hb, if_pos rfl]
    exact hn
  · exact if_neg hb

theorem closes_getStatic (h : Working R S s) {index : Nat} : Closes R S (getStatic s index) := by
  unfold getStatic
  refine closes_withField h fun f => closes_ensured h ?_
  refine closes_bind keeps_readStatic fun lo => closes_bind keeps_push fun _ => ?_
  split
  · exact closes_bind keeps_readStatic fun hi => keeps_push.closes
  · exact keeps_pure.closes

theorem closes_putStatic (h : Working R S s) {index : Nat} : Closes R S (putStatic s index) := by
  have hlow (f : Field) : Keeps R (do onStatics f.owner (Slots.write f.slot (← pop))) :=
    keeps_bind keeps_pop fun lo => keeps_writeStatic
  unfold putStatic
  refine closes_withField h fun f => closes_ifWritable h (closes_ensured h ?_)
  split
  · refine closes_bind keeps_pop fun hi => closes_bind keeps_writeStatic fun _ => ?_
    exact (hlow f).closes
  · exact (hlow f).closes

theorem closes_getField (h : Working R S s) {index : Nat} : Closes R S (getField s index) := by
  unfold getField; grind

theorem closes_putField (h : Working R S s) {index : Nat} : Closes R S (putField s index) := by
  unfold putField
  refine closes_withField h fun f => closes_ifWritable h ?_
  grind

/-! ## Objects and classes -/

@[grind ←]
theorem keeps_holder : Keeps R holder := by unfold holder; grind

@[grind ←]
theorem keeps_place : Keeps R place := by unfold place; grind

@[grind ←]
theorem closes_withClass (h : Working R S s) {index : Nat} {next : ClassId → M Unit}
    (hn : ∀ c, Closes R S (next c)) : Closes R S (withClass s index next) := by unfold withClass; grind

theorem closes_constant (h : Working R S s) {index : Nat} : Closes R S (constant s index) := by
  unfold constant
  refine closes_bind keeps_holder fun c m => After.bind ((Resolution.after_entry c index).mono (fun _ _ => id) ?_) ?_
  · rintro _ rfl
    exact .inl (Tolerant.minor (.refl _))
  · rintro e m ⟨rfl, he, -⟩
    split
    case h_3 units known =>
      -- the entry is still the one that was read
      have hstring := Linking.minor_stringConstant known (congrArg PoolEntry.unresolved he)
      refine After.then (hstring.mono (fun _ _ => Tolerant.minor) fun _ => Tolerant.minor) fun r => ?_
      exact keeps_pushRef.closes
    · exact keeps_pushInt.closes m
    · exact keeps_pushFloat.closes m
    · exact closes_withClass h (fun k => closes_bind keeps_mirror fun _ => keeps_pushRef.closes) m
    · exact closes_throwNew h m
    · exact closes_bind keeps_place (fun _ => keeps_fatal.closes) m

theorem keeps_wideConstant {index : Nat} : Keeps R (wideConstant index) := by unfold wideConstant; grind

theorem closes_new (h : Working R S s) {index : Nat} : Closes R S (new s index) := by
  unfold new
  refine closes_withClass h fun c => closes_bind keeps_classAt fun k => ?_
  split
  · exact closes_throwNew h
  · exact closes_ensured h (closes_bind keeps_newObject fun r => keeps_pushRef.closes)

@[grind ←]
theorem closes_negativeSize (h : Working R S s) {n : Int32} : Closes R S (negativeSize s n) := closes_throwNew h

theorem closes_newNumberArray (h : Working R S s) {code : UInt8} : Closes R S (newNumberArray s code) := by
  unfold newNumberArray; grind

theorem closes_newRefArray (h : Working R S s) {index : Nat} : Closes R S (newRefArray s index) := by
  have ha (c : ClassId) := Linking.keeps_arrayClassOf h.toHosted (c := c)
  unfold newRefArray; grind

/-- A new array of arrays is an object of its class, and its elements are of its component. -/
theorem after_newMultiArray (c : ClassId) (counts : List Int32) (m : Machine) :
    After (newMultiArray c counts) m (fun r m' => Minor m m' ∧ m'.Refers r c) (Minor m) := by
  fun_induction newMultiArray c counts generalizing m with
  | case1 => exact .refl m
  | case2 c n => exact after_newArray c n m
  | case3 c n rest hrest ih =>
    refine (after_newArray c n m).bind fun r m₁ ⟨h₁, hr⟩ => ?_
    rw [after_bind_iff, after_objectAt]
    dsimp only
    split
    · exact h₁
    · split
      · exact ⟨h₁, hr⟩
      · rw [after_bind_iff, after_classAt, after_bind_iff]
        cases hk : (m₁.classAt c).component with
        | none => exact h₁
        | some k =>
          rw [after_some, after_bind_iff]
          have hrows := after_mapM_minor (P := fun r m => m.Refers r k) (fun h => h.persists.refers)
            (fun _ m _ => ih k m) (List.replicate n.toInt.toNat ()) (.refl m₁)
          refine hrows.mono (fun rows m₂ ⟨h₂, hrefers⟩ => ?_) fun _ => h₁.trans
          have hset : Minor m₂ { m₂ with heap := m₂.heap.modify r.index fun o =>
              { o with elements := some (.refs (rows.map some).toArray) } } := by
            refine minor_setElements fun f hf hc hm refs hrefs v hv => ?_
            cases hrefs
            have hv : m₂.Refers v k := hrefers v (by simpa using hv)
            refine hf.admits hc (k := k) ?_ hv.valid ?_
            · rw [(h₂.persists.refers hr).owner]
              exact h₂.persists.component hk
            · rw [hv.owner]
              exact Machine.assignableWithin_refl _ k
          exact ⟨(h₁.trans h₂).trans hset, (h₂.trans hset).persists.refers hr⟩

@[grind ←]
theorem keeps_newMultiArray {c : ClassId} {counts : List Int32} : Keeps R (newMultiArray c counts) := fun m =>
  (after_newMultiArray c counts m).mono (fun _ _ h => Tolerant.minor h.1) fun _ => Tolerant.minor

@[grind ←]
theorem keeps_popCounts {n : Nat} {counts : List Int32} : Keeps R (popCounts n counts) := by
  induction n generalizing counts with
  | zero => exact keeps_pure
  | succ n ih => exact keeps_bind keeps_popInt fun _ => ih

theorem closes_newArrays (h : Working R S s) {index dimensions : Nat} :
    Closes R S (newArrays s index dimensions) := by unfold newArrays; grind

theorem closes_pushLength (h : Working R S s) : Closes R S (pushLength s) := by unfold pushLength; grind

theorem closes_checkCast (h : Working R S s) {index : Nat} : Closes R S (checkCast s index) := by
  unfold checkCast; grind

theorem closes_instanceOf (h : Working R S s) {index : Nat} : Closes R S (instanceOf s index) := by
  unfold instanceOf; grind

theorem closes_monitor (h : Working R S s) : Closes R S (monitor s) := by unfold monitor; grind

/-! ## Calls -/

@[grind ←]
theorem closes_enterCalled (h : Working R S s) {method : Method} : Closes R S (enterCalled s method) :=
  closes_at_once (h.enterCalled method)

@[grind ←]
theorem closes_ifInstance (h : Working R S s) {method : Method} {next : M Unit} (hn : Closes R S next) :
    Closes R S (ifInstance s method next) := by unfold ifInstance; grind

@[grind ←]
theorem keeps_peekReceiver {method : Method} : Keeps R (peekReceiver method) := by
  unfold peekReceiver; grind

@[grind ←]
theorem closes_enterSelected (h : Working R S s) {selected : Option Method} {owner : ClassId} {method : Method} :
    Closes R S (enterSelected s selected owner method) := by
  unfold enterSelected
  split
  · exact closes_enterCalled h
  · exact closes_bind keeps_classAt fun k => closes_throwNew h

@[grind ←]
theorem closes_callStatic (h : Working R S s) {method : Method} : Closes R S (callStatic s method) := by
  unfold callStatic
  split
  · exact closes_bind keeps_methodText fun text => closes_throwNew h
  · exact closes_ensured h (closes_enterCalled h)

@[grind ←]
theorem closes_callSpecial (h : Working R S s) {resolved : ClassId} {method : Method} :
    Closes R S (callSpecial s resolved method) := by
  unfold callSpecial
  refine closes_ifInstance h ?_
  split
  · exact closes_bind keeps_classAt fun k => closes_throwNew h
  · refine closes_bind keeps_peekReceiver fun r => closes_withReceiver h fun _ => ?_
    refine closes_bind keeps_activation fun caller => closes_bind keeps_get fun m => ?_
    split
    · refine closes_bind keeps_some! fun super => ?_
      split
      · exact closes_enterCalled h
      · exact closes_bind keeps_methodText fun text => closes_throwNew h
    · exact closes_enterCalled h

@[grind ←]
theorem closes_callVirtual (h : Working R S s) {method : Method} : Closes R S (callVirtual s method) := by
  unfold callVirtual
  refine closes_ifInstance h (closes_bind keeps_peekReceiver fun r => closes_withReceiver h fun r => ?_)
  split
  · exact closes_enterCalled h
  · exact closes_bind keeps_get fun m => closes_enterSelected h

@[grind ←]
theorem closes_callInterface (h : Working R S s) {resolved : ClassId} {method : Method} :
    Closes R S (callInterface s resolved method) := by
  unfold callInterface
  refine closes_ifInstance h (closes_bind keeps_peekReceiver fun receiver => ?_)
  split
  · exact closes_throwNew h
  · refine closes_bind keeps_get fun m => closes_bind keeps_assignable fun fits => ?_
    dsimp only
    split
    · exact closes_throwNew h
    · split
      · exact closes_enterCalled h
      · split
        · split
          · exact closes_enterCalled h
          · exact closes_bind keeps_methodText fun text => closes_throwNew h
        · exact closes_enterSelected h

theorem closes_call (h : Working R S s) {kind : CallKind} {index : Nat} : Closes R S (call s kind index) := by
  unfold call
  refine closes_bind keeps_activation fun a => closes_orThrow h (h.methodEntry _ _) ?_
  rintro ⟨resolved, method⟩
  cases kind with
  | static => exact closes_callStatic h
  | special => exact closes_callSpecial h
  | virtual => exact closes_callVirtual h
  | interface => exact closes_callInterface h

/-- A table of natives whose implementations keep a relation up to their end. -/
def Lawful (R S : Ending → Machine → Machine → Prop) (natives : Natives) (s : Services) : Prop :=
  ∀ owner name desc act, natives.find? owner name desc = some act → Closes R S (act s)

theorem closes_native (h : Working R S s) {natives : Natives} (hn : Lawful R S natives s) :
    Closes R S (native natives s) := by
  unfold native
  refine closes_bind keeps_activation fun a => closes_bind keeps_classAt fun k => ?_
  split
  · next act ha => exact hn _ _ _ act ha
  · split
    · exact closes_throwNew h
    · exact keeps_pure.closes

end Execute

/-! ## Instructions -/

open Execute in
/-- Every instruction but a return keeps a relation that the operations behind it keep, up to its end. -/
theorem Interpreter.closes_execute (h : Working R S s) {natives : Natives} (hn : Lawful R S natives s)
    {i : Instruction} (hfinish : ∀ width, i = .finish width → Closes R S (finish width)) :
    Closes R S (execute natives s i) := by
  cases i with
  | nop => exact keeps_pure.closes
  | push slots => exact (keeps_onStack OperandStack.orderly_pushAll).closes
  | constant index => exact closes_constant h
  | wideConstant index => exact keeps_wideConstant.closes
  | load wide index => exact keeps_load.closes
  | store wide index => exact keeps_store.closes
  | increment index delta => exact keeps_increment.closes
  | arrayLoad kind => exact closes_arrayLoad h
  | arrayStore kind => exact closes_arrayStore h
  | stack op => exact (keeps_onStack orderly_rearrange).closes
  | int op => exact closes_int h
  | long op => exact closes_long h
  | negate kind => exact keeps_negate.closes
  | convert c => exact keeps_convert.closes
  | branch c offset => exact keeps_branch.closes
  | callSubroutine offset => exact keeps_callSubroutine.closes
  | endSubroutine index => exact keeps_endSubroutine.closes
  | select table => exact keeps_select.closes
  | finish width => exact hfinish width rfl
  | getStatic index => exact closes_getStatic h
  | putStatic index => exact closes_putStatic h
  | getField index => exact closes_getField h
  | putField index => exact closes_putField h
  | call kind index => exact closes_call h
  | callDynamic index => exact closes_throwNew h
  | new index => exact closes_new h
  | newArray code => exact closes_newNumberArray h
  | newRefArray index => exact closes_newRefArray h
  | newMultiArray index dimensions => exact closes_newArrays h
  | arrayLength => exact closes_pushLength h
  | raise => exact closes_bind keeps_popRef fun r => closes_at_once (h.throwObject r)
  | checkCast index => exact closes_checkCast h
  | instanceOf index => exact closes_instanceOf h
  | monitor => exact closes_monitor h
  | native => exact closes_native h hn
  | _ =>
    refine Keeps.closes ?_
    unfold execute
    grind

/-- Every instruction keeps a relation that the operations behind it keep, those that it ends with too. -/
theorem Interpreter.keeps_execute (h : Working R R s) {natives : Natives} (hn : Execute.Lawful R R natives s)
    (hfinish : ∀ width, Keeps R (Execute.finish width)) {i : Instruction} : Keeps R (execute natives s i) :=
  (closes_execute h hn fun width _ => (hfinish width).closes).mono Closing.same

end JavaMachine
