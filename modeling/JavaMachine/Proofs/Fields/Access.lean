import JavaMachine.Proofs.Fields.Values
import JavaMachine.Proofs.Loading.Attained

/-!
Field instructions over all runs. An instruction `Finds` the field that the resolution of its operand leads to; that
field is one that its class declares. Where the object has the field, or the class of the field is ready, the instruction
moves the value of the field and nothing else: `fields_apart`, for the slots that classes share out among their fields,
and for all four instructions on them. Arrays are left out, for their classes inherit fields but have no
slots (`array_without_slots`).
-/

namespace JavaMachine

open M Execute

variable {s : Services} {m m₁ : Machine} {f : Field} {index : Nat}

/-! ## Fields that instructions find -/

/-- The resolution of an instruction's operand leads to a field, in a machine that may know more than before. -/
def Execute.Finds (s : Services) (index : Nat) (m m₁ : Machine) (f : Field) : Prop :=
  ∃ a rest, m.frames = .active a :: rest ∧ (Resolution.fieldEntry s a.method.owner index).run m = .ok (.ok f) m₁

/-- The machine in which a field was found is sound, and the field is declared by its class. -/
theorem Execute.Finds.declared (h : Loads s) (hm : m.Sound) (hfinds : Finds s index m m₁ f) :
    m₁.Sound ∧ f ∈ (m₁.classAt f.owner).fields := by
  obtain ⟨a, rest, -, hrun⟩ := hfinds
  have hends : Attempt.Ends (Resolution.fieldEntry s a.method.owner index) m _ _ := Resolution.ends_fieldEntry h hm
  have houtcome := hends.outcome
  rw [hrun] at houtcome
  obtain ⟨hgrows, _, _, _, _, -, -, hmeans⟩ := houtcome
  exact ⟨hgrows.sound, hmeans.declared⟩

/-! ## What instructions need -/

/-- A method may write a field: a final one only as the initializer of that name of the class that declares it. -/
def Method.MayWrite (method : Method) (f : Field) (initializer : String) : Prop :=
  f.flags.isFinal → method.owner = f.owner ∧ method.name = initializer

theorem Method.MayWrite.writable {method : Method} {initializer : String} (h : method.MayWrite f initializer) :
    (!f.flags.isFinal || (method.owner == f.owner && method.name == initializer)) = true := by
  cases hfinal : f.flags.isFinal with
  | false => rfl
  | true =>
    obtain ⟨howner, hname⟩ := h hfinal
    rw [beq_iff_eq.2 howner, beq_iff_eq.2 hname]
    rfl

/-- An object that is no array has a field, which may be used through it. -/
structure Machine.Offers (m : Machine) (r : Ref) (f : Field) (user : ClassId) : Prop where
  inherited : f.owner ∈ m.lineage (m.classOf r)
  plainClass : (m.classAt (m.classOf r)).component = none
  plainObject : (m.objectAt r).isArray = false
  tested : m.receiverHalt? user f.owner f.flags r = none
  allowed : m.receiverAllowed user f.owner f.flags r

/-- A class may be used by the thread that runs: it is initialized, or this thread initializes it. -/
def Machine.Ready (m : Machine) (c : ClassId) : Prop :=
  (m.classAt c).state = .initialized ∨ (m.classAt c).state = .initializing m.current

section steps

variable {Q : Unit → Machine → Prop} {H : Machine → Prop} {method : Method} {room : Nat} {operands : List Slot}

theorem Execute.after_withField {static : Bool} {next : Field → M Unit} (hfinds : Finds s index m m₁ f)
    (hstatic : f.isStatic = static) (hnext : After (next f) m₁ Q H) : After (withField s index static next) m Q H := by
  obtain ⟨a, rest, hframes, hrun⟩ := hfinds
  have hactivation : activation m = .ok a m := by rw [activation, hframes]
  unfold withField Context.orThrow
  refine after_bind_of_eq hactivation (after_bind_of_eq hrun ?_)
  dsimp only
  rw [if_pos (beq_iff_eq.2 hstatic)]
  exact hnext

theorem Execute.after_ifWritable {initializer : String} {next : M Unit} (hruns : m.Runs method room operands)
    (hwrite : method.MayWrite f initializer) (hnext : After next m Q H) :
    After (ifWritable s f initializer next) m Q H := by
  unfold ifWritable
  refine after_activation_bind hruns fun a ha => ?_
  subst ha
  dsimp only
  rw [if_pos hwrite.writable]
  exact hnext

theorem Execute.after_withReceiver {r : Ref} {next : Ref → M Unit} (hruns : m.Runs method room operands)
    (htested : m.receiverHalt? method.owner f.owner f.flags r = none)
    (hallowed : m.receiverAllowed method.owner f.owner f.flags r) (hnext : After (next r) m Q H) :
    After (withReceiver s f.owner f.flags (some r) next) m Q H := by
  unfold withReceiver
  refine after_activation_bind hruns fun a ha => ?_
  rw [after_bind_iff, after_get, ha, htested, if_pos hallowed]
  exact hnext

theorem Initialization.after_ensure_bind {c : ClassId} {next : Bool → M Unit} (hready : m.Ready c)
    (hnext : After (next true) m Q H) : After (ensure s c >>= next) m Q H := by
  rw [ensure, bind_assoc, after_bind_iff, awaitState, after_bind_iff, after_get]
  rcases hready with hstate | hstate
  · rw [hstate]
    exact hnext
  · rw [hstate]
    dsimp only
    rw [if_pos rfl]
    exact hnext

end steps

/-! ## What instructions do -/

namespace Machine

/-- A field of an object gets a value, which fits into the slots of the object, and no other field of any object or
class does. -/
structure FieldSet (m m' : Machine) (r : Ref) (f : Field) (v : List Slot) : Prop where
  inside : f.slot + f.width ≤ (m.objectAt r).fields.size
  value : m'.instanceValue r f = v
  others : ∀ r' g, g ∈ m.allFields (m.classOf r') → (r', g) ≠ (r, f) → m'.instanceValue r' g = m.instanceValue r' g
  classes : m'.classes = m.classes

/-- A static field gets a value, which fits into the static variables of its class, and no other field of any class
or object does. -/
structure StaticSet (m m' : Machine) (f : Field) (v : List Slot) : Prop where
  inside : f.slot + f.width ≤ (m.classAt f.owner).statics.size
  value : m'.staticValue f = v
  others : ∀ g, g ∈ (m.classAt g.owner).staticFields → g ≠ f → m'.staticValue g = m.staticValue g
  heap : m'.heap = m.heap

variable {m m' : Machine} {r : Ref} {f : Field} {v : List Slot} {user : ClassId}

theorem width_pos (hm : m.Sound) (hf : f ∈ (m.classAt f.owner).fields) : 0 < f.width :=
  (hm.laid f.owner (lt_of_mem_fields hf)).widths f hf

/-- The slots of an object that offers a field are shared out among the fields of its class, and this is one of
them. -/
theorem Offers.tiles (hm : m.Sound) (hf : f ∈ (m.classAt f.owner).fields) (hinstance : f.isStatic = false)
    (h : m.Offers r f user) :
    Tiles (m.allFields (m.classOf r)) 0 (m.objectAt r).fields.size ∧ f ∈ m.allFields (m.classOf r) := by
  have hplain : (m.objectAt r).elements = none := Option.not_isSome_iff_eq_none.1 (Bool.eq_false_iff.1 h.plainObject)
  have hfits := hm.fit.objectAt r
  refine ⟨?_, List.mem_flatMap.2 ⟨f.owner, h.inherited, List.mem_filter.2 ⟨hf, by rw [hinstance]; rfl⟩⟩⟩
  rw [hfits.fields hplain]
  exact (hm.tiled (hfits.owner hplain) h.plainClass).all

/-- An object that offers a field has slots, so it is there. -/
theorem Offers.lt (hm : m.Sound) (hf : f ∈ (m.classAt f.owner).fields) (hinstance : f.isStatic = false)
    (h : m.Offers r f user) : r.index < m.heap.size := by
  obtain ⟨htiles, hmem⟩ := h.tiles hm hf hinstance
  have hstop := htiles.stop_le hmem (width_pos hm hf)
  have hwidth := width_pos hm hf
  refine Nat.lt_of_not_le fun hle => ?_
  have hnone : m.objectAt r = default := by simp [objectAt, Array.getD, Nat.not_lt.2 hle]
  rw [hnone] at hstop
  change _ ≤ 0 at hstop
  omega

/-- A field is set by putting a value into the slots that it takes in its object. -/
theorem FieldSet.of_putStatics (hm : m.Sound) (hf : f ∈ (m.classAt f.owner).fields) (hinstance : f.isStatic = false)
    (h : m.Offers r f user) (hv : v.length = f.width)
    (hobject : (m'.objectAt r).fields = Linking.putStatics (m.objectAt r).fields f.slot v)
    (hothers : ∀ r', r ≠ r' → (m'.objectAt r').fields = (m.objectAt r').fields) (hclasses : m'.classes = m.classes) :
    m.FieldSet m' r f v := by
  obtain ⟨htiles, hmem⟩ := h.tiles hm hf hinstance
  have hstop := htiles.stop_le hmem (width_pos hm hf)
  refine ⟨hstop, ?_, fun r' g hg hne => ?_, hclasses⟩
  · rw [instanceValue, hobject]
    exact Slots.value_putStatics hstop hv
  · by_cases hr : r = r'
    · subst hr
      rw [instanceValue, hobject, instanceValue]
      refine Slots.value_putStatics_of_apart hstop hv (htiles.apart_of_ne hmem hg fun hfg => hne ?_)
      rw [hfg]
    · rw [instanceValue, hothers r' hr, instanceValue]

/-- The static variables of a class are shared out among its static fields, and a declared one is one of them. -/
theorem tiles_of_static (hm : m.Sound) (hf : f ∈ (m.classAt f.owner).fields) (hstatic : f.isStatic = true) :
    Tiles (m.classAt f.owner).staticFields 0 (m.classAt f.owner).statics.size ∧
      f ∈ (m.classAt f.owner).staticFields :=
  ⟨hm.tiles_static (lt_of_mem_fields hf), List.mem_filter.2 ⟨hf, hstatic⟩⟩

/-- A static field is set by putting a value into the slots that it takes in its class. -/
theorem StaticSet.of_putStatics (hm : m.Sound) (hf : f ∈ (m.classAt f.owner).fields) (hstatic : f.isStatic = true)
    (hv : v.length = f.width)
    (hclass : (m'.classAt f.owner).statics = Linking.putStatics (m.classAt f.owner).statics f.slot v)
    (hothers : ∀ c, f.owner ≠ c → (m'.classAt c).statics = (m.classAt c).statics) (hheap : m'.heap = m.heap) :
    m.StaticSet m' f v := by
  obtain ⟨htiles, hmem⟩ := tiles_of_static hm hf hstatic
  have hstop := htiles.stop_le hmem (width_pos hm hf)
  refine ⟨hstop, ?_, fun g hg hne => ?_, hheap⟩
  · rw [staticValue, hclass]
    exact Slots.value_putStatics hstop hv
  · rw [staticValue, staticValue]
    by_cases howner : f.owner = g.owner
    · rw [← howner, hclass]
      rw [← howner] at hg
      exact Slots.value_putStatics_of_apart hstop hv (htiles.apart_of_ne hmem hg hne.symm)
    · rw [hothers _ howner]

end Machine

namespace Execute

variable {method : Method} {room : Nat} {below : List Slot} {r : Ref} {v : List Slot}

/-- Setting a field pops the value and the object, and puts the one into the other. -/
theorem after_putField (hm : m₁.Sound) (hf : f ∈ (m₁.classAt f.owner).fields) (hinstance : f.isStatic = false)
    (hfinds : Finds s index m m₁ f) (hruns : m₁.Runs method room (below ++ .ref r :: v)) (hv : v.length = f.width)
    (hwrite : method.MayWrite f Method.initName) (hoffers : m₁.Offers r f method.owner) :
    After (putField s index) m (fun _ m' => m'.Runs method room below ∧ m₁.FieldSet m' r f v) fun _ => False := by
  obtain ⟨htiles, hmem⟩ := hoffers.tiles hm hf hinstance
  have hwidth := Machine.width_pos hm hf
  have hstop := htiles.stop_le hmem hwidth
  have hr := hoffers.lt hm hf hinstance
  have hset (m' : Machine) : _ → _ → _ → m₁.FieldSet m' r f v :=
    Machine.FieldSet.of_putStatics hm hf hinstance hoffers hv
  unfold putField
  refine after_withField hfinds hinstance (after_ifWritable hruns hwrite ?_)
  obtain ⟨hwide, htwo, lo, hi, rfl⟩ | ⟨hnarrow, hone, lo, rfl⟩ := Field.value_cases hwidth hv
  · simp only [hwide, if_true]
    have hruns : m₁.Runs method room ((below ++ [.ref r] ++ [lo]) ++ [hi]) := by simpa using hruns
    refine after_pop_bind hruns fun _ hruns => after_pop_bind hruns fun _ hruns => ?_
    refine after_popRef_bind hruns fun frames hruns => ?_
    simp only [Machine.withFrames_withFrames] at hruns ⊢
    refine after_withReceiver hruns (by simpa using hoffers.tested) (by simpa using hoffers.allowed) ?_
    rw [after_bind_iff]
    have hr₂ : r.index < (m₁.withFrames frames).heap.size := hr
    have hr₃ (fields : Slots) : r.index < ((m₁.withFrames frames).withFields r fields).heap.size := by
      simpa [Machine.withFields] using hr
    refine after_setSlot (by rw [Machine.objectAt_withFrames]; omega) (after_setSlot (i := f.slot + 1) ?_ ?_)
    · rw [Machine.fields_withFields _ hr₂, Array.size_setIfInBounds, Machine.objectAt_withFrames]
      omega
    · refine ⟨hruns, hset _ ?_ (fun r' hne => ?_) rfl⟩
      · rw [Machine.fields_withFields _ (hr₃ _), Machine.fields_withFields _ hr₂]
        rfl
      · rw [Machine.fields_withFields_of_ne _ hne (hr₃ _), Machine.fields_withFields_of_ne _ hne hr₂]
        rfl
  · simp only [hnarrow]
    have hruns : m₁.Runs method room ((below ++ [.ref r]) ++ [lo]) := by simpa using hruns
    refine after_pop_bind hruns fun _ hruns => after_popRef_bind hruns fun frames hruns => ?_
    simp only [Machine.withFrames_withFrames] at hruns ⊢
    refine after_withReceiver hruns (by simpa using hoffers.tested) (by simpa using hoffers.allowed) ?_
    rw [after_bind_iff]
    refine after_setSlot (by rw [Machine.objectAt_withFrames]; omega) ⟨hruns, hset _ ?_ (fun r' hne => ?_) rfl⟩
    · exact Machine.fields_withFields _ hr _
    · exact Machine.fields_withFields_of_ne _ hne hr _

/-- Setting a static field pops the value and puts it into the class. -/
theorem after_putStatic (hm : m₁.Sound) (hf : f ∈ (m₁.classAt f.owner).fields) (hstatic : f.isStatic = true)
    (hfinds : Finds s index m m₁ f) (hruns : m₁.Runs method room (below ++ v)) (hv : v.length = f.width)
    (hwrite : method.MayWrite f Method.clinitName) (hready : m₁.Ready f.owner) :
    After (putStatic s index) m (fun _ m' => m'.Runs method room below ∧ m₁.StaticSet m' f v) fun _ => False := by
  obtain ⟨htiles, hmem⟩ := Machine.tiles_of_static hm hf hstatic
  have hwidth := Machine.width_pos hm hf
  have hstop := htiles.stop_le hmem hwidth
  have hc := Machine.lt_of_mem_fields hf
  have hset (m' : Machine) : _ → _ → _ → m₁.StaticSet m' f v :=
    Machine.StaticSet.of_putStatics hm hf hstatic hv
  unfold putStatic
  refine after_withField hfinds hstatic (after_ifWritable hruns hwrite (Initialization.after_ensure_bind hready ?_))
  simp only [if_true]
  obtain ⟨hwide, htwo, lo, hi, rfl⟩ | ⟨hnarrow, hone, lo, rfl⟩ := Field.value_cases hwidth hv
  · simp only [hwide, if_true]
    have hruns : m₁.Runs method room ((below ++ [lo]) ++ [hi]) := by simpa using hruns
    refine after_pop_bind hruns fun frames hruns => ?_
    rw [after_bind_iff]
    refine after_writeStatic (i := f.slot + 1) (by rw [Machine.classAt_withFrames]; omega) ?_
    refine after_pop_bind (m := (m₁.withFrames frames).withStatics f.owner _) hruns fun frames' hruns => ?_
    have hc₂ (statics : Slots) :
        f.owner.index < (((m₁.withFrames frames).withStatics f.owner statics).withFrames frames').classes.size := by
      simpa [Machine.withStatics] using hc
    have hstatics (statics : Slots) (c : ClassId) :
        (((m₁.withFrames frames).withStatics f.owner statics).withFrames frames').classAt c =
          if f.owner = c then { m₁.classAt c with statics } else m₁.classAt c :=
      Machine.classAt_withStatics (m₁.withFrames frames) hc statics c
    refine after_writeStatic ?_ ⟨hruns, hset _ ?_ (fun c hne => ?_) rfl⟩
    · rw [hstatics, if_pos rfl, Array.size_setIfInBounds, Machine.classAt_withFrames]
      omega
    · rw [Machine.classAt_withStatics _ (hc₂ _), if_pos rfl, hstatics, if_pos rfl]
      exact Array.setIfInBounds_comm _ _ (by omega)
    · rw [Machine.classAt_withStatics _ (hc₂ _), if_neg hne, hstatics, if_neg hne]
  · simp only [hnarrow]
    refine after_pop_bind hruns fun frames hruns => ?_
    refine after_writeStatic (by rw [Machine.classAt_withFrames]; omega) ⟨hruns, hset _ ?_ (fun c hne => ?_) rfl⟩
    · rw [Machine.classAt_withStatics (m₁.withFrames frames) hc, if_pos rfl]
      rfl
    · rw [Machine.classAt_withStatics (m₁.withFrames frames) hc, if_neg hne]
      rfl

/-- Reading a field pops the object and pushes the value of its field. -/
theorem after_getField (hm : m₁.Sound) (hf : f ∈ (m₁.classAt f.owner).fields) (hinstance : f.isStatic = false)
    (hfinds : Finds s index m m₁ f) (hruns : m₁.Runs method room (below ++ [.ref r]))
    (hroom : below.length + f.width ≤ room) (hoffers : m₁.Offers r f method.owner) :
    After (getField s index) m
      (fun _ m' => m'.Runs method room (below ++ m₁.instanceValue r f) ∧ m'.heap = m₁.heap ∧ m'.classes = m₁.classes)
      fun _ => False := by
  obtain ⟨htiles, hmem⟩ := hoffers.tiles hm hf hinstance
  have hwidth := Machine.width_pos hm hf
  have hread (i : Nat) := Slots.getElem?_value (m₁.objectAt r).fields f i
  unfold getField
  refine after_withField hfinds hinstance (after_popRef_bind hruns fun frames hruns => ?_)
  refine after_withReceiver hruns (by simpa using hoffers.tested) (by simpa using hoffers.allowed) ?_
  obtain ⟨hwide, htwo, lo, hi, hv⟩ | ⟨hnarrow, hone, lo, hv⟩ :=
    Field.value_cases hwidth (Slots.length_value (htiles.stop_le hmem hwidth))
  · simp only [hwide, if_true, Machine.instanceValue, hv]
    have hlo := hread 0
    have hhi := hread 1
    rw [hv, htwo] at hlo hhi
    refine after_slotOf_bind (m := m₁.withFrames frames) (i := f.slot) hlo.symm ?_
    rw [after_bind_iff]
    refine after_push hruns (by omega) fun frames hruns => ?_
    refine after_slotOf_bind (m := m₁.withFrames frames) (i := f.slot + 1) hhi.symm ?_
    refine after_push hruns ?_ fun frames hruns => ?_
    · rw [List.length_append, List.length_singleton]
      omega
    · exact ⟨by simpa using hruns, rfl, rfl⟩
  · simp only [hnarrow, Machine.instanceValue, hv]
    have hlo := hread 0
    rw [hv, hone] at hlo
    refine after_slotOf_bind (m := m₁.withFrames frames) (i := f.slot) hlo.symm ?_
    rw [after_bind_iff]
    exact after_push hruns (by omega) fun frames hruns => ⟨hruns, rfl, rfl⟩

/-- Reading a static field pushes its value. -/
theorem after_getStatic (hm : m₁.Sound) (hf : f ∈ (m₁.classAt f.owner).fields) (hstatic : f.isStatic = true)
    (hfinds : Finds s index m m₁ f) (hruns : m₁.Runs method room below) (hroom : below.length + f.width ≤ room)
    (hready : m₁.Ready f.owner) :
    After (getStatic s index) m
      (fun _ m' => m'.Runs method room (below ++ m₁.staticValue f) ∧ m'.heap = m₁.heap ∧ m'.classes = m₁.classes)
      fun _ => False := by
  obtain ⟨htiles, hmem⟩ := Machine.tiles_of_static hm hf hstatic
  have hwidth := Machine.width_pos hm hf
  have hread (i : Nat) := Slots.getElem?_value (m₁.classAt f.owner).statics f i
  unfold getStatic
  refine after_withField hfinds hstatic (Initialization.after_ensure_bind hready ?_)
  simp only [if_true]
  obtain ⟨hwide, htwo, lo, hi, hv⟩ | ⟨hnarrow, hone, lo, hv⟩ :=
    Field.value_cases hwidth (Slots.length_value (htiles.stop_le hmem hwidth))
  · simp only [hwide, if_true, Machine.staticValue, hv]
    have hlo := hread 0
    have hhi := hread 1
    rw [hv, htwo] at hlo hhi
    refine after_readStatic_bind (i := f.slot) hlo.symm ?_
    rw [after_bind_iff]
    refine after_push hruns (by omega) fun frames hruns => ?_
    refine after_readStatic_bind (m := m₁.withFrames frames) (i := f.slot + 1) hhi.symm ?_
    refine after_push hruns ?_ fun frames hruns => ?_
    · rw [List.length_append, List.length_singleton]
      omega
    · exact ⟨by simpa using hruns, rfl, rfl⟩
  · simp only [hnarrow, Machine.staticValue, hv]
    have hlo := hread 0
    rw [hv, hone] at hlo
    refine after_readStatic_bind (i := f.slot) hlo.symm ?_
    rw [after_bind_iff]
    exact after_push hruns (by omega) fun frames hruns => ⟨hruns, rfl, rfl⟩

/-- A field that an entry was resolved to before is found at once. -/
theorem Finds.of_known {a : Activation} {rest : List Frame} {owner name desc : String} {ownerClass : Option ClassId}
    (hframes : m.frames = .active a :: rest)
    (hentry : (m.classAt a.method.owner).pool.getD index .empty = .field owner name desc ownerClass (some f)) :
    Finds s index m m f := by
  have hknown : After (Resolution.fieldEntry s a.method.owner index).run m (fun r m' => r = .ok f ∧ m' = m)
      fun _ => False := by
    unfold Resolution.fieldEntry Resolution.entry
    rw [Attempt.after_bind_iff, Attempt.after_lift_iff, after_bind_iff, after_classAt, hentry]
    exact ⟨rfl, rfl⟩
  unfold After at hknown
  split at hknown
  · next hrun =>
    obtain ⟨rfl, rfl⟩ := hknown
    exact ⟨a, rest, hframes, hrun⟩
  · exact hknown.elim

end Execute

/-! ## All runs -/

/-- In all runs, each class that is no array class shares out its slots among its fields. Where a field instruction
finds a field, the method may write it, and the object offers it or its class is ready, the instruction succeeds: what
is set fits and is the value from then on, what is read is the value, and no other field has another value after. -/
theorem fields_apart {m : Machine} (h : Attained m) (level : Nat) :
    (∀ c, c.index < m.classes.size → (m.classAt c).component = none → m.Tiled c) ∧
    ∀ index m₁ f method room below, Finds (Interpreter.services Natives.standard level) index m m₁ f →
      (∀ r v, f.isStatic = false → m₁.Runs method room (below ++ .ref r :: v) → v.length = f.width →
        method.MayWrite f Method.initName → m₁.Offers r f method.owner →
        After (putField (Interpreter.services Natives.standard level) index) m
          (fun _ m' => m'.Runs method room below ∧ m₁.FieldSet m' r f v) fun _ => False) ∧
      (∀ r, f.isStatic = false → m₁.Runs method room (below ++ [.ref r]) → below.length + f.width ≤ room →
        m₁.Offers r f method.owner →
        After (getField (Interpreter.services Natives.standard level) index) m
          (fun _ m' => m'.Runs method room (below ++ m₁.instanceValue r f) ∧ m'.heap = m₁.heap ∧
            m'.classes = m₁.classes) fun _ => False) ∧
      (∀ v, f.isStatic = true → m₁.Runs method room (below ++ v) → v.length = f.width →
        method.MayWrite f Method.clinitName → m₁.Ready f.owner →
        After (putStatic (Interpreter.services Natives.standard level) index) m
          (fun _ m' => m'.Runs method room below ∧ m₁.StaticSet m' f v) fun _ => False) ∧
      (f.isStatic = true → m₁.Runs method room below → below.length + f.width ≤ room → m₁.Ready f.owner →
        After (getStatic (Interpreter.services Natives.standard level) index) m
          (fun _ m' => m'.Runs method room (below ++ m₁.staticValue f) ∧ m'.heap = m₁.heap ∧
            m'.classes = m₁.classes) fun _ => False) := by
  refine ⟨fun c hc hcomponent => h.sound.tiled hc hcomponent, fun index m₁ f method room below hfinds => ?_⟩
  obtain ⟨hm₁, hf⟩ := hfinds.declared (Interpreter.growing_services level).2 h.sound
  refine ⟨fun r v hinstance hruns hv hwrite hoffers => ?_, fun r hinstance hruns hroom hoffers => ?_,
    fun v hstatic hruns hv hwrite hready => ?_, fun hstatic hruns hroom hready => ?_⟩
  · exact after_putField hm₁ hf hinstance hfinds hruns hv hwrite hoffers
  · exact after_getField hm₁ hf hinstance hfinds hruns hroom hoffers
  · exact after_putStatic hm₁ hf hstatic hfinds hruns hv hwrite hready
  · exact after_getStatic hm₁ hf hstatic hfinds hruns hroom hready

namespace Samples

/-- A class with a number and a long in its objects, of which its initializer makes one, and a static long. -/
def cell : ClassSource := {
  name := "Cell"
  fields := [{ flags := 0, name := "number", desc := "I" }, { flags := 0, name := "wide", desc := "J" },
    { flags := 8, name := "shared", desc := "J" }]
  methods := [{
    flags := 8, name := Method.clinitName, desc := "()V", maxStack := some 3
    body := some [
      .type .new "Cell", .plain .lconst_1, .field .putfield "Cell" "wide" "J",
      .plain .lconst_1, .field .putstatic "Cell" "shared" "J", .plain .vreturn] }] }

/-- The machine in which the initializer ran. -/
def celled : Machine := asked [root, cell] [.load 0 "Cell", .initClass (sample 0)]

/-- The fields of its object. -/
def number : Field := (celled.classAt (sample 0)).fields.head!
def wide : Field := (celled.classAt (sample 0)).fields[1]!

/-- The initializer, before it sets the long to another value. -/
def setting : Activation := {
  method := (celled.classAt (sample 0)).methods.head!
  locals := #[]
  stack := ⟨#[.ref ⟨0⟩, .num 5, .num 7], 3⟩ }

/-- The machine in which the initializer sets the long. -/
def resetting : Machine := { celled with current := 0, frames := [.active setting] }

/-- The root of all classes, with a field. -/
def tagged : ClassSource := { root with fields := [{ flags := 1, name := "tag", desc := "I" }] }

/-- The machine that has loaded a class of arrays, where all objects have a field. -/
def arrayed : Machine :=
  asked [tagged, { name := "java/lang/Cloneable", flags := 0x601 }, { name := "java/io/Serializable", flags := 0x601 }]
    [.load 0 "[I"]

end Samples

open Samples in
/-- The initializer can set the long of its object to another value, and the number of the object stays zero. -/
theorem fields_apart_resetting :
    After (putField (Interpreter.services Natives.standard 12) 11) resetting
      (fun _ m' => m'.instanceValue ⟨0⟩ wide = [.num 5, .num 7] ∧ m'.instanceValue ⟨0⟩ number = [.num 0])
      fun _ => False := by
  have hevents : (resetting.classAt setting.method.owner).pool.getD 11 .empty =
        .field "Cell" "wide" "J" (some (sample 0)) (some wide) ∧
      wide.isStatic = false ∧ wide.width = 2 ∧ wide.flags.isFinal = false ∧
      wide.owner ∈ resetting.lineage (resetting.classOf ⟨0⟩) ∧
      (resetting.classAt (resetting.classOf ⟨0⟩)).component = none ∧ (resetting.objectAt ⟨0⟩).isArray = false ∧
      resetting.receiverHalt? setting.method.owner wide.owner wide.flags ⟨0⟩ = none ∧
      resetting.receiverAllowed setting.method.owner wide.owner wide.flags ⟨0⟩ ∧
      number ∈ resetting.allFields (resetting.classOf ⟨0⟩) ∧ number ≠ wide ∧
      resetting.instanceValue ⟨0⟩ number = [.num 0] := by decide +kernel
  obtain ⟨hentry, hinstance, hwidth, hfinal, hinherited, hplain, hobject, htested, hallowed, hmem, hne,
    hzero⟩ := hevents
  have hattained : Attained resetting := .running 0 _ (attained_asked [root, cell] _)
  have hruns : resetting.Runs setting.method 3 ([] ++ .ref ⟨0⟩ :: [.num 5, .num 7]) :=
    ⟨setting, [], rfl, rfl, rfl, by decide, rfl⟩
  obtain ⟨-, hfields⟩ := fields_apart hattained 12
  obtain ⟨hput, -, -, -⟩ := hfields 11 resetting wide setting.method 3 [] (.of_known rfl hentry)
  refine (hput ⟨0⟩ [.num 5, .num 7] hinstance hruns hwidth.symm (fun h => ?_)
    ⟨hinherited, hplain, hobject, htested, hallowed⟩).mono (fun _ m' hset => ?_) fun _ => id
  · rw [hfinal] at h
    cases h
  · refine ⟨hset.2.value, (hset.2.others ⟨0⟩ number hmem fun h => hne ?_).trans hzero⟩
    exact congrArg Prod.snd h

open Samples in
/-- A class of arrays inherits the field of all objects, but it has no slots for it. -/
theorem array_without_slots :
    (arrayed.loaded? 0 "[I").map (fun c => ((arrayed.classAt c).state, (arrayed.classAt c).component.isSome,
      (arrayed.allFields c).map (·.name), (arrayed.classAt c).instanceSlots)) =
      some (.initialized, true, ["tag"], 0) := by
  decide +kernel

end JavaMachine
