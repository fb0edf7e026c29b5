import JavaMachine.Proofs.Arithmetic.Instructions
import JavaMachine.Proofs.Arrays.Grids
import JavaMachine.Proofs.Descriptor.Grammar
import JavaMachine.Proofs.Loading.Components
import JavaMachine.Proofs.Loading.Remembered
import Mathlib.Data.List.Induction

/-!
Arrays of several dimensions in machines whose classes belong together. The name of an array class tells the kind of its
elements, and the class of its elements, if this is an array class too, has the name without the first bracket. So there
are elements for the arrays at all levels, and the levels are of the classes that the names tell. The counts are taken off
the stack before the class is resolved, and the first one that is negative is thrown before an array is made.

Main result: `Attained.multiArray`.
-/

namespace JavaMachine

open M

/-! ## Names of array classes -/

namespace Machine.Sound

variable {m : Machine} (hm : m.Sound) {c d : ClassId}
include hm

theorem component_valid (hd : (m.classAt c).component = some d) : c.index < m.classes.size ∧ d.index < m.classes.size := by
  have hc : c.index < m.classes.size := by
    refine Nat.lt_of_not_le fun hle => ?_
    rw [classAt_of_le hle] at hd
    cases hd
  exact ⟨hc, Nat.lt_trans ((hm.laid c hc).component d hd) hc⟩

/-- The name of an array class is a bracket and the descriptor of its elements. -/
theorem array_named (hd : (m.classAt c).component = some d) :
    (m.classAt c).name.toList = '[' :: (m.classAt c).element.toList ∧ Descriptor.IsField (m.classAt c).element ∧
      (m.classAt d).DescribedBy (m.classAt c).element := by
  have hlaid := hm.laid c (hm.component_valid hd).1
  have harray := hlaid.array (hd ▸ Option.some_ne_none d)
  refine ⟨?_, (Descriptor.isField_iff _).1 harray.element, (hlaid.element d hd).2⟩
  conv_lhs => rw [append_element harray.name]
  simp

/-- A class of elements that is an array class is not that of a primitive type. -/
theorem primitive_array (hd : (m.classAt d).component ≠ none) : (m.classAt d).primitive = none := by
  obtain ⟨e, he⟩ := Option.ne_none_iff_exists'.1 hd
  have hvalid := (hm.component_valid he).1
  refine Option.eq_none_iff_forall_ne_some.2 fun letter hletter => hd ?_
  obtain ⟨_, _, hlist, -⟩ := List.lookup_eq_some_iff.1 (hm.letters d hvalid letter hletter).2.1
  exact (hm.primitives (m.classAt d).name d (by simp [hlist])).2.2.1

theorem storesArrays : m.StoresArrays where
  elements c n hc := by
    obtain ⟨d, hd⟩ := Option.ne_none_iff_exists'.1 hc
    obtain ⟨hname, hfield, -⟩ := hm.array_named hd
    obtain ⟨letter, rest, hlist, -⟩ := Descriptor.Spells.cons hfield
    rw [hlist] at hname
    refine ⟨Elements.ofLetter letter n, ?_⟩
    rw [Elements.ofClassName?, hname]
    rfl
  refs c d n hd hd' := by
    obtain ⟨hname, hfield, hdescribed⟩ := hm.array_named hd
    rw [Elements.ofClassName?, hname]
    cases hlist : (m.classAt c).element.toList with
    | nil =>
      obtain ⟨_, _, hcons, -⟩ := Descriptor.Spells.cons hfield
      cases hlist.symm.trans hcons
    | cons letter rest =>
      have hletter : letter = 'L' ∨ letter = '[' := by
        rw [Descriptor.IsField, hlist] at hfield
        cases hfield with
        | primitive _ => cases (hm.primitive_array hd').symm.trans (hdescribed.primitive letter hlist)
        | object _ _ => exact .inl rfl
        | array _ => exact .inr rfl
      rcases hletter with rfl | rfl <;> rfl

/-- The class of the elements has the name without the first bracket where there are two. -/
theorem component_named (hd : (m.classAt c).component = some d) (h : List.replicate 2 '[' <+: (m.classAt c).name.toList) :
    (m.classAt c).name.toList = '[' :: (m.classAt d).name.toList := by
  obtain ⟨hname, hfield, hdescribed⟩ := hm.array_named hd
  obtain ⟨rest, hrest⟩ := h
  have helement : (m.classAt c).element.toList = '[' :: rest := (List.cons.inj (hname.symm.trans hrest.symm)).2
  have hlong : ∀ letter, (m.classAt c).element.toList ≠ [letter] := by
    intro letter hletter
    obtain ⟨rfl, rfl⟩ := List.cons.inj (helement.symm.trans hletter)
    rw [Descriptor.IsField, helement] at hfield
    cases hfield with
    | primitive hprimitive => exact absurd hprimitive (by decide)
    | array hnothing => cases hnothing
  have hbracket : (m.classAt c).element.startsWith "[" := String.startsWith_string_iff.2 ⟨rest, helement.symm⟩
  rw [hname, hdescribed.name hlong, Descriptor.toClassName_array hbracket hlong]

/-- A class that is reached through components has the name without as many brackets. -/
theorem componentAt_named {j : Nat} (hd : m.componentAt c j = some d)
    (h : List.replicate (j + 1) '[' <+: (m.classAt c).name.toList) :
    (m.classAt c).name.toList = List.replicate j '[' ++ (m.classAt d).name.toList := by
  induction j generalizing c with
  | zero =>
    cases hd
    rfl
  | succ j ih =>
    obtain ⟨e, he, hrest⟩ := Option.bind_eq_some_iff.1 hd
    have hname := hm.component_named he (List.IsPrefix.trans (by simp [List.replicate_succ]) h)
    rw [hname, List.replicate_succ, List.prefix_cons_inj] at h
    rw [hname, ih hrest h]
    rfl

/-- The class of a name with so many brackets has so many dimensions. -/
theorem isSome_componentAt (hlegal : m.LegalNames) (hc : c.index < m.classes.size) (hloader : (m.classAt c).loader = 0)
    {k : Nat} (h : List.replicate k '[' <+: (m.classAt c).name.toList) : (m.componentAt c k).isSome = true := by
  induction k generalizing c with
  | zero => rfl
  | succ k ih =>
    have harray : (m.classAt c).isArray = true :=
      String.startsWith_string_iff.2 (List.IsPrefix.trans (by simp [List.replicate_succ]) h)
    cases hd : (m.classAt c).component with
    | none =>
      rw [hlegal c hc hloader hd] at harray
      cases harray
    | some d =>
      rw [componentAt, hd]
      cases k with
      | zero => rfl
      | succ k =>
        have hname := hm.component_named hd (List.IsPrefix.trans (by simp [List.replicate_succ]) h)
        rw [hname, List.replicate_succ, List.prefix_cons_inj] at h
        exact ih (hm.component_valid hd).2 (((hm.laid c hc).element d hd).1.trans hloader) h

end Machine.Sound

/-! ## The instruction -/

namespace Execute

open Machine

variable {m : Machine} {a : Activation} {rest : List Frame} {below operands : List Slot}

/-- Counts are taken off the stack, the last one first. -/
theorem takes_popCounts (hframes : m.frames = .active a :: rest) (hstack : a.stack.Carries (below ++ operands))
    (counts : List Int32) (next : List Int32 → M Unit) :
    Takes (popCounts operands.length counts >>= next) (next (operands.map Slot.int ++ counts)) m a rest below := by
  induction operands using List.reverseRecOn generalizing m a counts with
  | nil =>
    rw [List.append_nil] at hstack
    exact ⟨a.stack, hstack, rfl, by rw [Machine.withFrames, ← hframes]; rfl⟩
  | append_singleton operands x ih =>
    have hpops : popCounts (operands ++ [x]).length counts >>= next =
        popInt >>= fun v => popCounts operands.length (v :: counts) >>= next := by
      rw [List.length_append, List.length_singleton, popCounts, bind_assoc]
    rw [← List.append_assoc] at hstack
    rw [hpops]
    refine (takes_popInt hframes hstack _).trans fun m' a' hframes' hstack' => ?_
    rw [List.map_append, List.append_assoc]
    exact ih hframes' hstack' _

/-- What is done with counts once the class is there. -/
def makeArrays (s : Context) (counts : List Int32) (c : ClassId) : M Unit :=
  match counts.find? (· < 0) with
  | some n => negativeSize s n
  | none => do pushRef (some (← newMultiArray c counts))

theorem run_withClass {s : Context} {index : Nat} {c : ClassId} {m' : Machine} (hframes : m.frames = .active a :: rest)
    (h : (Resolution.classEntry s.toServices a.method.owner index).run m = .ok (.ok c) m') (next : ClassId → M Unit) :
    withClass s index next m = next c m' := by
  have hholder : holder m = .ok a.method.owner m := by
    rw [holder, run_bind (show activation m = .ok a m by rw [activation, hframes])]
    rfl
  rw [withClass, run_bind hholder, Context.orThrow, run_bind h]

/-- The counts are taken off the stack, and then the class is resolved. -/
theorem run_newArrays (s : Context) (index : Nat) (hframes : m.frames = .active a :: rest)
    (hstack : a.stack.Carries (below ++ operands)) :
    ∃ stack : OperandStack, stack.Carries below ∧ stack.slots.size = a.stack.slots.size ∧
      ∀ c m', (Resolution.classEntry s.toServices a.method.owner index).run
          (m.withFrames (.active { a with stack } :: rest)) = .ok (.ok c) m' →
        newArrays s index operands.length m = makeArrays s (operands.map Slot.int) c m' := by
  obtain ⟨stack, hcarries, hsize, hrun⟩ :=
    takes_popCounts hframes hstack [] fun counts => withClass s index (makeArrays s counts)
  refine ⟨stack, hcarries, hsize, fun c m' hc => ?_⟩
  have hframes' : (m.withFrames (.active { a with stack } :: rest)).frames = .active { a with stack } :: rest := rfl
  rw [List.append_nil, run_withClass hframes' hc] at hrun
  exact hrun

theorem makeArrays_negative (s : Context) {v : Slot} (h : operands.find? (·.int < 0) = some v) (c : ClassId) :
    makeArrays s (operands.map Slot.int) c = s.throwNew Throwables.negativeSize (toString v.int.toInt) := by
  have hfind : (operands.map Slot.int).find? (· < 0) = some v.int := by
    rw [List.find?_map]
    exact congrArg (Option.map Slot.int) h
  rw [makeArrays, hfind]
  rfl

theorem makeArrays_of_nonneg (s : Context) {counts : List Int32} (h : ∀ n ∈ counts, 0 ≤ n) (c : ClassId) :
    makeArrays s counts c = newMultiArray c counts >>= fun r => pushRef (some r) := by
  have hnone : counts.find? (· < 0) = none := List.find?_eq_none.2 fun n hn => by
    simpa using h n hn
  rw [makeArrays, hnone]

end Execute

/-! ## Arrays that are made -/

open Interpreter in
/-- An array class with a dimension for each count gives an array with the counts as the lengths of its levels, whose
classes are those of the components. Their names are that of the array class without as many brackets, and where no class
file has the name of an array class, an array class of the bootstrap loader has a dimension for each bracket. The
instruction throws the first count that is negative where the class was resolved, and makes no array before. -/
theorem Attained.multiArray {m : Machine} (h : Attained m) :
    (∀ c counts, counts ≠ [] → (∀ n ∈ counts, 0 ≤ n) → (m.componentAt c counts.length).isSome = true →
      ∃ r m', Execute.newMultiArray c counts m = .ok r m' ∧ Execute.Makes m m' c counts r) ∧
    (∀ c j d, m.componentAt c j = some d → List.replicate (j + 1) '[' <+: (m.classAt c).name.toList →
      (m.classAt c).name.toList = List.replicate j '[' ++ (m.classAt d).name.toList) ∧
    (m.LegalNames → ∀ c k, c.index < m.classes.size → (m.classAt c).loader = 0 →
      List.replicate k '[' <+: (m.classAt c).name.toList → (m.componentAt c k).isSome = true) ∧
    ∀ (level : Nat) (raise : Throwing.Raise → M Unit) (index : Nat) (a : Activation) (rest : List Frame)
      (below operands : List Slot), m.frames = .active a :: rest → a.stack.Carries (below ++ operands) →
      ∃ stack : OperandStack, stack.Carries below ∧ stack.slots.size = a.stack.slots.size ∧
        ∀ c m₁, (Resolution.classEntry (services Natives.standard level) a.method.owner index).run
            (m.withFrames (.active { a with stack } :: rest)) = .ok (.ok c) m₁ →
          (∀ v, operands.find? (·.int < 0) = some v →
            execute Natives.standard ⟨services Natives.standard level, raise⟩ (.newMultiArray index operands.length) m =
              raise (.new Throwables.negativeSize (toString v.int.toInt)) m₁) ∧
          (operands ≠ [] → (∀ v ∈ operands, 0 ≤ v.int) → (m₁.componentAt c operands.length).isSome = true →
            ∃ r m₂, Execute.Makes m₁ m₂ c (operands.map Slot.int) r ∧
              execute Natives.standard ⟨services Natives.standard level, raise⟩ (.newMultiArray index operands.length) m =
                pushRef (some r) m₂) := by
  have hm := h.sound
  refine ⟨fun c counts hne hcounts hdim => Execute.makes_newMultiArray hm.storesArrays hne hcounts hdim,
    fun c j d hd hname => hm.componentAt_named hd hname,
    fun hlegal c k hc hloader hname => hm.isSome_componentAt hlegal hc hloader hname, ?_⟩
  intro level raise index a rest below operands hframes hstack
  obtain ⟨stack, hcarries, hsize, hrun⟩ :=
    Execute.run_newArrays ⟨services Natives.standard level, raise⟩ index hframes hstack
  refine ⟨stack, hcarries, hsize, fun c m₁ hc => ⟨fun v hv => ?_, fun hne hcounts hdim => ?_⟩⟩
  · refine (hrun c m₁ hc).trans ?_
    rw [Execute.makeArrays_negative _ hv]
    rfl
  · -- the machine is still sound where the class was resolved
    have hframed : (m.withFrames (.active { a with stack } :: rest)).Sound :=
      (Attained.running m.current (.active { a with stack } :: rest) h).sound
    have hm₁ : m₁.Sound := by
      have hends : Attempt.Ends (Resolution.classEntry (services Natives.standard level) a.method.owner index) _ _ _ :=
        Resolution.ends_classEntry (growing_services level).2 hframed
      have houtcome := hends.outcome
      rw [hc] at houtcome
      exact houtcome.1.sound
    have hcounts' : ∀ n ∈ operands.map Slot.int, 0 ≤ n := List.forall_mem_map.2 hcounts
    rw [← List.length_map Slot.int] at hdim
    obtain ⟨r, m₂, hmade, hmakes⟩ :=
      Execute.makes_newMultiArray hm₁.storesArrays (mt List.map_eq_nil_iff.1 hne) hcounts' hdim
    refine ⟨r, m₂, hmakes, (hrun c m₁ hc).trans ?_⟩
    rw [Execute.makeArrays_of_nonneg _ hcounts', run_bind hmade]

namespace Samples

/-- A class whose initializer makes an array of two dimensions, and what array classes need. -/
def gridMakers : List ClassSource := [
  root, { name := "java/lang/Cloneable", flags := 0x601 }, { name := "java/io/Serializable", flags := 0x601 }, {
  name := "Maker"
  methods := [{
    flags := 8, name := Method.clinitName, desc := "()V", maxStack := some 2
    body := some [.int 2, .int 3, .multiArray "[[I" 2, .plain .vreturn] }] }]

/-- The machine in which the initializer ran. -/
def gridded : Machine := asked gridMakers [.load 0 "Maker", .initClass (sample 0)]

/-- The initializer with two counts, of which the second one is negative. -/
def counting : Activation where
  method := (gridded.classAt (sample 0)).methods.head!
  locals := #[]
  stack := ⟨#[.num 2, .num (-1)], 2⟩

end Samples

open Samples Interpreter in
/-- The class that the instruction of the initializer means gives an array of two arrays of three numbers, and with a
negative count the instruction throws. -/
theorem Attained.multiArray_gridded :
    (gridded.classAt ⟨14⟩).name = "[[I" ∧ (gridded.classAt ⟨13⟩).name = "[I" ∧
      gridded.componentAt ⟨14⟩ 1 = some ⟨13⟩ ∧
      (∃ r m', Execute.newMultiArray ⟨14⟩ [2, 3] gridded = .ok r m' ∧ Execute.Makes gridded m' ⟨14⟩ [2, 3] r) ∧
      ∃ stack : OperandStack, stack.Carries [] ∧
        execute Natives.standard (services Natives.standard 12) (.newMultiArray 6 2)
            (gridded.withFrames [.active counting]) =
          Throwing.raise (services Natives.standard 12) (.new Throwables.negativeSize "-1")
            (gridded.withFrames [.active { counting with stack }]) := by
  have hevents : (gridded.classAt ⟨14⟩).name = "[[I" ∧ (gridded.classAt ⟨13⟩).name = "[I" ∧
      gridded.componentAt ⟨14⟩ 1 = some ⟨13⟩ ∧ (gridded.componentAt ⟨14⟩ 2).isSome = true ∧
      counting.method.owner = sample 0 ∧
      (gridded.classAt (sample 0)).pool.getD 6 .empty = .class "[[I" (some ⟨14⟩) := by decide +kernel
  obtain ⟨hname, hinner, hcomponent, hdim, howner, hentry⟩ := hevents
  have hattained : Attained gridded := attained_asked gridMakers _
  have hcounts : ∀ n ∈ ([2, 3] : List Int32), 0 ≤ n :=
    List.forall_mem_cons.2 ⟨by decide, List.forall_mem_singleton.2 (by decide)⟩
  refine ⟨hname, hinner, hcomponent, (multiArray hattained).1 ⟨14⟩ [2, 3] (List.cons_ne_nil 2 _) hcounts hdim, ?_⟩
  obtain ⟨-, -, -, hinstruction⟩ := multiArray (.running gridded.current [.active counting] hattained)
  obtain ⟨stack, hcarries, -, hruns⟩ := hinstruction 12 (Throwing.raise (services Natives.standard 12)) 6 counting []
    [] [.num 2, .num (-1)] rfl ⟨by decide, rfl⟩
  have hresolved : ((gridded.withFrames [.active { counting with stack }]).classAt counting.method.owner).Remembers 6
      (.class "[[I" (some ⟨14⟩)) := by
    refine ⟨rfl, ?_⟩
    rw [howner]
    exact hentry
  have hthrown := (hruns ⟨14⟩ _ (Resolution.run_classEntry hresolved)).1 (.num (-1)) rfl
  have hmessage : toString (Slot.num (-1)).int.toInt = "-1" := by decide +kernel
  rw [hmessage] at hthrown
  exact ⟨stack, hcarries, hthrown⟩

end JavaMachine
