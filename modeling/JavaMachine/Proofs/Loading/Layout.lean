import JavaMachine.Proofs.Machine.Fit
import JavaMachine.Proofs.Machine.Lookups

/-!
How a class is laid out over its superclass, and the parts of one that comes from a class file. Fields are `Placed` where
each takes its slots right behind those before it, and a class is `Laid` if its instance fields are placed behind the slots
of the superclass, its static fields from slot 0 on, and its supertypes are older and have the names that the class file
declares. Main results: `placed_layOut`, for the loop over the fields, and `Laid.mono`, that a class stays laid;
`gives_ofFile`, what a class has from its file and how the file can fail; and `laid_placed`, that the class is laid once its
fields have their places.
-/

namespace JavaMachine

/-! ## Fields in a row -/

/-- Fields that take their slots one after the other, from one place up to another. -/
def Placed : (start stop : Nat) → List Field → Prop
  | start, stop, [] => start = stop
  | start, stop, f :: rest => f.slot = start ∧ Placed (start + f.width) stop rest

/-- The loop over the fields places instance fields and static fields, each in a row of its own. -/
theorem placed_layOut (i s : Nat) (fields : List Field) :
    Placed i (layOut i s fields).2.1 ((layOut i s fields).1.filter (!·.isStatic)) ∧
      Placed s (layOut i s fields).2.2 ((layOut i s fields).1.filter (·.isStatic)) := by
  induction fields generalizing i s with
  | nil => exact ⟨rfl, rfl⟩
  | cons f rest ih =>
    by_cases hf : f.isStatic
    · obtain ⟨hown, hstatic⟩ := ih i (s + f.width)
      have hslot : Field.isStatic { f with slot := s } = true := hf
      simp only [layOut, hf, if_true]
      rw [List.filter_cons_of_neg (by simp [hslot]), List.filter_cons_of_pos hslot]
      exact ⟨hown, rfl, hstatic⟩
    · obtain ⟨hown, hstatic⟩ := ih (i + f.width) s
      have hslot : Field.isStatic { f with slot := i } = false := Bool.eq_false_iff.2 hf
      simp only [layOut, hf]
      rw [if_neg (by simp), List.filter_cons_of_pos (by simp [hslot]), List.filter_cons_of_neg (by simp [hslot])]
      exact ⟨⟨rfl, hown⟩, hstatic⟩

/-- A place is all that the loop changes of a field. -/
theorem exists_of_mem_layOut {i s : Nat} {fields : List Field} {f : Field} (h : f ∈ (layOut i s fields).1) :
    ∃ g ∈ fields, ∃ slot, f = { g with slot } := by
  induction fields generalizing i s with
  | nil => cases h
  | cons g rest ih =>
    simp only [layOut] at h
    split at h
    all_goals
      rcases List.mem_cons.1 h with rfl | h
      · exact ⟨g, List.mem_cons_self, _, rfl⟩
      · obtain ⟨g', hg', hf⟩ := ih h
        exact ⟨g', List.mem_cons_of_mem _ hg', hf⟩

/-- Only `void` takes no slot, and no field is of that type. -/
theorem Descriptor.slotWidth_pos {desc : String} (h : Descriptor.isField desc) : 0 < Descriptor.slotWidth desc := by
  unfold isField at h
  unfold slotWidth
  cases hd : desc.toList with
  | nil => simp [hd, splitField?] at h
  | cons c rest =>
    by_cases hv : c = 'V'
    · subst hv
      simp [hd, splitField?, isPrimitiveLetter] at h
    · simp only [hv, if_false]
      split <;> decide

/-! ## Classes over their superclasses -/

/-- How many slots a class inherits. -/
def Machine.inherited (m : Machine) (k : Class) : Nat := (k.super.map fun s => (m.classAt s).instanceSlots).getD 0

/-- The field descriptor in the name of an array class. -/
def Class.element (k : Class) : String := (k.name.drop 1).toString

/-- A class of arrays: it is named for its elements, is final, has no fields, extends the class of objects and implements
the two interfaces of arrays. -/
structure Class.OfArrays (k : Class) : Prop where
  final : k.isFinal
  interface : k.isInterface = false
  fields : k.fields = []
  name : k.name.startsWith "["
  element : Descriptor.isField k.element
  superName : k.superName = Machine.objectName
  interfaceNames : k.interfaceNames = ["java/lang/Cloneable", "java/io/Serializable"]

/-- The keyword of a primitive type is no name of an array class, and its letter is its descriptor. -/
theorem Descriptor.of_primitiveName? {letter : Char} {name : String} (h : primitiveName? letter = some name) :
    name.startsWith "[" = false ∧ primitiveLetter? name = some letter ∧ ofClassName name = String.singleton letter := by
  have hall : ∀ p ∈ primitives, p.2.startsWith "[" = false ∧ primitiveLetter? p.2 = some p.1 ∧
      ofClassName p.2 = String.singleton p.1 := by decide +kernel
  obtain ⟨_, _, hlist, -⟩ := List.lookup_eq_some_iff.1 h
  exact hall (letter, name) (hlist ▸ List.mem_append_right _ List.mem_cons_self)

/-- A class is what a field descriptor means: the primitive class of a letter, or a class of the name that is meant. -/
structure Class.DescribedBy (k : Class) (desc : String) : Prop where
  primitive : ∀ letter, desc.toList = [letter] → k.primitive = some letter
  name : (∀ letter, desc.toList ≠ [letter]) → k.name = Descriptor.toClassName desc

theorem Class.DescribedBy.same {k k' : Class} {desc : String} (h : k.DescribedBy desc)
    (hprimitive : k'.primitive = k.primitive) (hname : k'.name = k.name) : k'.DescribedBy desc :=
  ⟨fun letter hletter => hprimitive.trans (h.primitive letter hletter), fun hlong => hname.trans (h.name hlong)⟩

/-- The supertypes of a class that is no array class are of the right kind. Only the class of objects has no superclass,
and it is the superclass of interfaces. -/
structure Machine.Kinds (m : Machine) (k : Class) : Prop where
  root : k.super = none ↔ k.name = objectName
  super : ∀ s, k.super = some s →
    (m.classAt s).isInterface = false ∧ (k.isInterface → (m.classAt s).name = objectName)
  interfaces : ∀ i ∈ k.interfaces, (m.classAt i).isInterface

/-- A class that belongs at a place in the table of classes. -/
structure Machine.Laid (m : Machine) (c : ClassId) (k : Class) : Prop where
  super : ∀ s, k.super = some s →
    s.index < c.index ∧ (m.classAt s).name = k.superName ∧ (m.classAt s).component = none
  root : k.super = none → k.superName = ""
  interfaces : ∀ i ∈ k.interfaces, i.index < c.index
  interfaceNames : k.interfaces.map (fun i => (m.classAt i).name) = k.interfaceNames
  widths : ∀ f ∈ k.fields, 0 < f.width
  own : k.component = none → Placed (m.inherited k) k.instanceSlots (k.fields.filter (!·.isStatic))
  static : Placed 0 k.statics.size (k.fields.filter (·.isStatic))
  component : ∀ d, k.component = some d → d.index < c.index
  array : k.component ≠ none → k.OfArrays
  kinds : k.component = none → k.primitive = none → m.Kinds k
  element : ∀ d, k.component = some d →
    (m.classAt d).loader = k.loader ∧ (m.classAt d).DescribedBy k.element

theorem Machine.Kinds.mono {a b : Machine} {k : Class} (h : a.Kinds k) (hs : Succeeds a b)
    (hold : ∀ d ∈ k.supertypes, d.index < a.classes.size) : b.Kinds k := by
  have part {α : Type} {d : ClassId} (hd : d ∈ k.supertypes) (f : Class → α) (hf : ∀ k : Class, f k.plan = f k) :
      f (b.classAt d) = f (a.classAt d) := hs.part (hold d hd) f hf
  refine ⟨h.root, fun s hsuper => ?_, fun i hi => ?_⟩
  · have hs : s ∈ k.supertypes := List.mem_append_left _ (Option.mem_toList.2 hsuper)
    rw [part hs Class.isInterface fun _ => rfl, part hs Class.name fun _ => rfl]
    exact h.super s hsuper
  · rw [part (List.mem_append_right _ hi) Class.isInterface fun _ => rfl]
    exact h.interfaces i hi

theorem Machine.Laid.follows {m : Machine} {c : ClassId} {k : Class} (h : m.Laid c k) : k.Follows c :=
  ⟨fun s hs => (h.super s hs).1, h.interfaces, h.component⟩

theorem Machine.Laid.of_plan {m : Machine} {c : ClassId} {k k' : Class} (h : m.Laid c k) (hk : k'.plan = k.plan) :
    m.Laid c k' := by
  have hsize := Class.size_statics_of_plan hk
  have part {α : Type} (f : Class → α) (hf : ∀ k : Class, f k.plan = f k) : f k' = f k := Class.of_plan f hf hk
  have hsuper : k'.super = k.super := part Class.super fun _ => rfl
  have hfields : k'.fields = k.fields := part Class.fields fun _ => rfl
  have hsuperName : k'.superName = k.superName := part Class.superName fun _ => rfl
  have hinterfaces : k'.interfaces = k.interfaces := part Class.interfaces fun _ => rfl
  have hinterfaceNames : k'.interfaceNames = k.interfaceNames := part Class.interfaceNames fun _ => rfl
  have hslots : k'.instanceSlots = k.instanceSlots := part Class.instanceSlots fun _ => rfl
  have hcomponent : k'.component = k.component := part Class.component fun _ => rfl
  have hinherited : m.inherited k' = m.inherited k := by rw [inherited, hsuper, inherited]
  refine ⟨?_, ?_, ?_, ?_, ?_, ?_, ?_, ?_, fun harray => ?_, fun hclass hprimitive => ?_, ?_⟩
  · rw [hsuper, hsuperName]
    exact h.super
  · rw [hsuper, hsuperName]
    exact h.root
  · rw [hinterfaces]
    exact h.interfaces
  · rw [hinterfaces, hinterfaceNames]
    exact h.interfaceNames
  · rw [hfields]
    exact h.widths
  · rw [hcomponent, hinherited, hslots, hfields]
    exact h.own
  · rw [hsize, hfields]
    exact h.static
  · rw [hcomponent]
    exact h.component
  · have ho := h.array (hcomponent ▸ harray)
    refine ⟨?_, ?_, hfields.trans ho.fields, ?_, ?_, hsuperName.trans ho.superName,
      hinterfaceNames.trans ho.interfaceNames⟩
    · exact (part Class.isFinal fun _ => rfl).trans ho.final
    · exact (part Class.isInterface fun _ => rfl).trans ho.interface
    · exact (part (fun k => k.name.startsWith "[") fun _ => rfl).trans ho.name
    · exact (part (fun k => Descriptor.isField k.element) fun _ => rfl).trans ho.element
  · have hk := h.kinds (hcomponent ▸ hclass) ((part Class.primitive fun _ => rfl) ▸ hprimitive)
    refine ⟨?_, ?_, ?_⟩
    · rw [hsuper, part Class.name fun _ => rfl]
      exact hk.root
    · rw [hsuper, part Class.isInterface fun _ => rfl]
      exact hk.super
    · rw [hinterfaces]
      exact hk.interfaces
  · rw [hcomponent, part Class.loader fun _ => rfl, part Class.element fun _ => rfl]
    exact h.element

/-- A class stays laid, for its supertypes are older and keep their plans. -/
theorem Machine.Laid.mono {a b : Machine} {c : ClassId} {k : Class} (h : a.Laid c k)
    (hc : c.index ≤ a.classes.size) (hs : Succeeds a b) : b.Laid c k := by
  have hold {d : ClassId} (hd : d.index < c.index) : d.index < a.classes.size := Nat.lt_of_lt_of_le hd hc
  have hinherited : b.inherited k = a.inherited k := by
    unfold inherited
    cases hsuper : k.super with
    | none => rfl
    | some s => exact hs.instanceSlots (hold (h.super s hsuper).1)
  have hkinds (hk : a.Kinds k) : b.Kinds k := by
    refine hk.mono hs fun d hd => hold ?_
    rcases List.mem_append.1 hd with hd | hd
    · exact (h.super d (Option.mem_toList.1 hd)).1
    · exact h.interfaces d hd
  refine ⟨fun s hsuper => ?_, h.root, h.interfaces, ?_, h.widths, ?_, h.static, h.component, h.array,
    fun hclass hprimitive => hkinds (h.kinds hclass hprimitive), fun d hd => ?_⟩
  · obtain ⟨hlt, hsname, hcomponent⟩ := h.super s hsuper
    exact ⟨hlt, (hs.name (hold hlt)).trans hsname, (hs.component (hold hlt)).trans hcomponent⟩
  · rw [← h.interfaceNames]
    exact List.map_congr_left fun i hi => hs.name (hold (h.interfaces i hi))
  · rw [hinherited]
    exact h.own
  · have hlt := hold (h.component d hd)
    obtain ⟨hloader, hdescribed⟩ := h.element d hd
    exact ⟨(hs.loader hlt).trans hloader, hdescribed.same (hs.primitive hlt) (hs.name hlt)⟩

/-! ## Results -/

/-- Something holds of the value of a result, or something of its error. -/
def Gives {ε α : Type} (r : Except ε α) (P : α → Prop) (E : ε → Prop) : Prop :=
  match r with
  | .ok a => P a
  | .error e => E e

section results

variable {ε ε' α β : Type} {P : α → Prop} {Q : β → Prop} {E : ε → Prop} {E' : ε' → Prop}

theorem Gives.bind {r : Except ε α} {f : α → Except ε β} (h : Gives r P E) (hf : ∀ a, P a → Gives (f a) Q E) :
    Gives (r >>= f) Q E := by
  cases r with
  | ok a => exact hf a h
  | error e => exact h

theorem Gives.mapError {r : Except ε α} {f : ε → ε'} (h : Gives r P E) (hf : ∀ e, E e → E' (f e)) :
    Gives (r.mapError f) P E' := by
  cases r with
  | ok a => exact h
  | error e => exact hf e h

theorem gives_mapM {as : List α} {f : α → Except ε β} (h : ∀ a ∈ as, Gives (f a) Q E) :
    Gives (as.mapM f) (fun bs => ∀ b ∈ bs, Q b) E := by
  induction as with
  | nil => exact nofun
  | cons a rest ih =>
    rw [List.mapM_cons]
    refine (h a List.mem_cons_self).bind fun b hb => ?_
    refine (ih fun a' ha' => h a' (List.mem_cons_of_mem _ ha')).bind fun bs hbs => ?_
    exact List.forall_mem_cons.2 ⟨hb, hbs⟩

theorem gives_array_mapM {as : Array α} {f : α → Except ε β} (h : ∀ a ∈ as, Gives (f a) Q E) :
    Gives (as.mapM f) (fun bs => ∀ b ∈ bs, Q b) E := by
  rw [Array.mapM_eq_mapM_toList]
  refine (gives_mapM fun a ha => h a (Array.mem_toList_iff.1 ha)).bind fun bs hbs => ?_
  intro b hb
  exact hbs b (List.mem_toArray.1 hb)

end results

/-! ## Parts -/

/-- A failure of a class file: it breaks a rule of the format. -/
def Failure.IsFormat (f : Failure) : Prop := ∃ message cause, f = .java Throwables.classFormat message cause

/-- A class file breaks a rule of the format, or an index in it is outside its pool. -/
def PoolFault.IsFormat : PoolFault → Prop
  | .failure f => f.IsFormat
  | .outside _ _ => True

/-- A new entry of a pool is resolved to nothing. -/
theorem PoolEntry.gives_ofConstant (owner : String) (pool : ConstantPool) (i : Nat) (c : Option Constant) :
    Gives (ofConstant owner pool i c) (fun e => e.unresolved = e) PoolFault.IsFormat := by
  have hformat (message : String) (cause : Option Failure) :
      PoolFault.IsFormat (.failure (.java Throwables.classFormat message cause)) := ⟨_, _, rfl⟩
  rcases c with _ | c
  · rfl
  · cases c with
    | string t =>
      rw [ofConstant]
      split
      · exact trivial
      · split
        · rfl
        · exact hformat _ _
      · exact hformat _ _
    | «class» n =>
      rw [ofConstant]
      split
      · rfl
      · exact hformat _ _
    | member kind c n =>
      rw [ofConstant]
      split
      · cases kind <;> rfl
      · exact hformat _ _
    | _ => rfl

theorem PoolEntry.gives_ofPool (owner : String) (pool : ConstantPool) :
    Gives (ofPool owner pool) (fun es => ∀ e ∈ es, e.unresolved = e) PoolFault.IsFormat := by
  refine gives_array_mapM fun ⟨c, i⟩ _ => ?_
  dsimp only
  split
  · rfl
  · exact gives_ofConstant owner pool i c

theorem Field.gives_ofInfo (owner : String) (info : MemberInfo) :
    Gives (ofInfo owner info) (fun f => Descriptor.isField f.desc) Failure.IsFormat := by
  unfold ofInfo
  split
  · next h => exact h
  · exact ⟨_, _, rfl⟩

/-- A method of a class file suits its descriptor. A native method has local variables for its arguments, and code
with fewer is refused. -/
theorem Method.gives_ofInfo (owner : String) (pool : ConstantPool) (info : MemberInfo) :
    Gives (ofInfo owner pool info) Suits Failure.IsFormat := by
  unfold ofInfo
  dsimp only
  split
  · exact ⟨_, _, rfl⟩
  · next type htype =>
    split
    · exact ⟨⟨type, htype, rfl⟩, fun _ => Nat.le_refl _⟩
    · split
      · split
        · exact ⟨_, _, rfl⟩
        · next hroom =>
          split
          · exact ⟨_, _, rfl⟩
          · exact ⟨⟨type, htype, rfl⟩, fun _ => Nat.not_lt.1 hroom⟩
      · split
        · next habstract => exact ⟨⟨type, htype, rfl⟩, fun h => absurd habstract (ne_true_of_eq_false h)⟩
        · exact ⟨_, _, rfl⟩

/-! ## Classes -/

/-- What a class has from its class file. -/
structure Class.OfFile (l : Nat) (cf : ClassFile) (k : Class) : Prop where
  name : k.name = cf.className
  loader : k.loader = l
  superName : k.superName = cf.superName
  interfaceNames : k.interfaceNames = cf.interfaceNames
  component : k.component = none
  primitive : k.primitive = none
  fields : ∀ f ∈ k.fields, Descriptor.isField f.desc
  methods : ∀ method ∈ k.methods, method.Suits
  pool : ∀ e ∈ k.pool, e.unresolved = e

theorem Class.gives_ofFile (l : Nat) (cf : ClassFile) : Gives (ofFile l cf) (OfFile l cf) PoolFault.IsFormat := by
  unfold ofFile
  refine (PoolEntry.gives_ofPool cf.className cf.pool).bind fun pool hpool => ?_
  have hfields := gives_mapM fun info (_ : info ∈ cf.fields) => Field.gives_ofInfo cf.className info
  have hmethods := gives_mapM fun info (_ : info ∈ cf.methods) => Method.gives_ofInfo cf.className cf.pool info
  refine (hfields.mapError (f := PoolFault.failure) fun _ => id).bind fun fields hfields => ?_
  refine (hmethods.mapError (f := PoolFault.failure) fun _ => id).bind fun methods hmethods => ?_
  exact ⟨rfl, rfl, rfl, rfl, rfl, rfl, hfields, hmethods, hpool⟩

/-- A class with its number in its members owns them. -/
theorem Class.owns_placed {k : Class} (h : ∀ method ∈ k.methods, method.Suits) (c : ClassId) (inherited : Nat) :
    (k.placed c inherited).Owns c where
  fields f hf := by
    obtain ⟨_, hg, _, rfl⟩ := exists_of_mem_layOut hf
    obtain ⟨_, -, rfl⟩ := List.mem_map.1 hg
    rfl
  methods method hmethod := by
    obtain ⟨original, horiginal, rfl⟩ := List.mem_map.1 hmethod
    exact ⟨rfl, (h original horiginal).slots, (h original horiginal).locals⟩

/-- A class of a class file is laid once its fields have their places, if its supertypes are those it declares. -/
theorem Machine.laid_placed {m : Machine} {k : Class} {c : ClassId} (hcomponent : k.component = none)
    (hfields : ∀ f ∈ k.fields, Descriptor.isField f.desc)
    (hsuper : ∀ s, k.super = some s → s.index < c.index ∧ (m.classAt s).name = k.superName ∧
      (m.classAt s).component = none)
    (hroot : k.super = none → k.superName = "") (hinterfaces : ∀ i ∈ k.interfaces, i.index < c.index)
    (hnames : k.interfaces.map (fun i => (m.classAt i).name) = k.interfaceNames) (hkinds : m.Kinds k) :
    m.Laid c (k.placed c (m.inherited k)) := by
  obtain ⟨hown, hstatic⟩ := placed_layOut (m.inherited k) 0 (k.fields.map ({ · with owner := c }))
  refine ⟨hsuper, hroot, hinterfaces, hnames, fun f hf => ?_, fun _ => hown, ?_, fun d hd => ?_,
    fun h => absurd hcomponent h, fun _ _ => ⟨hkinds.root, hkinds.super, hkinds.interfaces⟩, fun d hd => ?_⟩
  · obtain ⟨g, hg, slot, rfl⟩ := exists_of_mem_layOut hf
    obtain ⟨g', hg', rfl⟩ := List.mem_map.1 hg
    exact Descriptor.slotWidth_pos (hfields g' hg')
  · have hsize : (k.placed c (m.inherited k)).statics.size =
        (layOut (m.inherited k) 0 (k.fields.map ({ · with owner := c }))).2.2 := by
      simp [Class.placed, Slots.ofSize]
    rw [hsize]
    exact hstatic
  all_goals
    have hnone : (k.placed c (m.inherited k)).component = none := hcomponent
    rw [hnone] at hd
    cases hd

end JavaMachine
