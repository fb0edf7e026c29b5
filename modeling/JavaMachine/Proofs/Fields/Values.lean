import JavaMachine.Machine.Execute.Field
import JavaMachine.Proofs.Fields.Operands
import JavaMachine.Proofs.Loading.Knowledge
import JavaMachine.Proofs.Machine.Operations
import Mathlib.Data.List.Basic
import Mathlib.Data.List.Pairwise

/-!
Fields and their slots. Fields in a row are a tiling of the slots between their first and their last place, and tilings
that follow each other make one; the instance fields of a class and of all its superclasses are a tiling of the slots of
its objects, and its static fields one of its static variables (`Machine.Sound.tiles`).

The width that places a field and the width that instructions move it with are the same (`Field.width_eq`). A value that is
put where a field has its slots is the value of that field then (`Slots.value_putStatics`), and a field apart from it keeps
its own (`Slots.value_putStatics_of_apart`).
-/

namespace JavaMachine

/-! ## Tilings -/

/-- A field takes a slot. -/
def Field.Takes (f : Field) (i : Nat) : Prop := f.slot ≤ i ∧ i < f.slot + f.width

instance (f : Field) (i : Nat) : Decidable (f.Takes i) := inferInstanceAs (Decidable (_ ∧ _))

/-- No slot is taken by both fields. -/
def Field.Apart (f g : Field) : Prop := ∀ i, f.Takes i → ¬ g.Takes i

instance : Std.Symm Field.Apart := ⟨fun _ _ h i hg hf => h i hf hg⟩

/-- Fields take exactly the slots from one place up to another, and each slot is taken once. -/
structure Tiles (fields : List Field) (start stop : Nat) : Prop where
  apart : fields.Pairwise Field.Apart
  exact : ∀ i, (∃ f ∈ fields, f.Takes i) ↔ start ≤ i ∧ i < stop

namespace Tiles

variable {fields others : List Field} {a b c : Nat} {f g : Field}

/-- Tilings that meet are one tiling together. -/
theorem append (h : Tiles fields b c) (h' : Tiles others a b) (hab : a ≤ b) (hbc : b ≤ c) :
    Tiles (fields ++ others) a c where
  apart := by
    refine List.pairwise_append.2 ⟨h.apart, h'.apart, fun f hf g hg i hfi hgi => ?_⟩
    have habove := (h.exact i).1 ⟨f, hf, hfi⟩
    have hbelow := (h'.exact i).1 ⟨g, hg, hgi⟩
    omega
  exact i := by
    have hor : (∃ f ∈ fields ++ others, f.Takes i) ↔ (∃ f ∈ fields, f.Takes i) ∨ ∃ f ∈ others, f.Takes i := by
      simp only [List.mem_append, or_and_right, exists_or]
    rw [hor, h.exact, h'.exact]
    omega

/-- Two fields of a tiling that are not the same take no slot both. -/
theorem apart_of_ne (h : Tiles fields a b) (hf : f ∈ fields) (hg : g ∈ fields) (hne : f ≠ g) : f.Apart g :=
  h.apart.forall hf hg hne

/-- A field of a tiling ends where the tiling ends, or before. -/
theorem stop_le (h : Tiles fields a b) (hf : f ∈ fields) (hwidth : 0 < f.width) : f.slot + f.width ≤ b := by
  have hlast := (h.exact (f.slot + f.width - 1)).1 ⟨f, hf, by unfold Field.Takes; omega⟩
  omega

end Tiles

/-! ## Fields in a row -/

namespace Placed

variable {fields : List Field} {a b : Nat}

theorem le (h : Placed a b fields) : a ≤ b := by
  induction fields generalizing a with
  | nil => exact Nat.le_of_eq h
  | cons f rest ih => exact Nat.le_trans (Nat.le_add_right ..) (ih h.2)

/-- Fields in a row are a tiling. -/
theorem tiles (h : Placed a b fields) : Tiles fields a b := by
  induction fields generalizing a with
  | nil =>
    subst h
    exact ⟨.nil, fun i => ⟨nofun, fun hi => absurd hi.2 (Nat.not_lt.2 hi.1)⟩⟩
  | cons f rest ih =>
    obtain ⟨hslot, hrest⟩ := h
    have htiles := ih hrest
    have hle := hrest.le
    refine ⟨.cons (fun g hg i hfi hgi => ?_) htiles.apart, fun i => ?_⟩
    · have hbehind := (htiles.exact i).1 ⟨g, hg, hgi⟩
      unfold Field.Takes at hfi
      omega
    · simp only [List.mem_cons, or_and_right, exists_or, exists_eq_left]
      rw [htiles.exact]
      unfold Field.Takes
      omega

end Placed

/-! ## Fields of a class -/

/-- The instance fields that a class declares. -/
def Class.instanceFields (k : Class) : List Field := k.fields.filter (!·.isStatic)

/-- The static fields that a class declares. -/
def Class.staticFields (k : Class) : List Field := k.fields.filter (·.isStatic)

namespace Machine

/-- The instance fields that a class and its superclasses declare. -/
def allFields (m : Machine) (c : ClassId) : List Field :=
  (m.lineage c).flatMap fun k => (m.classAt k).instanceFields

variable {m : Machine} {c : ClassId}

/-- Up the superclasses, which are older, each class adds its fields to the tiling of the next. -/
theorem tiles_lineageWithin (hlaid : ∀ c, c.index < m.classes.size → m.Laid c (m.classAt c)) {n : Nat}
    (hn : c.index ≤ n) (hc : c.index < m.classes.size) (hcomponent : (m.classAt c).component = none) :
    Tiles ((m.lineageWithin n c).flatMap fun k => (m.classAt k).instanceFields) 0 (m.classAt c).instanceSlots := by
  have hown {k : ClassId} (hk : k.index < m.classes.size) (hk' : (m.classAt k).component = none) :
      Placed (m.inherited (m.classAt k)) (m.classAt k).instanceSlots (m.classAt k).instanceFields :=
    (hlaid k hk).own hk'
  have hroot {k : ClassId} (hk : k.index < m.classes.size) (hk' : (m.classAt k).component = none)
      (hsuper : (m.classAt k).super = none) :
      Tiles ([k].flatMap fun k => (m.classAt k).instanceFields) 0 (m.classAt k).instanceSlots := by
    have hplaced := hown hk hk'
    rw [inherited, hsuper] at hplaced
    rw [List.flatMap_singleton]
    exact hplaced.tiles
  induction n generalizing c with
  | zero =>
    refine hroot hc hcomponent (Option.eq_none_iff_forall_ne_some.2 fun s hs => ?_)
    have hlt := ((hlaid c hc).super s hs).1
    omega
  | succ n ih =>
    rw [lineageWithin]
    split
    · next s hs =>
      obtain ⟨hlt, -, hplain⟩ := (hlaid c hc).super s hs
      have habove := ih (c := s) (by omega) (Nat.lt_trans hlt hc) hplain
      have hplaced := hown hc hcomponent
      rw [inherited, hs] at hplaced
      rw [List.flatMap_cons]
      exact hplaced.tiles.append habove (Nat.zero_le _) hplaced.le
    · next hs => exact hroot hc hcomponent hs

/-- How the fields of a class share out its slots: those of the class and of its superclasses together take the slots
of its objects, its own those that it does not inherit, and its static fields take its static variables. -/
structure Tiled (m : Machine) (c : ClassId) : Prop where
  all : Tiles (m.allFields c) 0 (m.classAt c).instanceSlots
  own : Tiles (m.classAt c).instanceFields (m.inherited (m.classAt c)) (m.classAt c).instanceSlots
  static : Tiles (m.classAt c).staticFields 0 (m.classAt c).statics.size

/-- The slots of each class that is no array class are shared out among fields. -/
theorem Sound.tiled (h : m.Sound) (hc : c.index < m.classes.size) (hcomponent : (m.classAt c).component = none) :
    m.Tiled c where
  all := tiles_lineageWithin h.laid (Nat.le_of_lt hc) hc hcomponent
  own := ((h.laid c hc).own hcomponent).tiles
  static := (h.laid c hc).static.tiles

/-- The static fields of an array class are a tiling as well, for it has none. -/
theorem Sound.tiles_static (h : m.Sound) (hc : c.index < m.classes.size) :
    Tiles (m.classAt c).staticFields 0 (m.classAt c).statics.size := (h.laid c hc).static.tiles

end Machine

open M Linking

/-! ## Widths -/

/-- A field that takes slots takes two if it is wide, and else one. -/
theorem Field.width_eq {f : Field} (h : 0 < f.width) : f.width = if f.isWide then 2 else 1 := by
  unfold width Descriptor.slotWidth isWide at *
  split at h
  · exact absurd h (Nat.lt_irrefl 0)
  · next c rest heq =>
    rw [heq]
    simp only [Bool.or_eq_true, beq_iff_eq]
    split
    · rfl
    · next hnarrow =>
      rw [if_neg hnarrow] at h
      split
      · next hvoid =>
        rw [if_pos hvoid] at h
        cases h
      · rfl

/-- A value of a wide field has two slots, and one of another field has one. -/
theorem Field.value_cases {f : Field} (hwidth : 0 < f.width) {v : List Slot} (hv : v.length = f.width) :
    (f.isWide = true ∧ f.width = 2 ∧ ∃ lo hi, v = [lo, hi]) ∨ (f.isWide = false ∧ f.width = 1 ∧ ∃ lo, v = [lo]) := by
  have heq := Field.width_eq hwidth
  cases hwide : f.isWide with
  | true =>
    rw [hwide, if_pos rfl] at heq
    exact .inl ⟨rfl, heq, List.length_eq_two.1 (hv.trans heq)⟩
  | false =>
    rw [hwide, if_neg Bool.false_ne_true] at heq
    exact .inr ⟨rfl, heq, List.length_eq_one_iff.1 (hv.trans heq)⟩

/-! ## Slot vectors -/

namespace Slots

variable {s s' : Slots} {f g : Field} {v : List Slot}

/-- The value of a field: the slots that it takes. -/
def value (s : Slots) (f : Field) : List Slot := (s.toList.drop f.slot).take f.width

theorem getElem?_value (s : Slots) (f : Field) (i : Nat) :
    (s.value f)[i]? = if i < f.width then s[f.slot + i]? else none := by
  rw [value, List.getElem?_take]
  split
  · rw [List.getElem?_drop, Array.getElem?_toList]
  · rfl

theorem length_value (h : f.slot + f.width ≤ s.size) : (s.value f).length = f.width := by
  rw [value, List.length_take, List.length_drop, Array.length_toList]
  omega

/-- Slot vectors that agree where a field is have the same value of it. -/
theorem value_congr (h : ∀ i, f.Takes i → s'[i]? = s[i]?) : s'.value f = s.value f := by
  refine List.ext_getElem? fun i => ?_
  rw [getElem?_value, getElem?_value]
  split
  · exact h _ ⟨Nat.le_add_right .., by omega⟩
  · rfl

/-- Slots that are put somewhere are there, and no others are touched. -/
theorem getElem?_putStatics (s : Slots) (start : Nat) (v : List Slot) (h : start + v.length ≤ s.size) (i : Nat) :
    (putStatics s start v)[i]? = if start ≤ i ∧ i < start + v.length then v[i - start]? else s[i]? := by
  induction v generalizing s start with
  | nil =>
    rw [if_neg (by rw [List.length_nil]; omega)]
    rfl
  | cons w rest ih =>
    rw [List.length_cons] at h ⊢
    rw [putStatics, ih _ _ (by rw [Array.size_setIfInBounds]; omega)]
    by_cases hi : start = i
    · subst hi
      rw [if_neg (by omega), if_pos (by omega), Array.getElem?_setIfInBounds_self_of_lt (by omega), Nat.sub_self]
      rfl
    · rw [Array.getElem?_setIfInBounds_ne hi]
      by_cases hin : start + 1 ≤ i ∧ i < start + 1 + rest.length
      · rw [if_pos hin, if_pos (by omega), show i - start = i - (start + 1) + 1 by omega]
        rfl
      · rw [if_neg hin, if_neg (by omega)]

theorem value_putStatics (h : f.slot + f.width ≤ s.size) (hv : v.length = f.width) :
    (putStatics s f.slot v).value f = v := by
  refine List.ext_getElem? fun i => ?_
  rw [getElem?_value, getElem?_putStatics s f.slot v (hv ▸ h)]
  split
  · rw [if_pos (by omega), Nat.add_sub_cancel_left]
  · exact (List.getElem?_eq_none (by omega)).symm

theorem value_putStatics_of_apart (h : f.slot + f.width ≤ s.size) (hv : v.length = f.width) (hg : f.Apart g) :
    (putStatics s f.slot v).value g = s.value g := by
  refine value_congr fun i hi => ?_
  rw [getElem?_putStatics s f.slot v (hv ▸ h)]
  exact if_neg fun htaken => hg i ⟨htaken.1, hv ▸ htaken.2⟩ hi

theorem read_eq {i : Nat} {w : Slot} (h : s[i]? = some w) : read i s = .ok w s := by
  rw [read, if_neg (by omega), Int.toNat_natCast, h]

theorem write_eq {i : Nat} {w : Slot} (h : i < s.size) : write i w s = .ok () (s.setIfInBounds i w) := by
  rw [write, if_neg (by omega), Int.toNat_natCast, if_pos h]

end Slots

/-! ## Objects and classes -/

namespace Machine

variable (m : Machine)

/-- The value of an object's field. -/
def instanceValue (r : Ref) (f : Field) : List Slot := (m.objectAt r).fields.value f

/-- The value of a static field. -/
def staticValue (f : Field) : List Slot := (m.classAt f.owner).statics.value f

/-- The machine with other slots in an object. -/
def withFields (r : Ref) (fields : Slots) : Machine :=
  { m with heap := m.heap.modify r.index fun o => { o with fields } }

/-- The machine with other static variables in a class. -/
def withStatics (c : ClassId) (statics : Slots) : Machine :=
  { m with classes := m.classes.modify c.index fun k => { k with statics } }

theorem objectAt_withFields {r : Ref} (hr : r.index < m.heap.size) (fields : Slots) (r' : Ref) :
    (m.withFields r fields).objectAt r' = if r = r' then { m.objectAt r' with fields } else m.objectAt r' := by
  refine (objectAt_modify m r r' fun o => { o with fields }).trans ?_
  by_cases h : r = r'
  · rw [if_pos ⟨h, hr⟩, if_pos h]
  · rw [if_neg fun h' => h h'.1, if_neg h]

theorem fields_withFields {r : Ref} (hr : r.index < m.heap.size) (fields : Slots) :
    ((m.withFields r fields).objectAt r).fields = fields := by
  rw [objectAt_withFields m hr, if_pos rfl]

theorem fields_withFields_of_ne {r r' : Ref} (hne : r ≠ r') (hr : r.index < m.heap.size) (fields : Slots) :
    ((m.withFields r fields).objectAt r').fields = (m.objectAt r').fields := by
  rw [objectAt_withFields m hr, if_neg hne]

theorem classAt_withStatics {c : ClassId} (hc : c.index < m.classes.size) (statics : Slots) (k : ClassId) :
    (m.withStatics c statics).classAt k = if c = k then { m.classAt k with statics } else m.classAt k := by
  refine (classAt_modify m c k fun k => { k with statics }).trans ?_
  by_cases hck : c = k
  · rw [if_pos ⟨hck, hc⟩, if_pos hck]
  · rw [if_neg fun h => hck h.1, if_neg hck]

end Machine

namespace M

variable {α : Type} {m : Machine} {Q : α → Machine → Prop} {H : Machine → Prop}

theorem after_slotOf_bind {r : Ref} {i : Nat} {w : Slot} (h : (m.objectAt r).fields[i]? = some w)
    {next : Slot → M α} (hnext : After (next w) m Q H) : After (slotOf r i >>= next) m Q H := by
  rw [after_bind_iff, slotOf, after_bind_iff, after_objectAt, Slots.read_eq h]
  exact hnext

theorem after_setSlot {Q : Unit → Machine → Prop} {r : Ref} {i : Nat} {w : Slot}
    (h : i < (m.objectAt r).fields.size)
    (hQ : Q () (m.withFields r ((m.objectAt r).fields.setIfInBounds i w))) : After (setSlot r i w) m Q H := by
  rw [setSlot, after_bind_iff, after_objectAt, Slots.write_eq h]
  exact hQ

theorem after_readStatic_bind {c : ClassId} {i : Nat} {w : Slot} (h : (m.classAt c).statics[i]? = some w)
    {next : Slot → M α} (hnext : After (next w) m Q H) :
    After (Execute.onStatics c (Slots.read i) >>= next) m Q H := by
  -- the static variables are written back as they were read
  have hsame : m.classes.modify c.index (fun k => { k with statics := (m.classAt c).statics }) = m.classes := by
    refine Array.ext (Array.size_modify ..) fun j hj hj' => ?_
    have hkeep (hc : c.index = j) : { m.classes[j] with statics := (m.classAt c).statics } = m.classes[j] := by
      simp [Machine.classAt, hc, hj']
    rw [Array.getElem_modify]
    split
    · next hc => exact hkeep hc
    · rfl
  refine after_bind_of_eq ?_ hnext
  rw [Execute.onStatics, Slots.read_eq h]
  simp only [hsame]

theorem after_writeStatic {Q : Unit → Machine → Prop} {c : ClassId} {i : Nat} {w : Slot}
    (h : i < (m.classAt c).statics.size)
    (hQ : Q () (m.withStatics c ((m.classAt c).statics.setIfInBounds i w))) :
    After (Execute.onStatics c (Slots.write i w)) m Q H := by
  have hrun : Execute.onStatics c (Slots.write i w) m =
      .ok () (m.withStatics c ((m.classAt c).statics.setIfInBounds i w)) := by
    rw [Execute.onStatics, Slots.write_eq h]
    rfl
  rw [After, hrun]
  exact hQ

end M

end JavaMachine
