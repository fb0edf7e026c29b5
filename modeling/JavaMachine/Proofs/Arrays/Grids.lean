import JavaMachine.Machine.Execute.Object
import JavaMachine.Proofs.Arrays.Elements
import JavaMachine.Proofs.Fields.Operands
import Mathlib.Data.List.Perm.Basic

/-!
Arrays of several dimensions. A `Grid` is an array of one dimension for each count with all arrays that it consists of, in
the order in which they are made. Making one adds exactly these to the heap, one after the other.
-/

namespace JavaMachine

open M

/-- Going through two lists one inside the other gives the same whichever is the outer one, but for the order. -/
theorem flatMap_swap_perm {α β γ : Type} (xs : List α) (ys : List β) (f : α → β → List γ) :
    (xs.flatMap fun x => ys.flatMap (f x)).Perm (ys.flatMap fun y => xs.flatMap fun x => f x y) := by
  induction xs with
  | nil => simp
  | cons x xs ih =>
    rw [List.flatMap_cons]
    exact (ih.append_left _).trans (List.flatMap_append_perm ys (f x) fun y => xs.flatMap fun x => f x y)

/-- An element that is zero or null. -/
def Element.IsDefault : Element → Prop
  | .byte v => v = 0
  | .char v => v = 0
  | .short v => v = 0
  | .int v => v = 0
  | .long v => v = 0
  | .float bits => bits = 0
  | .double bits => bits = 0
  | .ref r => r = none

namespace Elements

theorem length_ofLetter (letter : Char) (n : Nat) : (ofLetter letter n).length = n := by
  unfold ofLetter
  split <;> exact Array.size_replicate

theorem isDefault_ofLetter (letter : Char) (n i : Nat) (v : Element) (h : (ofLetter letter n).get? i = some v) :
    v.IsDefault := by
  have hreplicate {α : Type} {a : α} {f : α → Element} (h : (Array.replicate n a)[i]?.map f = some v) : v = f a := by
    rw [Array.getElem?_replicate] at h
    split at h
    · exact (Option.some.inj h).symm
    · cases h
  unfold ofLetter at h
  split at h
  all_goals
    rw [hreplicate h]
    rfl

end Elements

namespace Machine

/-- A machine with some objects more. -/
structure Enlarged (m m' : Machine) (count : Nat) : Prop where
  rest : m' = { m with heap := m'.heap }
  size : m'.heap.size = m.heap.size + count
  old : ∀ r : Ref, r.index < m.heap.size → m'.objectAt r = m.objectAt r

namespace Enlarged

variable {m m' m'' : Machine} {a b : Nat}

theorem refl (m : Machine) : Enlarged m m 0 := ⟨rfl, rfl, fun _ _ => rfl⟩

theorem trans (h : Enlarged m m' a) (h' : Enlarged m' m'' b) : Enlarged m m'' (a + b) where
  rest := by
    rw [h'.rest, h.rest]
  size := by rw [h'.size, h.size, Nat.add_assoc]
  old r hr := (h'.old r (by have := h.size; omega)).trans (h.old r hr)

theorem classAt (h : Enlarged m m' a) (c : ClassId) : m'.classAt c = m.classAt c := by
  rw [h.rest]
  rfl

theorem push (m : Machine) (o : Object) : Enlarged m { m with heap := m.heap.push o } 1 where
  rest := rfl
  size := Array.size_push o
  old r hr := by
    rw [objectAt, objectAt, Array.getD_eq_getD_getElem?, Array.getD_eq_getD_getElem?, Array.getElem?_push,
      if_neg (Nat.ne_of_lt hr)]

theorem withElements (h : Enlarged m m' a) {r : Ref} (hr : m.heap.size ≤ r.index) (hr' : r.index < m'.heap.size)
    (e : Elements) : Enlarged m (m'.withElements r e) a where
  rest := by
    rw [Machine.withElements, h.rest]
  size := by
    rw [Machine.withElements, Array.size_modify, h.size]
  old x hx := by
    rw [objectAt_withElements hr', if_neg, h.old x hx]
    rintro rfl
    exact absurd hx (Nat.not_lt.2 hr)

end Enlarged

variable (m : Machine)

/-- A class as it is reached from the class of an array by going from array to component. -/
def componentAt (c : ClassId) : Nat → Option ClassId
  | 0 => some c
  | j + 1 => (m.classAt c).component.bind fun d => componentAt d j

/-- How many arrays an array of one dimension for each count consists of. -/
def gridSize : List Int32 → Nat
  | [] => 0
  | n :: rest => 1 + n.toInt.toNat * gridSize rest

/-- An array with a dimension for each count, and all arrays it consists of, each before those in it. -/
def Grid : List Int32 → ClassId → Ref → List Ref → Prop
  | [], _, _, _ => False
  | [n], c, r, all =>
    all = [r] ∧ ∃ e, Elements.ofClassName? (m.classAt c).name n.toInt.toNat = some e ∧
      m.objectAt r = { owner := c, elements := some e }
  | n :: rest, c, r, all =>
    ∃ (d : ClassId) (rows : List (Ref × List Ref)), (m.classAt c).component = some d ∧
      m.objectAt r = { owner := c, elements := some (.refs (rows.map fun p => some p.1).toArray) } ∧
      rows.length = n.toInt.toNat ∧ (∀ p ∈ rows, Grid rest d p.1 p.2) ∧ all = r :: rows.flatMap (·.2)

/-- Arrays can be stored: there are elements for the name of each array class, and references for a class of arrays of
arrays. -/
structure StoresArrays : Prop where
  elements : ∀ c n, (m.classAt c).component ≠ none → ∃ e, Elements.ofClassName? (m.classAt c).name n = some e
  refs : ∀ c d n, (m.classAt c).component = some d → (m.classAt d).component ≠ none →
    Elements.ofClassName? (m.classAt c).name n = some (.refs (Array.replicate n none))

variable {m}

theorem StoresArrays.congr {m' : Machine} (h : m.StoresArrays) (hclassAt : ∀ k, m'.classAt k = m.classAt k) :
    m'.StoresArrays where
  elements c n hc := by
    rw [hclassAt] at hc ⊢
    exact h.elements c n hc
  refs c d n hd hd' := by
    rw [hclassAt] at hd hd' ⊢
    exact h.refs c d n hd hd'

theorem componentAt_congr {m' : Machine} (hclassAt : ∀ k, m'.classAt k = m.classAt k) (c : ClassId) (j : Nat) :
    m'.componentAt c j = m.componentAt c j := by
  induction j generalizing c with
  | zero => rfl
  | succ j ih =>
    rw [componentAt, componentAt, hclassAt]
    exact Option.bind_congr fun d _ => ih d

/-- A grid stays where its arrays stay. -/
theorem Grid.same {m' : Machine} (hclassAt : ∀ k, m'.classAt k = m.classAt k) {counts : List Int32} {c : ClassId}
    {r : Ref} {all : List Ref} (h : m.Grid counts c r all) (hsame : ∀ x ∈ all, m'.objectAt x = m.objectAt x) :
    m'.Grid counts c r all := by
  induction counts generalizing c r all with
  | nil => exact h.elim
  | cons n rest ih =>
    cases rest with
    | nil =>
      obtain ⟨rfl, e, he, hobject⟩ := h
      refine ⟨rfl, e, ?_, (hsame r List.mem_cons_self).trans hobject⟩
      rw [hclassAt]
      exact he
    | cons n' rest =>
      obtain ⟨d, rows, hcomponent, hobject, hlength, hrows, rfl⟩ := h
      refine ⟨d, rows, ?_, (hsame r List.mem_cons_self).trans hobject, hlength, fun p hp => ?_, rfl⟩
      · rw [hclassAt]
        exact hcomponent
      · exact ih (hrows p hp) fun x hx => hsame x (List.mem_cons_of_mem _ (List.mem_flatMap_of_mem hp hx))

/-! ## Levels -/

/-- The objects in an array. -/
def held (m : Machine) (x : Ref) : List Ref :=
  match (m.objectAt x).elements with
  | some (.refs a) => a.toList.filterMap id
  | _ => []

/-- The objects at a level of nesting in an array, which is itself at level 0. -/
def level (m : Machine) (r : Ref) : Nat → List Ref
  | 0 => [r]
  | j + 1 => (m.level r j).flatMap m.held

theorem level_succ (r : Ref) (j : Nat) : m.level r (j + 1) = (m.held r).flatMap (m.level · j) := by
  induction j with
  | zero => simp [level]
  | succ j ih =>
    rw [level, ih, List.flatMap_assoc]
    rfl

theorem held_refs {x : Ref} {rows : List Ref} (h : (m.objectAt x).elements = some (.refs (rows.map some).toArray)) :
    m.held x = rows := by
  rw [held, h]
  simp [List.filterMap_map]

/-- New elements are as many as were asked for, all zero or null. -/
theorem of_ofClassName? {name : String} {n : Nat} {e : Elements} (h : Elements.ofClassName? name n = some e) :
    e.length = n ∧ ∀ i v, e.get? i = some v → v.IsDefault := by
  obtain ⟨letter, rfl⟩ : ∃ letter, e = Elements.ofLetter letter n := by
    unfold Elements.ofClassName? at h
    split at h
    · cases h
    · split at h
      · cases h
      · exact ⟨'L', (Option.some.inj h).symm⟩
    · exact ⟨_, (Option.some.inj h).symm⟩
  exact ⟨Elements.length_ofLetter letter n, Elements.isDefault_ofLetter letter n⟩

/-- Nothing is in an array whose elements are all zero or null. -/
theorem held_default {x : Ref} {e : Elements} (hx : (m.objectAt x).elements = some e)
    (h : ∀ i v, e.get? i = some v → v.IsDefault) : m.held x = [] := by
  rw [held, hx]
  split
  · next a ha =>
    cases ha
    refine List.filterMap_eq_nil_iff.2 fun v hv => ?_
    obtain ⟨i, hi⟩ := List.mem_iff_getElem?.1 hv
    exact h i (.ref v) (by rw [Elements.get?_refs, ← Array.getElem?_toList, hi]; rfl)
  · rfl

/-- An array at a level of an array of several dimensions: above the last level it holds arrays only, and at the last one
its elements are of the kind that the name of its class tells, all zero or null. -/
def Tier (m : Machine) (counts : List Int32) (j : Nat) (n : Int32) (d : ClassId) (x : Ref) : Prop :=
  ∃ e : Elements, m.objectAt x = { owner := d, elements := some e } ∧ (e.length : Int) = n.toInt ∧
    (j + 1 < counts.length → ∃ rows : List Ref, e = .refs (rows.map some).toArray) ∧
    (j + 1 = counts.length → Elements.ofClassName? (m.classAt d).name n.toInt.toNat = some e ∧
      ∀ i v, e.get? i = some v → v.IsDefault)

namespace Grid

variable {counts : List Int32} {c : ClassId} {r : Ref} {all : List Ref}

theorem held_rows {n n' : Int32} {rest : List Int32} (h : m.Grid (n :: n' :: rest) c r all) :
    ∃ (d : ClassId) (rows : List (Ref × List Ref)), (m.classAt c).component = some d ∧ m.held r = rows.map (·.1) ∧
      (∀ p ∈ rows, m.Grid (n' :: rest) d p.1 p.2) ∧ all = r :: rows.flatMap (·.2) := by
  obtain ⟨d, rows, hcomponent, hobject, -, hrows, hall⟩ := h
  refine ⟨d, rows, hcomponent, held_refs ?_, hrows, hall⟩
  rw [hobject, List.map_map]
  rfl

/-- The arrays at a level are of the class at this depth of components, with the length of this level. -/
theorem tier (h : m.Grid counts c r all) (hcounts : ∀ n ∈ counts, 0 ≤ n) {j : Nat} {n : Int32}
    (hn : counts[j]? = some n) {d : ClassId} (hd : m.componentAt c j = some d) {x : Ref} (hx : x ∈ m.level r j) :
    m.Tier counts j n d x := by
  have hnat {n : Int32} (hn : n ∈ counts) : (n.toInt.toNat : Int) = n.toInt :=
    Int.toNat_of_nonneg (Int32.le_iff_toInt_le.1 (hcounts n hn))
  induction counts generalizing c r all j with
  | nil => exact h.elim
  | cons n₀ rest ih =>
    cases j with
    | zero =>
      obtain rfl : n₀ = n := by simpa using hn
      obtain rfl : c = d := by simpa [componentAt] using hd
      obtain rfl := List.mem_singleton.1 hx
      cases rest with
      | nil =>
        obtain ⟨-, e, he, hobject⟩ := h
        refine ⟨e, hobject, ?_, fun hlt => absurd hlt (by simp), fun _ => ⟨he, (of_ofClassName? he).2⟩⟩
        rw [(of_ofClassName? he).1, hnat List.mem_cons_self]
      | cons n' rest =>
        obtain ⟨-, rows, -, hobject, hlength, -⟩ := h
        refine ⟨_, hobject, ?_, fun _ => ⟨rows.map (·.1), ?_⟩, fun hlast => absurd hlast (by simp)⟩
        · rw [← hnat List.mem_cons_self, ← hlength]
          simp [Elements.length]
        · rw [List.map_map]
          rfl
    | succ j =>
      cases rest with
      | nil => simp at hn
      | cons n' rest =>
        obtain ⟨d', rows, hcomponent, hheld, hrows, -⟩ := h.held_rows
        rw [componentAt, hcomponent, Option.bind_some] at hd
        rw [level_succ, hheld] at hx
        obtain ⟨y, hy, hx⟩ := List.mem_flatMap.1 hx
        obtain ⟨p, hp, rfl⟩ := List.mem_map.1 hy
        have hinner : ∀ n ∈ n' :: rest, 0 ≤ n := fun n hn => hcounts n (List.mem_cons_of_mem _ hn)
        obtain ⟨e, hobject, hlength, hinner, hlast⟩ :=
          ih (hrows p hp) hinner hn hd hx fun hn => hnat (List.mem_cons_of_mem _ hn)
        exact ⟨e, hobject, hlength, fun hlt => hinner (Nat.lt_of_succ_lt_succ hlt), fun heq => hlast (Nat.succ.inj heq)⟩

/-- What is at the levels together is what the grid consists of. -/
theorem levels_perm (h : m.Grid counts c r all) : ((List.range counts.length).flatMap (m.level r)).Perm all := by
  induction counts generalizing c r all with
  | nil => exact h.elim
  | cons n rest ih =>
    cases rest with
    | nil =>
      obtain ⟨rfl, -⟩ := h
      exact List.Perm.refl _
    | cons n' rest =>
      obtain ⟨d, rows, -, hheld, hrows, rfl⟩ := h.held_rows
      have hlevels : (List.range (n :: n' :: rest).length).flatMap (m.level r) =
          r :: (List.range (n' :: rest).length).flatMap fun j => rows.flatMap fun p => m.level p.1 j := by
        rw [List.length_cons, List.range_succ_eq_map, List.flatMap_cons, List.flatMap_map]
        refine congrArg (r :: ·) (List.flatMap_congr fun j _ => ?_)
        rw [level_succ, hheld, List.flatMap_map]
      rw [hlevels]
      refine (flatMap_swap_perm _ _ _).cons r |>.trans ?_
      exact (List.Perm.flatMap_left rows fun p hp => ih (hrows p hp)).cons r

/-- Below a level whose arrays are empty there is nothing. -/
theorem level_below_empty (h : m.Grid counts c r all) {j : Nat} (hn : counts[j]? = some 0) {i : Nat} (hi : j < i) :
    m.level r i = [] := by
  induction counts generalizing c r all i j with
  | nil => exact h.elim
  | cons n rest ih =>
    obtain ⟨i, rfl⟩ := Nat.exists_eq_succ_of_ne_zero (Nat.ne_zero_of_lt hi)
    rw [level_succ]
    cases rest with
    | nil =>
      obtain ⟨-, e, he, hobject⟩ := h
      rw [held_default (by rw [hobject]) (of_ofClassName? he).2, List.flatMap_nil]
    | cons n' rest =>
      cases j with
      | zero =>
        obtain rfl : n = 0 := by simpa using hn
        obtain ⟨-, rows, -, hobject, hlength, -⟩ := h
        obtain rfl : rows = [] := List.length_eq_zero_iff.1 hlength
        rw [held, hobject]
        rfl
      | succ j =>
        obtain ⟨d, rows, -, hheld, hrows, -⟩ := h.held_rows
        rw [hheld, List.flatMap_eq_nil_iff]
        intro x hx
        obtain ⟨p, hp, rfl⟩ := List.mem_map.1 hx
        exact ih (hrows p hp) hn (Nat.lt_of_succ_lt_succ hi)

end Grid

end Machine

namespace Execute

open Machine

variable {m : Machine}

theorem run_newArray {c : ClassId} {n : Int32} {e : Elements}
    (h : Elements.ofClassName? (m.classAt c).name n.toInt.toNat = some e) :
    newArray c n m = .ok ⟨m.heap.size⟩ { m with heap := m.heap.push { owner := c, elements := some e } } := by
  rw [newArray, run_bind (run_classAt c m), h]
  rfl

/-- References to objects that are new, one after the other. -/
def fresh (m : Machine) (count : Nat) : List Ref := (List.range' m.heap.size count).map Ref.mk

theorem fresh_append {m' : Machine} {a b : Nat} (h : Enlarged m m' a) : fresh m a ++ fresh m' b = fresh m (a + b) := by
  rw [fresh, fresh, fresh, ← List.map_append, h.size, List.range'_append_1]

theorem lt_of_mem_fresh {m' : Machine} {a : Nat} (h : Enlarged m m' a) {x : Ref} (hx : x ∈ fresh m a) :
    m.heap.size ≤ x.index ∧ x.index < m'.heap.size := by
  obtain ⟨i, hi, rfl⟩ := List.mem_map.1 hx
  rw [List.mem_range'_1] at hi
  rw [h.size]
  exact hi

/-- Making the same array several times adds as many grids to the heap. -/
theorem run_rows {d : ClassId} {rest : List Int32}
    (hmake : ∀ m' : Machine, m'.classes = m.classes → ∃ r m'', newMultiArray d rest m' = .ok r m'' ∧
      Enlarged m' m'' (gridSize rest) ∧ m''.Grid rest d r (fresh m' (gridSize rest))) (n : Nat) :
    ∃ (rows : List (Ref × List Ref)) (m' : Machine),
      (List.replicate n ()).mapM (fun _ => newMultiArray d rest) m = .ok (rows.map (·.1)) m' ∧ rows.length = n ∧
      Enlarged m m' (n * gridSize rest) ∧ (∀ p ∈ rows, m'.Grid rest d p.1 p.2) ∧
      rows.flatMap (·.2) = fresh m (n * gridSize rest) := by
  induction n generalizing m with
  | zero => exact ⟨[], m, rfl, rfl, by simpa using Enlarged.refl m, by simp, by simp [fresh]⟩
  | succ n ih =>
    obtain ⟨r, m₁, hrun, hone, hgrid⟩ := hmake m rfl
    have hclasses : m₁.classes = m.classes := by rw [hone.rest]
    obtain ⟨rows, m₂, hruns, hlength, hmany, hgrids, hall⟩ := ih fun m' hm' => hmake m' (hm'.trans hclasses)
    have htotal : gridSize rest + n * gridSize rest = (n + 1) * gridSize rest := by rw [Nat.succ_mul, Nat.add_comm]
    refine ⟨(r, fresh m (gridSize rest)) :: rows, m₂, ?_, by rw [List.length_cons, hlength], ?_, ?_, ?_⟩
    · rw [List.replicate_succ, List.mapM_cons, run_bind hrun, run_bind hruns]
      rfl
    · rw [← htotal]
      exact hone.trans hmany
    · refine List.forall_mem_cons.2 ⟨?_, hgrids⟩
      exact hgrid.same hmany.classAt fun x hx => hmany.old x (lt_of_mem_fresh hone hx).2
    · rw [List.flatMap_cons, hall, fresh_append hone, htotal]

theorem objectAt_push (m : Machine) (o : Object) : { m with heap := m.heap.push o }.objectAt ⟨m.heap.size⟩ = o := by
  rw [Machine.objectAt, Array.getD_eq_getD_getElem?, Array.getElem?_push, if_pos rfl]
  rfl

/-- The outer array is made first, then its rows, and then the rows are put into it. -/
theorem run_newMultiArray_rows {c d : ClassId} {n n' : Int32} {rest : List Int32}
    (hd : (m.classAt c).component = some d)
    (hrefs : Elements.ofClassName? (m.classAt c).name n.toInt.toNat = some (.refs (Array.replicate n.toInt.toNat none)))
    {rows : List Ref} {m' : Machine}
    (hruns : (List.replicate n.toInt.toNat ()).mapM (fun _ => newMultiArray d (n' :: rest))
      { m with heap := m.heap.push { owner := c, elements := some (.refs (Array.replicate n.toInt.toNat none)) } } =
        .ok rows m') :
    newMultiArray c (n :: n' :: rest) m =
      .ok ⟨m.heap.size⟩ (m'.withElements ⟨m.heap.size⟩ (.refs (rows.map some).toArray)) := by
  have hheld : ¬(!((some (Elements.refs (Array.replicate n.toInt.toNat none))).map (Elements.holds .ref)).getD false) =
      true := by simp [Elements.holds, Elements.load?]
  rw [newMultiArray, run_bind (run_newArray hrefs), run_bind (run_objectAt _ _), objectAt_push]
  · dsimp only
    rw [if_neg hheld]
    split
    · next hzero =>
      -- there are no rows, and none are put into the array
      have hnone : n.toInt.toNat = 0 := by rw [hzero]; rfl
      rw [hnone] at hruns ⊢
      obtain ⟨rfl, rfl⟩ : rows = [] ∧
          m' = { m with heap := m.heap.push { owner := c, elements := some (.refs (Array.replicate 0 none)) } } := by
        cases hruns
        exact ⟨rfl, rfl⟩
      exact congrArg (EStateM.Result.ok _) (withElements_self (congrArg Object.elements (objectAt_push m _))).symm
    · rw [run_bind (run_classAt c _)]
      have hsome : some! ((m.classAt c).component) { m with
          heap := m.heap.push { owner := c, elements := some (.refs (Array.replicate n.toInt.toNat none)) } } =
          .ok d { m with
          heap := m.heap.push { owner := c, elements := some (.refs (Array.replicate n.toInt.toNat none)) } } := by
        rw [hd]
        rfl
      refine (run_bind hsome _).trans ?_
      rw [run_bind hruns]
      rfl
  · exact List.cons_ne_nil n' rest

/-- Making an array of several dimensions adds exactly one grid to the heap. -/
theorem run_newMultiArray (hstores : m.StoresArrays) {c : ClassId} {counts : List Int32} (hne : counts ≠ [])
    (hdim : (m.componentAt c counts.length).isSome = true) :
    ∃ r m', newMultiArray c counts m = .ok r m' ∧ Enlarged m m' (gridSize counts) ∧
      m'.Grid counts c r (fresh m (gridSize counts)) := by
  induction counts generalizing m c with
  | nil => exact absurd rfl hne
  | cons n rest ih =>
    rw [List.length_cons, componentAt] at hdim
    obtain ⟨last, hlast⟩ := Option.isSome_iff_exists.1 hdim
    obtain ⟨d, hd, hrest⟩ := Option.bind_eq_some_iff.1 hlast
    have hpush (e : Elements) := Enlarged.push m { owner := c, elements := some e }
    cases rest with
    | nil =>
      obtain ⟨e, he⟩ := hstores.elements c n.toInt.toNat (by simp [hd])
      refine ⟨_, _, run_newArray he, hpush e, rfl, e, ?_, objectAt_push m _⟩
      rw [(hpush e).classAt]
      exact he
    | cons n' rest =>
      have harray : (m.classAt d).component ≠ none := by
        obtain ⟨d', hd', -⟩ := Option.bind_eq_some_iff.1 hrest
        simp [hd']
      have hrefs := hstores.refs c d n.toInt.toNat hd harray
      -- the outer array is made first
      let e := Elements.refs (Array.replicate n.toInt.toNat none)
      let m₁ : Machine := { m with heap := m.heap.push { owner := c, elements := some e } }
      have hone : Enlarged m m₁ 1 := hpush e
      have hobject : m₁.objectAt ⟨m.heap.size⟩ = { owner := c, elements := some e } := objectAt_push m _
      have hmake (m' : Machine) (hm' : m'.classes = m₁.classes) :
          ∃ r m'', newMultiArray d (n' :: rest) m' = .ok r m'' ∧ Enlarged m' m'' (gridSize (n' :: rest)) ∧
            m''.Grid (n' :: rest) d r (fresh m' (gridSize (n' :: rest))) := by
        have hclassAt (k : ClassId) : m'.classAt k = m.classAt k := by rw [Machine.classAt, hm']; rfl
        refine ih (hstores.congr hclassAt) (List.cons_ne_nil n' rest) ?_
        rw [componentAt_congr hclassAt, hrest]
        rfl
      obtain ⟨rows, m₂, hruns, hlength, hmany, hgrids, hall⟩ := run_rows hmake n.toInt.toNat
      -- then the rows are put into it
      let m₃ := m₂.withElements ⟨m.heap.size⟩ (.refs (rows.map fun p => some p.1).toArray)
      have houter : m.heap.size < m₂.heap.size := by
        have := (hone.trans hmany).size
        omega
      have hlarge : Enlarged m m₃ (gridSize (n :: n' :: rest)) := (hone.trans hmany).withElements (Nat.le_refl _) houter _
      have hobject₂ : m₂.objectAt ⟨m.heap.size⟩ = { owner := c, elements := some e } := by
        rw [hmany.old _ (by rw [hone.size]; exact Nat.lt_succ_self _), hobject]
      refine ⟨⟨m.heap.size⟩, m₃, ?_, hlarge, d, rows, ?_, ?_, hlength, fun p hp => ?_, ?_⟩
      · rw [run_newMultiArray_rows hd hrefs hruns, List.map_map]
        rfl
      · rw [hlarge.classAt]
        exact hd
      · refine (objectAt_withElements (r := ⟨m.heap.size⟩) houter).trans ?_
        rw [if_pos rfl, hobject₂]
      · have hsame (x : Ref) (hx : x ∈ p.2) : m₃.objectAt x = m₂.objectAt x := by
          have hfresh : x ∈ fresh m₁ (n.toInt.toNat * gridSize (n' :: rest)) := hall ▸ List.mem_flatMap_of_mem hp hx
          have hbehind := (lt_of_mem_fresh hmany hfresh).1
          rw [hone.size] at hbehind
          refine (objectAt_withElements (r := ⟨m.heap.size⟩) houter).trans (if_neg ?_)
          rintro rfl
          exact absurd hbehind (Nat.not_succ_le_self _)
        have hclassAt (k : ClassId) : m₃.classAt k = m₂.classAt k := rfl
        exact (hgrids p hp).same hclassAt hsame
      · rw [hall]
        exact (fresh_append hone).symm

/-! ## What is made -/

/-- An array with a dimension for each count is made of a class: the heap has exactly the arrays at its levels more,
which are all different, and nothing else changes. -/
structure Makes (m m' : Machine) (c : ClassId) (counts : List Int32) (r : Ref) : Prop where
  rest : m' = { m with heap := m'.heap }
  old : ∀ x : Ref, x.index < m.heap.size → m'.objectAt x = m.objectAt x
  tiers : ∀ (j : Nat) n, counts[j]? = some n →
    ∃ d, m.componentAt c j = some d ∧ ∀ x ∈ m'.level r j, m'.Tier counts j n d x
  apart : ((List.range counts.length).flatMap (m'.level r)).Nodup
  new : ∀ x : Ref, (∃ j < counts.length, x ∈ m'.level r j) ↔ m.heap.size ≤ x.index ∧ x.index < m'.heap.size
  none : ∀ j : Nat, counts[j]? = some 0 → ∀ i, j < i → m'.level r i = []

theorem mem_fresh {m' : Machine} {a : Nat} (h : Enlarged m m' a) (x : Ref) :
    x ∈ fresh m a ↔ m.heap.size ≤ x.index ∧ x.index < m'.heap.size := by
  refine ⟨lt_of_mem_fresh h, fun hx => ?_⟩
  rw [h.size] at hx
  exact List.mem_map.2 ⟨x.index, List.mem_range'_1.2 hx, rfl⟩

theorem nodup_fresh (m : Machine) (count : Nat) : (fresh m count).Nodup :=
  List.Pairwise.map Ref.mk (fun _ _ hne heq => hne (congrArg Ref.index heq)) (List.nodup_range' 1)

theorem exists_componentAt {c : ClassId} {k j : Nat} (h : (m.componentAt c k).isSome = true) (hj : j ≤ k) :
    ∃ d, m.componentAt c j = some d := by
  induction j generalizing c k with
  | zero => exact ⟨c, rfl⟩
  | succ j ih =>
    obtain ⟨k, rfl⟩ := Nat.exists_eq_succ_of_ne_zero (Nat.ne_zero_of_lt hj)
    obtain ⟨last, hlast⟩ := Option.isSome_iff_exists.1 h
    rw [componentAt] at hlast
    obtain ⟨d, hd, hrest⟩ := Option.bind_eq_some_iff.1 hlast
    rw [componentAt, hd]
    exact ih (Option.isSome_of_eq_some hrest) (Nat.le_of_succ_le_succ hj)

theorem makes_newMultiArray (hstores : m.StoresArrays) {c : ClassId} {counts : List Int32} (hne : counts ≠ [])
    (hcounts : ∀ n ∈ counts, 0 ≤ n) (hdim : (m.componentAt c counts.length).isSome = true) :
    ∃ r m', newMultiArray c counts m = .ok r m' ∧ Makes m m' c counts r := by
  obtain ⟨r, m', hrun, hlarge, hgrid⟩ := run_newMultiArray hstores hne hdim
  refine ⟨r, m', hrun, hlarge.rest, hlarge.old, ?_, ?_, ?_, fun j hj i hi => hgrid.level_below_empty hj hi⟩
  · intro j n hn
    obtain ⟨d, hd⟩ := exists_componentAt hdim (Nat.le_of_lt (List.getElem?_eq_some_iff.1 hn).1)
    refine ⟨d, hd, fun x hx => hgrid.tier hcounts hn ?_ hx⟩
    rwa [componentAt_congr hlarge.classAt]
  · exact hgrid.levels_perm.nodup_iff.2 (nodup_fresh m _)
  · intro x
    rw [← mem_fresh hlarge x, ← hgrid.levels_perm.mem_iff, List.mem_flatMap]
    exact exists_congr fun j => and_congr_left fun _ => List.mem_range.symm

end Execute

end JavaMachine
