import JavaMachine.Proofs.Assembler.Pool

/-!
How the offsets of a body are filled in. A patch `Resolves` if its label is marked and its offset fits, whatever the
code is, so a body is built if and only if all its patches and handlers resolve. A patch then replaces the bytes at its
place and no others. Main results: `overwrite_append`, `exists_build_iff`, `of_build`.
-/

namespace JavaMachine

open BigEndian

/-! ## Steps of a list that may fail -/

/-- Whether a list of steps succeeds depends on each of them only. -/
theorem exists_mapM_iff {ε α β : Type} {f : α → Except ε β} {xs : List α} :
    (∃ ys, xs.mapM f = .ok ys) ↔ ∀ x ∈ xs, ∃ y, f x = .ok y := by
  induction xs with
  | nil => exact ⟨fun _ => nofun, fun _ => ⟨[], rfl⟩⟩
  | cons x xs ih =>
    rw [List.mapM_cons, List.forall_mem_cons, ← ih]
    constructor
    · rintro ⟨ys, h⟩
      obtain ⟨y, hy, h⟩ := exists_of_bind_ok h
      obtain ⟨zs, hzs, -⟩ := exists_of_bind_ok h
      exact ⟨⟨y, hy⟩, zs, hzs⟩
    · rintro ⟨⟨y, hy⟩, zs, hzs⟩
      exact ⟨y :: zs, by rw [hy, hzs]; rfl⟩

/-- The labels of a row of an exception table. -/
def PendingHandler.labels (h : PendingHandler) : List String := [h.start, h.stop, h.handler]

namespace Patch

/-- How many bytes are replaced. -/
def width (p : Patch) : Nat := if p.wide then 4 else 2

/-- The offset is that to a position, and fits. -/
def Reaches (p : Patch) (target : Nat) : Prop :=
  p.wide = true ∨ -32768 ≤ (target : Int) - p.origin ∧ (target : Int) - p.origin ≤ 32767

/-- The label is marked at a position that can be reached. -/
def Resolves (labels : List (String × Nat)) (p : Patch) : Prop :=
  ∃ target, labels.lookup p.label = some target ∧ p.Reaches target

/-- The offset from the instruction to the position of a label; there is none to an unmarked one. -/
def offset (labels : List (String × Nat)) (origin : Nat) (label : String) : Int :=
  ((labels.lookup label).getD 0 : Nat) - origin

/-- The bytes that are filled in. -/
def data (labels : List (String × Nat)) (p : Patch) : List UInt8 :=
  let n := offset labels p.origin p.label
  if p.wide then bytes32 (low32 n) else bytes16 (low16 n)

theorem length_data (labels : List (String × Nat)) (p : Patch) : (p.data labels).length = p.width := by
  unfold data width
  split <;> rfl

end Patch

namespace CodeBuilder

/-! ## Overwriting -/

theorem size_overwrite (code : Array UInt8) (place : Nat) (data : List UInt8) :
    (overwrite code place data).size = code.size := by
  induction data generalizing code place with
  | nil => rfl
  | cons v rest ih => rw [overwrite, ih, Array.size_setIfInBounds]

theorem getElem?_overwrite_outside {code : Array UInt8} {place : Nat} {data : List UInt8} {i : Nat}
    (h : i < place ∨ place + data.length ≤ i) : (overwrite code place data)[i]? = code[i]? := by
  induction data generalizing code place with
  | nil => rfl
  | cons v rest ih =>
    rw [List.length_cons] at h
    rw [overwrite, ih (by omega), Array.getElem?_setIfInBounds_ne (by omega)]

/-- A part of the code is replaced by as many bytes. -/
theorem overwrite_append {old new : List UInt8} (h : old.length = new.length) (before behind : List UInt8) :
    overwrite (before ++ old ++ behind).toArray before.length new = (before ++ new ++ behind).toArray := by
  induction new generalizing old before with
  | nil =>
    obtain rfl := List.eq_nil_of_length_eq_zero h
    rfl
  | cons v new ih =>
    cases old with
    | nil => cases h
    | cons u old =>
      have hset : (before ++ u :: old ++ behind).toArray.setIfInBounds before.length v =
          ((before ++ [v]) ++ old ++ behind).toArray := by
        rw [List.setIfInBounds_toArray, List.append_assoc, List.set_append_right _ _ (Nat.le_refl _), Nat.sub_self]
        simp only [List.cons_append, List.set_cons_zero, List.append_assoc, List.nil_append]
      have hrest := ih (Nat.succ.inj h) (before ++ [v])
      rw [List.length_append, List.length_singleton] at hrest
      rw [overwrite, hset, hrest]
      simp only [List.append_assoc, List.cons_append, List.nil_append]

/-! ## Patches -/

theorem applyPatch_of_resolves {labels : List (String × Nat)} {p : Patch} (h : p.Resolves labels) (code : Array UInt8) :
    applyPatch labels code p = .ok (overwrite code p.place (p.data labels)) := by
  obtain ⟨target, hlookup, hreaches⟩ := h
  unfold applyPatch Patch.data Patch.offset
  simp only [hlookup, Option.getD_some]
  split
  · rfl
  · next hwide =>
    have hfits := hreaches.resolve_left hwide
    rw [if_neg (by omega)]

theorem resolves_of_applyPatch {labels : List (String × Nat)} {p : Patch} {code code' : Array UInt8}
    (h : applyPatch labels code p = .ok code') : p.Resolves labels := by
  unfold applyPatch at h
  split at h
  · cases h
  · next target hlookup =>
    refine ⟨target, hlookup, ?_⟩
    dsimp only at h
    split at h
    · next hwide => exact .inl hwide
    · split at h
      · cases h
      · next hfits => exact .inr (by omega)

/-- The code with offsets filled in. -/
def patched (labels : List (String × Nat)) (patches : List Patch) (code : Array UInt8) : Array UInt8 :=
  patches.foldl (fun code p => overwrite code p.place (p.data labels)) code

theorem patched_append (labels : List (String × Nat)) (ps qs : List Patch) (code : Array UInt8) :
    patched labels (ps ++ qs) code = patched labels qs (patched labels ps code) := List.foldl_append

/-- A byte that belongs to no offset stays what it is. -/
theorem getElem?_patched_outside {labels : List (String × Nat)} {patches : List Patch} {code : Array UInt8} {i : Nat}
    (h : ∀ p ∈ patches, i < p.place ∨ p.place + p.width ≤ i) : (patched labels patches code)[i]? = code[i]? := by
  induction patches generalizing code with
  | nil => rfl
  | cons p rest ih =>
    rw [List.forall_mem_cons] at h
    have hhead : (overwrite code p.place (p.data labels))[i]? = code[i]? := by
      apply getElem?_overwrite_outside
      rw [p.length_data]
      exact h.1
    exact (ih h.2).trans hhead

theorem foldlM_applyPatch {labels : List (String × Nat)} {patches : List Patch} (code : Array UInt8)
    (h : ∀ p ∈ patches, p.Resolves labels) :
    patches.foldlM (applyPatch labels) code = .ok (patched labels patches code) := by
  induction patches generalizing code with
  | nil => rfl
  | cons p rest ih =>
    rw [List.forall_mem_cons] at h
    rw [List.foldlM_cons, applyPatch_of_resolves h.1]
    exact ih _ h.2

theorem resolves_of_foldlM {labels : List (String × Nat)} {patches : List Patch} {code code' : Array UInt8}
    (h : patches.foldlM (applyPatch labels) code = .ok code') : ∀ p ∈ patches, p.Resolves labels := by
  induction patches generalizing code with
  | nil => nofun
  | cons p rest ih =>
    rw [List.foldlM_cons] at h
    obtain ⟨code₁, hp, hrest⟩ := exists_of_bind_ok h
    rw [List.forall_mem_cons]
    exact ⟨resolves_of_applyPatch hp, ih hrest⟩

/-! ## Bodies -/

theorem exists_placeHandler_iff {labels : List (String × Nat)} {h : PendingHandler} :
    (∃ row, placeHandler labels h = .ok row) ↔ ∀ l ∈ h.labels, ∃ q, labels.lookup l = some q := by
  simp only [PendingHandler.labels, List.forall_mem_cons, List.not_mem_nil, false_implies, implies_true, and_true]
  constructor
  · rintro ⟨row, hrow⟩
    unfold placeHandler at hrow
    split at hrow
    · next s e t hstart hstop hhandler => exact ⟨⟨s, hstart⟩, ⟨e, hstop⟩, t, hhandler⟩
    · cases hrow
  · rintro ⟨⟨s, hstart⟩, ⟨e, hstop⟩, t, hhandler⟩
    refine ⟨⟨UInt16.ofNat s, UInt16.ofNat e, UInt16.ofNat t, h.catchType⟩, ?_⟩
    simp only [placeHandler, hstart, hstop, hhandler]

variable {b : CodeBuilder}

/-- What a body that is built shows. -/
theorem of_build {i : UInt16} {body : CodeBody} {pool : PoolBuilder} (h : b.build = .ok (i, body, pool)) :
    (∀ p ∈ b.patches.toList, p.Resolves b.labels) ∧
      (∀ row ∈ b.handlers.toList, ∀ l ∈ row.labels, ∃ q, b.labels.lookup l = some q) ∧
      body.code = (patched b.labels b.patches.toList b.bytes).toList := by
  unfold build at h
  obtain ⟨code, hcode, h⟩ := exists_of_bind_ok h
  obtain ⟨rows, hrows, h⟩ := exists_of_bind_ok h
  rw [← Array.foldlM_toList] at hcode
  have hresolves := resolves_of_foldlM hcode
  rw [foldlM_applyPatch _ hresolves] at hcode
  cases hcode
  refine ⟨hresolves, fun row hrow => ?_, ?_⟩
  · exact exists_placeHandler_iff.1 (exists_mapM_iff.1 ⟨rows, hrows⟩ row hrow)
  · by_cases hlines : b.lines.isEmpty
    · rw [if_pos hlines] at h
      cases h
      rfl
    · rw [if_neg hlines] at h
      cases h
      rfl

/-- A body is built if and only if its patches and its handlers resolve. -/
theorem exists_build_iff :
    (∃ r, b.build = .ok r) ↔
      (∀ p ∈ b.patches.toList, p.Resolves b.labels) ∧
        ∀ row ∈ b.handlers.toList, ∀ l ∈ row.labels, ∃ q, b.labels.lookup l = some q := by
  constructor
  · rintro ⟨⟨i, body, pool⟩, h⟩
    obtain ⟨hpatches, hhandlers, -⟩ := of_build h
    exact ⟨hpatches, hhandlers⟩
  · rintro ⟨hpatches, hhandlers⟩
    obtain ⟨rows, hrows⟩ := exists_mapM_iff.2 fun row hrow => exists_placeHandler_iff.2 (hhandlers row hrow)
    have hcode := foldlM_applyPatch b.bytes hpatches
    rw [Array.foldlM_toList] at hcode
    unfold build
    rw [hcode]
    change ∃ r, (b.handlers.toList.mapM (placeHandler b.labels) >>= _) = .ok r
    rw [hrows]
    by_cases hlines : b.lines.isEmpty
    · rw [if_pos hlines]
      exact ⟨_, rfl⟩
    · rw [if_neg hlines]
      exact ⟨_, rfl⟩

end CodeBuilder

end JavaMachine
