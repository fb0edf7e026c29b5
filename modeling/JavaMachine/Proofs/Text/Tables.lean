import Mathlib.Data.List.Basic

/-!
Tables of values by key, as lists of pairs in which a value that is set takes the place of the earlier one of its key.
Main results: `lookup_replaced`, `keys_replaced`.
-/

namespace JavaMachine.Table

variable {α β : Type} [BEq α] [LawfulBEq α]

theorem lookup_map_replaced (t : List (α × β)) (k : α) (v : β) (k' : α) :
    (t.map fun p => if p.1 == k then (k, v) else p).lookup k' =
      if k' == k then (t.lookup k).map fun _ => v else t.lookup k' := by
  induction t with
  | nil => simp
  | cons p t ih =>
    obtain ⟨key, value⟩ := p
    by_cases hkey : key = k
    · by_cases hk' : k' = k
      · simp [hkey, hk']
      · have hnot : (k' == k) = false := beq_false_of_ne hk'
        simp [hkey, hnot, ih, List.lookup_cons]
    · have hother : (k == key) = false := beq_false_of_ne (Ne.symm hkey)
      by_cases hk' : k' = key
      · simp [hkey, hk']
      · have hnot : (k' == key) = false := beq_false_of_ne hk'
        simp [hkey, ih, List.lookup_cons, hother, hnot]

/-- Under a key there is the value that was set last. -/
theorem lookup_replaced (t : List (α × β)) (k : α) (v : β) (k' : α) :
    (if t.any (·.1 == k) then t.map fun p => if p.1 == k then (k, v) else p else t ++ [(k, v)]).lookup k' =
      if k' == k then some v else t.lookup k' := by
  split
  · next hany =>
    have hfound : (t.lookup k).isSome = true := by
      rw [List.lookup_isSome_iff]
      obtain ⟨p, hp, heq⟩ := List.any_eq_true.1 hany
      exact ⟨p, hp, by rwa [BEq.comm]⟩
    rw [lookup_map_replaced]
    obtain ⟨value, hvalue⟩ := Option.isSome_iff_exists.1 hfound
    rw [hvalue, Option.map_some]
  · next hnone =>
    have hmissing : t.lookup k = none := by
      rw [List.lookup_eq_none_iff]
      intro p hp
      have hkey : ¬(p.1 == k) = true := fun heq => hnone (List.any_eq_true.2 ⟨p, hp, heq⟩)
      simpa [BEq.comm] using hkey
    rw [List.lookup_append]
    by_cases hk' : k' = k
    · simp [hk', hmissing]
    · have hnot : (k' == k) = false := beq_false_of_ne hk'
      simp [hnot, List.lookup_cons]

/-- A key that is set is there once, in the place where it was set first. -/
theorem keys_replaced (t : List (α × β)) (k : α) (v : β) :
    (if t.any (·.1 == k) then t.map fun p => if p.1 == k then (k, v) else p else t ++ [(k, v)]).map (·.1) =
      if t.any (·.1 == k) then t.map (·.1) else t.map (·.1) ++ [k] := by
  split
  · rw [List.map_map]
    refine List.map_congr_left fun p _ => ?_
    simp only [Function.comp_apply]
    split
    · next heq => exact (eq_of_beq heq).symm
    · rfl
  · simp

end JavaMachine.Table
