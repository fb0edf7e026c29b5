import JavaMachine.Machine.Execute.Control
import JavaMachine.Proofs.Code.Cursor

/-!
Switches as they are read from code. A table that is read lies in the code from the next multiple of four on, and has an
offset for each key between its bounds, or the rows that are counted. So a key between the bounds finds its offset: the
difference from the lower bound does not overflow as long as the code is too short for the offsets that this takes. Main
results: `lies_of_tableSwitch`, `lies_of_lookupSwitch`, `target?_inside`, `target?_outside`, `target?_first` and
`target?_other`, and from them `switch_targets`.
-/

namespace JavaMachine

open BigEndian CodeReader

/-- The signed word at a place in code. -/
def signedWord (code : Array UInt8) (i : Nat) : Int32 :=
  (word32 (code.getD i 0) (code.getD (i + 1) 0) (code.getD (i + 2) 0) (code.getD (i + 3) 0)).toInt32

/-- The next multiple of four. -/
def CodeCursor.aligned (c : CodeCursor) : Nat := ((c.pos + 3) / 4 * 4).toNat

/-- A table is what code holds from a place on: its default and its bounds with an offset for each key between them, or its
default and the number of its rows with the rows. -/
inductive SwitchTable.LiesAt (code : Array UInt8) (start : Nat) : SwitchTable → Prop
  | range {low high : Int32} {offsets : Array Int32} (hlow : low = signedWord code (start + 4))
      (hhigh : high = signedWord code (start + 8)) (hcount : (offsets.size : Int) = high.toInt - low.toInt + 1)
      (hoffsets : offsets.toList = (List.range offsets.size).map fun i => signedWord code (start + 12 + 4 * i))
      (hstop : start + 12 + 4 * offsets.size ≤ code.size) :
      LiesAt code start (.range (signedWord code start) low high offsets)
  | pairs {rows : List (Int32 × Int32)} (hcount : (rows.length : Int) = (signedWord code (start + 4)).toInt)
      (hrows : rows = (List.range rows.length).map fun i =>
        (signedWord code (start + 8 + 8 * i), signedWord code (start + 12 + 8 * i)))
      (hstop : start + 8 + 8 * rows.length ≤ code.size) :
      LiesAt code start (.pairs (signedWord code start) rows)

/-! ## Reading -/

namespace CodeReader

variable {α β : Type} {code : Array UInt8} {c c' : CodeCursor} {s : SwitchTable} {n p : Nat}

/-- A signed word that is read is the one at the position, and lies in the code. -/
theorem run_of_i32_bind {f : Int32 → CodeReader β} {w : β} (h : (i32 >>= f) ⟨code, p⟩ = .ok w c') :
    p + 4 ≤ code.size ∧ f (signedWord code p) ⟨code, (p + 4 : Nat)⟩ = .ok w c' := by
  obtain ⟨v, c₁, hword, hrest⟩ := exists_of_run_bind h
  obtain ⟨-, -, hstop, rfl, rfl⟩ := inside_of_run_fixed hword
  exact ⟨by dsimp only at hstop; omega, hrest⟩

/-- The position after the padding is the next multiple of four. -/
theorem padding_ok {u : Unit} (h : padding n c = .ok u c') (hn : -c.pos % 4 ≤ n) :
    c' = { c with pos := c.pos + -c.pos % 4 } := by
  have hdone (halign : -c.pos % 4 = 0) (hc : c = c') : c' = { c with pos := c.pos + -c.pos % 4 } := by
    rw [← hc, halign, Int.add_zero]
  induction n generalizing c with
  | zero => exact hdone (by omega) (by cases h; rfl)
  | succ n ih =>
    by_cases halign : c.pos % 4 = 0
    · rw [run_padding halign] at h
      exact hdone (by omega) (by cases h; rfl)
    · rw [padding] at h
      change (if c.pos % 4 = 0 then pure () else u8 >>= fun _ => padding n : CodeReader Unit) c = _ at h
      rw [if_neg halign] at h
      obtain ⟨v, c₁, hbyte, hrest⟩ := exists_of_run_bind h
      obtain ⟨-, -, -, -, rfl⟩ := inside_of_run_fixed hbyte
      rw [ih hrest (by dsimp only; omega) fun h h' => by rw [← h', h, Int.add_zero], CodeCursor.mk.injEq]
      exact ⟨rfl, by dsimp only; omega⟩

/-- The first word behind the padding. -/
theorem run_of_padded_bind {f : Int32 → CodeReader β} {w : β}
    (h : (do skipPadding; let v ← i32; f v) c = .ok w c') :
    c.aligned + 4 ≤ c.code.size ∧ f (signedWord c.code c.aligned) ⟨c.code, (c.aligned + 4 : Nat)⟩ = .ok w c' := by
  obtain ⟨u, c₁, hpadding, h⟩ := exists_of_run_bind h
  have hc := padding_ok hpadding (by omega)
  subst hc
  have hnonneg : 0 ≤ c.pos + -c.pos % 4 := by
    obtain ⟨v, c₁, hword, -⟩ := exists_of_run_bind h
    exact (inside_of_run_fixed hword).2.1
  have hpos : c.pos + -c.pos % 4 = c.aligned := by
    rw [CodeCursor.aligned]
    omega
  rw [hpos] at h
  exact run_of_i32_bind h

theorem words_ok {vs : List Int32} (h : words n ⟨code, p⟩ = .ok vs c') (hp : p ≤ code.size) :
    vs = ((List.range n).map fun i => signedWord code (p + 4 * i)) ∧ p + 4 * n ≤ code.size := by
  induction n generalizing p vs with
  | zero =>
    cases h
    exact ⟨rfl, hp⟩
  | succ n ih =>
    obtain ⟨hstop, h⟩ := run_of_i32_bind h
    obtain ⟨rest, c₁, hrest, h⟩ := exists_of_run_bind h
    cases h
    obtain ⟨rfl, hstop⟩ := ih hrest hstop
    refine ⟨?_, by omega⟩
    rw [List.range_succ_eq_map, List.map_cons, List.map_map]
    refine congrArg _ (List.map_congr_left fun i _ => ?_)
    rw [Function.comp_apply, Nat.mul_succ, Nat.add_assoc, Nat.add_comm 4]

theorem wordPairs_ok {rows : List (Int32 × Int32)} (h : wordPairs n ⟨code, p⟩ = .ok rows c') (hp : p ≤ code.size) :
    rows = ((List.range n).map fun i => (signedWord code (p + 8 * i), signedWord code (p + 4 + 8 * i))) ∧
      p + 8 * n ≤ code.size := by
  induction n generalizing p rows with
  | zero =>
    cases h
    exact ⟨rfl, hp⟩
  | succ n ih =>
    obtain ⟨-, h⟩ := run_of_i32_bind h
    obtain ⟨hstop, h⟩ := run_of_i32_bind h
    obtain ⟨rest, c₁, hrest, h⟩ := exists_of_run_bind h
    cases h
    obtain ⟨rfl, hstop⟩ := ih hrest hstop
    refine ⟨?_, by omega⟩
    rw [List.range_succ_eq_map, List.map_cons, List.map_map]
    refine congrArg _ (List.map_congr_left fun i _ => ?_)
    rw [Function.comp_apply, Nat.mul_succ, show p + 4 + 4 + 8 * i = p + (8 * i + 8) by omega,
      show p + 4 + 4 + 4 + 8 * i = p + 4 + (8 * i + 8) by omega]

/-- The table of a `tableswitch` that is read lies in the code, behind the padding. -/
theorem lies_of_tableSwitch (h : tableSwitch c = .ok s c') :
    ∃ default low high offsets, s = .range default low high offsets ∧ s.LiesAt c.code c.aligned := by
  obtain ⟨-, h⟩ := run_of_padded_bind h
  obtain ⟨-, h⟩ := run_of_i32_bind h
  obtain ⟨hstop, h⟩ := run_of_i32_bind h
  obtain ⟨c₁, c₂, hget, h⟩ := exists_of_run_bind h
  cases hget
  split at h
  · obtain ⟨v, c₃, hthrow, -⟩ := exists_of_run_bind h
    cases hthrow
  · next hbounds =>
    obtain ⟨offsets, c₃, hwords, h⟩ := exists_of_run_bind h
    cases h
    obtain ⟨rfl, hstop⟩ := words_ok hwords hstop
    refine ⟨_, _, _, _, rfl, .range rfl rfl ?_ ?_ ?_⟩
    all_goals simp only [List.size_toArray, List.length_map, List.length_range]
    · omega
    · exact hstop

/-- The table of a `lookupswitch` that is read lies in the code, behind the padding. -/
theorem lies_of_lookupSwitch (h : lookupSwitch c = .ok s c') :
    ∃ default rows, s = .pairs default rows ∧ s.LiesAt c.code c.aligned := by
  obtain ⟨-, h⟩ := run_of_padded_bind h
  obtain ⟨hstop, h⟩ := run_of_i32_bind h
  obtain ⟨c₁, c₂, hget, h⟩ := exists_of_run_bind h
  cases hget
  split at h
  · obtain ⟨v, c₃, hthrow, -⟩ := exists_of_run_bind h
    cases hthrow
  · next hbounds =>
    obtain ⟨rows, c₃, hrows, h⟩ := exists_of_run_bind h
    cases h
    obtain ⟨rfl, hstop⟩ := wordPairs_ok hrows hstop
    rw [not_or, Int32.lt_iff_toInt_lt] at hbounds
    refine ⟨_, _, rfl, .pairs ?_ ?_ ?_⟩
    all_goals simp only [List.length_map, List.length_range]
    · exact Int.toNat_of_nonneg (Int.not_lt.1 hbounds.1)
    · exact hstop

end CodeReader

/-! ## Selecting -/

namespace SwitchTable

variable {default low high key offset : Int32} {offsets : Array Int32} {rows before behind : List (Int32 × Int32)}

/-- Below the distance at which it overflows, a difference of keys is that of their numbers. -/
theorem toInt_sub_of_lt (h : low.toInt ≤ key.toInt) (h' : key.toInt - low.toInt < 2 ^ 31) :
    (key - low).toInt = key.toInt - low.toInt := by
  rw [Int32.toInt_sub, Int.bmod_eq_of_le (by omega) (by omega)]

/-- A key between the bounds has an offset in the table. -/
theorem target?_inside (hcount : (offsets.size : Int) = high.toInt - low.toInt + 1) (hsize : offsets.size ≤ 2 ^ 31)
    (hlow : low ≤ key) (hhigh : key ≤ high) :
    (key - low).toInt = key.toInt - low.toInt ∧
      ∃ h : (key.toInt - low.toInt).toNat < offsets.size,
        target? (.range default low high offsets) key = some offsets[(key.toInt - low.toInt).toNat] := by
  rw [Int32.le_iff_toInt_le] at hlow hhigh
  have hsub : (key - low).toInt = key.toInt - low.toInt := toInt_sub_of_lt hlow (by omega)
  have hin : (key.toInt - low.toInt).toNat < offsets.size := by omega
  refine ⟨hsub, hin, ?_⟩
  rw [target?, if_neg (by rw [Int32.lt_iff_toInt_lt, Int32.lt_iff_toInt_lt]; omega)]
  dsimp only
  rw [if_neg (by rw [Int32.lt_iff_toInt_lt, hsub]; exact Int.not_lt.2 (Int.sub_nonneg_of_le hlow)), hsub,
    Array.getElem?_eq_getElem hin]

theorem target?_outside (h : key < low ∨ high < key) : target? (.range default low high offsets) key = some default := by
  rw [target?, if_pos h]

/-- The difference overflows for keys that far from the lower bound, and then there is no offset. -/
theorem target?_far (hhigh : key ≤ high) (hfar : 2 ^ 31 ≤ key.toInt - low.toInt) :
    target? (.range default low high offsets) key = none := by
  rw [Int32.le_iff_toInt_le] at hhigh
  have hkey := key.toInt_lt
  have hlow' := low.le_toInt
  have hsub : (key - low).toInt < 0 := by
    rw [Int32.toInt_sub, Int.bmod_def]
    omega
  rw [target?, if_neg (by rw [Int32.lt_iff_toInt_lt, Int32.lt_iff_toInt_lt]; omega)]
  dsimp only
  rw [if_pos (Int32.lt_iff_toInt_lt.2 hsub)]

/-- The first row of a key counts. -/
theorem target?_first (h : ∀ row ∈ before, row.1 ≠ key) :
    target? (.pairs default (before ++ (key, offset) :: behind)) key = some offset := by
  have hfind : (before ++ (key, offset) :: behind).find? (fun row => row.1 == key) = some (key, offset) := by
    rw [List.find?_append, List.find?_eq_none.2 fun row hrow => by simpa using h row hrow]
    simp
  rw [target?, hfind]

theorem target?_other (h : ∀ row ∈ rows, row.1 ≠ key) : target? (.pairs default rows) key = some default := by
  rw [target?, List.find?_eq_none.2 fun row hrow => by simpa using h row hrow]

/-- Code that has the offsets of a range is longer than the keys are apart. -/
theorem LiesAt.size_le {code : Array UInt8} {start : Nat} (h : LiesAt code start (.range default low high offsets))
    (hsize : code.size < 2 ^ 33 + 16) : (offsets.size : Int) = high.toInt - low.toInt + 1 ∧ offsets.size ≤ 2 ^ 31 := by
  cases h with
  | range _ _ hcount _ hstop => exact ⟨hcount, by omega⟩

/-- A table that lies in code has an offset for every key. -/
theorem LiesAt.exists_target {code : Array UInt8} {start : Nat} {s : SwitchTable} (h : s.LiesAt code start)
    (hsize : code.size < 2 ^ 33 + 16) (key : Int32) : ∃ offset, s.target? key = some offset := by
  cases s with
  | range default low high offsets =>
    obtain ⟨hcount, hle⟩ := h.size_le hsize
    by_cases hout : key < low ∨ high < key
    · exact ⟨default, target?_outside hout⟩
    · rw [not_or, Int32.not_lt, Int32.not_lt] at hout
      obtain ⟨-, _, htarget⟩ := target?_inside hcount hle hout.1 hout.2
      exact ⟨_, htarget⟩
  | pairs default rows =>
    rw [target?]
    split <;> exact ⟨_, rfl⟩

end SwitchTable

/-- A switch goes on at the offset of a key, relative to the instruction. -/
theorem Execute.run_select {table : SwitchTable} {key offset : Int32} {m m' : Machine} (hkey : M.popInt m = .ok key m')
    (h : table.target? key = some offset) : select table m = jump offset m' := by
  change EStateM.bind M.popInt _ m = _
  rw [EStateM.bind, hkey]
  dsimp only
  rw [h]

open SwitchTable Execute in
/-- Every key selects an offset of a table that was read, wherever in code it was read, and a switch goes on there. The
offset of a key between the bounds of a range is found at the difference from the lower bound, which does not overflow, and
for rows it is that of the first row with the key; all other keys select the default. The words are those of the code behind
the padding. Only code of more than eight gigabytes has the offsets for two keys whose difference overflows, and a method
has at most 65535 bytes. -/
theorem switch_targets (c : CodeCursor) (key : Int32) (hsize : c.code.size < 2 ^ 33 + 16) :
    (∀ s c', tableSwitch c = .ok s c' →
      ∃ default low high offsets, s = .range default low high offsets ∧ s.LiesAt c.code c.aligned ∧
        (low ≤ key → key ≤ high → (key - low).toInt = key.toInt - low.toInt ∧
          ∃ h : (key.toInt - low.toInt).toNat < offsets.size,
            s.target? key = some offsets[(key.toInt - low.toInt).toNat]) ∧
        (key < low ∨ high < key → s.target? key = some default)) ∧
    (∀ s c', lookupSwitch c = .ok s c' →
      ∃ default rows, s = .pairs default rows ∧ s.LiesAt c.code c.aligned ∧
        (∀ before offset behind, rows = before ++ (key, offset) :: behind → (∀ row ∈ before, row.1 ≠ key) →
          s.target? key = some offset) ∧
        ((∀ row ∈ rows, row.1 ≠ key) → s.target? key = some default)) ∧
    ∀ s c' m m', tableSwitch c = .ok s c' ∨ lookupSwitch c = .ok s c' → M.popInt m = .ok key m' →
      ∃ offset, s.target? key = some offset ∧ select s m = jump offset m' := by
  refine ⟨fun s c' h => ?_, fun s c' h => ?_, fun s c' m m' h hkey => ?_⟩
  · obtain ⟨default, low, high, offsets, rfl, hlies⟩ := lies_of_tableSwitch h
    obtain ⟨hcount, hle⟩ := hlies.size_le hsize
    exact ⟨default, low, high, offsets, rfl, hlies, target?_inside hcount hle, target?_outside⟩
  · obtain ⟨default, rows, rfl, hlies⟩ := lies_of_lookupSwitch h
    refine ⟨default, rows, rfl, hlies, ?_, target?_other⟩
    rintro before offset behind rfl hbefore
    exact target?_first hbefore
  · have hlies : s.LiesAt c.code c.aligned := by
      rcases h with h | h
      · obtain ⟨_, _, _, _, -, hlies⟩ := lies_of_tableSwitch h
        exact hlies
      · obtain ⟨_, _, -, hlies⟩ := lies_of_lookupSwitch h
        exact hlies
    obtain ⟨offset, htarget⟩ := hlies.exists_target hsize key
    exact ⟨offset, htarget, run_select hkey htarget⟩

namespace Samples

/-- A `tableswitch` behind its opcode, with the two largest keys as its bounds. -/
def highest : Array UInt8 :=
  #[0xaa, 0, 0, 0, 0, 0, 0, 1, 0x7f, 0xff, 0xff, 0xfe, 0x7f, 0xff, 0xff, 0xff, 0, 0, 0, 2, 0, 0, 0, 3]

/-- A `lookupswitch` without rows. -/
def rowless : Array UInt8 := #[0xab, 0, 0, 0, 0xff, 0xff, 0xff, 0xff, 0, 0, 0, 0]

end Samples

open SwitchTable Samples in
/-- The largest key finds the last offset of a range that ends with it, and a table without rows has its default for it. -/
theorem switch_targets_extreme :
    highest.size < 2 ^ 33 + 16 ∧
    tableSwitch ⟨highest, 1⟩ = .ok (.range 1 (Int32.maxValue - 1) Int32.maxValue #[2, 3]) ⟨highest, 24⟩ ∧
    target? (.range 1 (Int32.maxValue - 1) Int32.maxValue #[2, 3]) Int32.maxValue = some 3 ∧
    lookupSwitch ⟨rowless, 1⟩ = .ok (.pairs (-1) []) ⟨rowless, 12⟩ ∧
    target? (.pairs (-1) []) Int32.maxValue = some (-1) := by
  have htable : tableSwitch ⟨highest, 1⟩ = .ok (.range 1 (Int32.maxValue - 1) Int32.maxValue #[2, 3]) ⟨highest, 24⟩ := by
    rfl
  have hlookup : lookupSwitch ⟨rowless, 1⟩ = .ok (.pairs (-1) []) ⟨rowless, 12⟩ := by rfl
  obtain ⟨_, _, _, _, hrange, -, hinside, -⟩ := (switch_targets ⟨highest, 1⟩ Int32.maxValue (by decide)).1 _ _ htable
  obtain ⟨_, _, hpairs, -, -, hother⟩ := (switch_targets ⟨rowless, 1⟩ Int32.maxValue (by decide)).2.1 _ _ hlookup
  cases hrange
  cases hpairs
  obtain ⟨-, _, htarget⟩ := hinside (by decide) (by decide)
  exact ⟨by decide, htable, htarget, hlookup, hother nofun⟩

end JavaMachine
