import JavaMachine.Code.Cursor
import Mathlib.Algebra.Group.Int.Defs
import Mathlib.Algebra.Group.Nat.Defs

/-!
Where a reader of code reads. From a place where positions do not wrap, a reader is `Confined`: it goes forward, looks
only at the bytes that it passes, which all lie in the code, and stops at nothing but the end of the code. The check
before a read compares only the end of what is read, so at any other position the first read decides: if its end passes
the check, the read is `Astray` and a byte outside of the code is asked for. Main results: `run_fixed_of_inside`,
`confined_tableSwitch`, `confined_lookupSwitch` and `guarded_call`, what each call of a reader does at any position.
-/

namespace JavaMachine

/-- A fault says that the code ends too early. -/
def CodeFault.IsOverrun : CodeFault → Prop
  | .outside _ => False
  | _ => True

namespace CodeCursor

/-- An operand from here ends at a position that a word holds. -/
structure Placed (c : CodeCursor) : Prop where
  nonneg : 0 ≤ c.pos
  room : c.pos + 4 < 2 ^ 63

/-- A read of some bytes that the code does not have, though the end of the read passes for one inside of it. -/
structure Astray (c : CodeCursor) (width : Int) : Prop where
  reads : 0 < width
  outside : c.pos < 0 ∨ c.code.size < c.pos + width
  passes : c.after width ≤ c.code.size

/-- One cursor is another one that has gone forward inside of the code, or has stayed. -/
structure Onward (c c' : CodeCursor) : Prop where
  code : c'.code = c.code
  forward : c'.pos = c.pos ∨ c.pos < c'.pos ∧ c'.pos ≤ c.code.size

/-- Other code of the same size has the same bytes between a cursor and a position. -/
structure Agrees (c : CodeCursor) (stop : Int) (code : Array UInt8) : Prop where
  size : code.size = c.code.size
  bytes : ∀ i : Nat, c.pos ≤ i → i < stop → code[i]? = c.code[i]?

variable {c c' c'' : CodeCursor}

theorem Onward.refl (c : CodeCursor) : c.Onward c := ⟨rfl, .inl rfl⟩

theorem Onward.trans (h : c.Onward c') (h' : c'.Onward c'') : c.Onward c'' := by
  have hforward := h.forward
  have hforward' := h'.forward
  rw [h.code] at hforward'
  exact ⟨h'.code.trans h.code, by omega⟩

theorem Onward.le (h : c.Onward c') : c.pos ≤ c'.pos := by
  have := h.forward
  omega

theorem Placed.onward (h : c.Placed) (hsize : c.code.size + 4 < 2 ^ 63) (hc : c.Onward c') : c'.Placed := by
  have hforward := hc.forward
  have hnonneg := h.nonneg
  have hroom := h.room
  exact ⟨by omega, by omega⟩

/-- A position that the next ones do not wrap around. -/
theorem after_eq {n : Int} (h : -2 ^ 63 ≤ c.pos + n) (h' : c.pos + n < 2 ^ 63) : c.after n = c.pos + n :=
  Int64.toInt_ofInt_of_le h h'

theorem Placed.after_eq (h : c.Placed) {n : Int} (hn : 0 ≤ n) (hle : n ≤ 4) : c.after n = c.pos + n := by
  have hnonneg := h.nonneg
  have hroom := h.room
  exact CodeCursor.after_eq (by omega) (by omega)

theorem Placed.not_astray (h : c.Placed) {width : Int} (hle : width ≤ 4) : ¬ c.Astray width := by
  intro hastray
  have hreads := hastray.reads
  have hpasses := hastray.passes
  have hoverrun := hastray.outside.resolve_left (Int.not_lt.2 h.nonneg)
  rw [h.after_eq (by omega) hle] at hpasses
  omega

end CodeCursor

namespace CodeReader

variable {α β : Type}

theorem run_bind (act : CodeReader α) (f : α → CodeReader β) (c : CodeCursor) :
    (act >>= f) c =
      match act c with
      | .ok v c' => f v c'
      | .error e c' => .error e c' := by
  change EStateM.bind act f c = _
  unfold EStateM.bind
  cases act c <;> rfl

/-- A reader that goes forward inside of the code and looks at no bytes but those that it passes. From a place where
positions do not wrap, it stops at nothing but the end of the code. -/
structure Confined (act : CodeReader α) : Prop where
  passes : ∀ c v c', act c = .ok v c' →
    c.Onward c' ∧ ∀ code, c.Agrees c'.pos code → act { c with code } = .ok v { c' with code }
  stops : ∀ c f c', c.code.size + 4 < 2 ^ 63 → c.Placed → act c = .error f c' → c.Onward c' ∧ f.IsOverrun

theorem confined_pure (v : α) : Confined (pure v : CodeReader α) where
  passes c v c' h := by
    cases h
    exact ⟨.refl c, fun _ _ => rfl⟩
  stops _ _ _ _ _ h := nomatch h

theorem confined_throw {f : CodeFault} (hf : f.IsOverrun) : Confined (throw f : CodeReader α) where
  passes _ _ _ h := nomatch h
  stops c _ _ _ _ h := by
    cases h
    exact ⟨.refl c, hf⟩

theorem exists_of_run_bind {act : CodeReader α} {f : α → CodeReader β} {c c' : CodeCursor} {w : β}
    (h : (act >>= f) c = .ok w c') : ∃ v c₁, act c = .ok v c₁ ∧ f v c₁ = .ok w c' := by
  rw [run_bind] at h
  cases hact : act c with
  | error e c₁ =>
    rw [hact] at h
    cases h
  | ok v c₁ =>
    rw [hact] at h
    exact ⟨v, c₁, rfl, h⟩

theorem confined_bind {act : CodeReader α} {f : α → CodeReader β} (ha : Confined act) (hf : ∀ v, Confined (f v)) :
    Confined (act >>= f) where
  passes c w c' h := by
    obtain ⟨v, c₁, hact, hrest⟩ := exists_of_run_bind h
    obtain ⟨honward, hlocal⟩ := ha.passes c v c₁ hact
    obtain ⟨honward', hlocal'⟩ := (hf v).passes c₁ w c' hrest
    refine ⟨honward.trans honward', fun code hcode => ?_⟩
    have hle := honward.le
    have hle' := honward'.le
    -- the first part has looked at the bytes up to where it stops, the second at those from there on
    rw [run_bind, hlocal code ⟨hcode.size, fun i hi hi' => hcode.bytes i hi (by omega)⟩]
    refine hlocal' code ⟨by rw [honward.code]; exact hcode.size, fun i hi hi' => ?_⟩
    rw [honward.code]
    exact hcode.bytes i (by omega) hi'
  stops c g c' hsize hplaced h := by
    rw [run_bind] at h
    cases hact : act c with
    | error e c₁ =>
      rw [hact] at h
      cases h
      exact ha.stops c _ _ hsize hplaced hact
    | ok v c₁ =>
      rw [hact] at h
      have honward := (ha.passes c v c₁ hact).1
      have hrest := (hf v).stops c₁ g c' (by rw [honward.code]; exact hsize) (hplaced.onward hsize honward) h
      exact ⟨honward.trans hrest.1, hrest.2⟩

/-- What a reader does may depend on its position and on the size of the code. -/
theorem confined_get_bind {f : CodeCursor → CodeReader α} (hf : ∀ c, Confined (f c))
    (hsame : ∀ c code, code.size = c.code.size → f { c with code } = f c) : Confined (get >>= f) where
  passes c v c' h := by
    obtain ⟨honward, hlocal⟩ := (hf c).passes c v c' h
    refine ⟨honward, fun code hcode => ?_⟩
    change f { c with code } { c with code } = _
    rw [hsame c code hcode.size]
    exact hlocal code hcode
  stops c g c' hsize hplaced h := (hf c).stops c g c' hsize hplaced h

theorem confined_map {act : CodeReader α} (h : Confined act) (f : α → β) : Confined (f <$> act) := by
  rw [map_eq_pure_bind]
  exact confined_bind h fun _ => confined_pure _

/-! ## Values of fixed width -/

theorem run_need (n : Int) (c : CodeCursor) :
    need n c = if c.code.size < c.after n then .error (.overrun c.pos) c else .ok () c := by
  change (if _ then throw _ else pure () : CodeReader Unit) c = _
  split <;> rfl

theorem run_fixed (width : Int) (value : CodeCursor → α) (c : CodeCursor) :
    fixed width value c =
      if c.code.size < c.after width then .error (.overrun c.pos) c
      else if c.pos < 0 ∨ c.code.size < c.pos + width then .error (.outside c.pos) c
      else .ok (value c) { c with pos := c.pos + width } := by
  rw [fixed, run_bind, run_need]
  by_cases hafter : c.code.size < c.after width
  · rw [if_pos hafter, if_pos hafter]
  · rw [if_neg hafter, if_neg hafter]
    change (if _ then throw _ >>= _ else _ : CodeReader α) c = _
    split <;> rfl

/-- A value is read where its bytes lie in the code. -/
theorem run_fixed_of_inside {width : Int} {value : CodeCursor → α} {c : CodeCursor} (hsize : c.code.size < 2 ^ 63)
    (hwidth : 0 ≤ width) (hpos : 0 ≤ c.pos) (hstop : c.pos + width ≤ c.code.size) :
    fixed width value c = .ok (value c) { c with pos := c.pos + width } := by
  have hafter : c.after width = c.pos + width := CodeCursor.after_eq (by omega) (by omega)
  rw [run_fixed, if_neg (by omega), if_neg (by omega)]

/-- Where a value is read, its bytes lie in the code. -/
theorem inside_of_run_fixed {width : Int} {value : CodeCursor → α} {c c' : CodeCursor} {v : α}
    (h : fixed width value c = .ok v c') :
    c.after width ≤ c.code.size ∧ 0 ≤ c.pos ∧ c.pos + width ≤ c.code.size ∧ v = value c ∧
      c' = { c with pos := c.pos + width } := by
  rw [run_fixed] at h
  split at h
  · cases h
  · split at h
    · cases h
    · cases h
      exact ⟨by omega, by omega, by omega, rfl, rfl⟩

theorem byteAt_congr {c : CodeCursor} {code : Array UInt8} {k : Nat}
    (h : code[c.pos.toNat + k]? = c.code[c.pos.toNat + k]?) : byteAt { c with code } k = byteAt c k := by
  simp only [byteAt, Array.getD_eq_getD_getElem?, h]

theorem confined_fixed (width : Nat) (hwidth : 0 < width) (hle : width ≤ 4) {value : CodeCursor → α}
    (hvalue : ∀ c code, (∀ k < width, byteAt { c with code } k = byteAt c k) → value { c with code } = value c) :
    Confined (fixed width value) where
  passes c v c' h := by
    obtain ⟨hafter, hnonneg, hstop, rfl, rfl⟩ := inside_of_run_fixed h
    refine ⟨⟨rfl, .inr ⟨by dsimp only; omega, hstop⟩⟩, fun code hcode => ?_⟩
    have hsame : value { c with code } = value c := by
      refine hvalue c code fun k hk => byteAt_congr (hcode.bytes _ (by omega) ?_)
      dsimp only
      omega
    have hsize : code.size = c.code.size := hcode.size
    have hafter' : ¬ (code.size : Int) < CodeCursor.after { c with code } width := by
      rw [hsize]
      exact Int.not_lt.2 hafter
    rw [run_fixed, if_neg hafter', if_neg (by dsimp only; omega), hsame]
  stops c f c' hsize hplaced h := by
    have hnonneg := hplaced.nonneg
    rw [run_fixed, hplaced.after_eq (by omega) (by omega)] at h
    by_cases hfits : c.code.size < c.pos + width
    · rw [if_pos hfits] at h
      cases h
      exact ⟨.refl c, trivial⟩
    · rw [if_neg hfits, if_neg (by omega)] at h
      cases h

theorem confined_u8 : Confined u8 := confined_fixed 1 (by decide) (by decide) fun c code h => h 0 (by decide)

theorem confined_u16 : Confined u16 := by
  refine confined_fixed 2 (by decide) (by decide) fun c code h => ?_
  rw [h 0 (by decide), h 1 (by decide)]

theorem confined_i32 : Confined i32 := by
  refine confined_fixed 4 (by decide) (by decide) fun c code h => ?_
  rw [h 0 (by decide), h 1 (by decide), h 2 (by decide), h 3 (by decide)]

theorem confined_i8 : Confined i8 := confined_bind confined_u8 fun _ => confined_pure _

theorem confined_i16 : Confined i16 := confined_bind confined_u16 fun _ => confined_pure _

/-! ## Switches -/

theorem confined_padding (n : Nat) : Confined (padding n) := by
  induction n with
  | zero => exact confined_pure ()
  | succ n ih =>
    rw [padding]
    refine confined_get_bind (fun c => ?_) fun _ _ _ => rfl
    split
    · exact confined_pure ()
    · exact confined_bind confined_u8 fun _ => ih

theorem confined_words (n : Nat) : Confined (words n) := by
  induction n with
  | zero => exact confined_pure []
  | succ n ih => exact confined_bind confined_i32 fun v => confined_bind ih fun vs => confined_pure (v :: vs)

theorem confined_wordPairs (n : Nat) : Confined (wordPairs n) := by
  induction n with
  | zero => exact confined_pure []
  | succ n ih =>
    exact confined_bind confined_i32 fun k => confined_bind confined_i32 fun v => confined_bind ih fun rows =>
      confined_pure ((k, v) :: rows)

/-- What is read behind the first word of `tableswitch`. -/
def tableRest (default : Int32) : CodeReader SwitchTable := do
  let low ← i32
  let high ← i32
  let n := high.toInt - low.toInt + 1
  if n < 0 ∨ (← get).code.size < n then throw (.tableBounds low high)
  let offsets ← words n.toNat
  return .range default low high offsets.toArray

/-- What is read behind the first word of `lookupswitch`. -/
def pairsRest (default : Int32) : CodeReader SwitchTable := do
  let n ← i32
  if n < 0 ∨ (← get).code.size < n.toInt then throw (.pairCount n)
  return .pairs default (← wordPairs n.toInt.toNat)

theorem confined_tableRest (default : Int32) : Confined (tableRest default) := by
  refine confined_bind confined_i32 fun low => ?_
  refine confined_bind confined_i32 fun high => ?_
  refine confined_get_bind (fun c => ?_) fun c code hcode => by rw [hcode]
  have hrest := confined_bind (confined_words (high.toInt - low.toInt + 1).toNat) fun offsets =>
    confined_pure (SwitchTable.range default low high offsets.toArray)
  split
  · exact confined_bind (confined_throw trivial) fun _ => hrest
  · exact hrest

theorem confined_pairsRest (default : Int32) : Confined (pairsRest default) := by
  refine confined_bind confined_i32 fun n => ?_
  refine confined_get_bind (fun c => ?_) fun c code hcode => by rw [hcode]
  have hrest := confined_bind (confined_wordPairs n.toInt.toNat) fun rows =>
    confined_pure (SwitchTable.pairs default rows)
  split
  · exact confined_bind (confined_throw trivial) fun _ => hrest
  · exact hrest

theorem confined_tableSwitch : Confined tableSwitch :=
  confined_bind (confined_padding 3) fun _ => confined_bind confined_i32 confined_tableRest

theorem confined_lookupSwitch : Confined lookupSwitch :=
  confined_bind (confined_padding 3) fun _ => confined_bind confined_i32 confined_pairsRest

/-! ## The first read -/

/-- At a cursor, a reader reads a value of some width first, and then what a confined reader reads. -/
def Begins (act : CodeReader α) (c : CodeCursor) (width : Nat) : Prop :=
  ∃ (β : Type) (value : CodeCursor → β) (rest : β → CodeReader α),
    (∀ v, Confined (rest v)) ∧ act c = (fixed width value >>= rest) c

theorem begins_fixed (width : Nat) (value : CodeCursor → α) (c : CodeCursor) : Begins (fixed width value) c width :=
  ⟨α, value, pure, confined_pure, by rw [bind_pure]⟩

theorem Begins.bind {act : CodeReader α} {c : CodeCursor} {width : Nat} (h : Begins act c width)
    {f : α → CodeReader β} (hf : ∀ v, Confined (f v)) : Begins (act >>= f) c width := by
  obtain ⟨γ, value, rest, hrest, hact⟩ := h
  refine ⟨γ, value, fun v => rest v >>= f, fun v => confined_bind (hrest v) hf, ?_⟩
  rw [run_bind, hact, ← bind_assoc, run_bind _ f]

theorem Begins.map {act : CodeReader α} {c : CodeCursor} {width : Nat} (h : Begins act c width) (f : α → β) :
    Begins (f <$> act) c width := by
  rw [map_eq_pure_bind]
  exact h.bind fun _ => confined_pure _

/-- A reader that begins with a value goes past it. -/
theorem Begins.advances {act : CodeReader α} {c c' : CodeCursor} {width : Nat} {v : α} (h : Begins act c width)
    (hpos : 0 < width) (hok : act c = .ok v c') : 0 ≤ c.pos ∧ c.pos < c'.pos := by
  obtain ⟨β, value, rest, hrest, hact⟩ := h
  rw [hact] at hok
  obtain ⟨w, c₁, hfixed, hnext⟩ := exists_of_run_bind hok
  obtain ⟨-, hnonneg, -, rfl, rfl⟩ := inside_of_run_fixed hfixed
  have hle := ((hrest _).passes _ _ _ hnext).1.le
  dsimp only at hle
  omega

theorem outside_of_not_placed {c : CodeCursor} {width : Nat} (hpos : 0 < width) (hsize : c.code.size + 4 < 2 ^ 63)
    (hplaced : ¬ c.Placed) : c.pos < 0 ∨ c.code.size < c.pos + width := by
  refine Decidable.byContradiction fun hinside => hplaced ⟨?_, ?_⟩ <;> omega

/-- Where positions wrap, a reader that begins with a value stops there. -/
theorem Begins.stops {act : CodeReader α} {c : CodeCursor} {width : Nat} (h : Begins act c width) (hpos : 0 < width)
    (hsize : c.code.size + 4 < 2 ^ 63) (hplaced : ¬ c.Placed) :
    act c = .error (if c.code.size < c.after width then .overrun c.pos else .outside c.pos) c := by
  obtain ⟨β, value, rest, -, hact⟩ := h
  rw [hact, run_bind, run_fixed, if_pos (outside_of_not_placed hpos hsize hplaced)]
  by_cases hafter : c.code.size < c.after width
  · rw [if_pos hafter, if_pos hafter]
  · rw [if_neg hafter, if_neg hafter]

theorem run_padding {n : Nat} {c : CodeCursor} (h : c.pos % 4 = 0) : padding n c = .ok () c := by
  cases n with
  | zero => rfl
  | succ n =>
    rw [padding]
    change (if _ then _ else _ : CodeReader Unit) c = _
    rw [if_pos h]
    rfl

theorem begins_padding (n : Nat) {c : CodeCursor} (h : c.pos % 4 ≠ 0) : Begins (padding (n + 1)) c 1 := by
  refine ⟨UInt8, fun c => byteAt c 0, fun _ => padding n, fun _ => confined_padding n, ?_⟩
  rw [padding]
  change (if _ then _ else _ : CodeReader Unit) c = _
  rw [if_neg h]
  rfl

/-- A switch begins with its padding, or with its first word where no padding is needed. -/
theorem begins_switch {rest : Int32 → CodeReader α} (hrest : ∀ v, Confined (rest v)) (c : CodeCursor) :
    Begins (do skipPadding; let default ← i32; rest default) c (if c.pos % 4 = 0 then 4 else 1) := by
  split
  · next h =>
    obtain ⟨β, value, next, hnext, hrun⟩ := (begins_fixed 4 _ c).bind hrest
    exact ⟨β, value, next, hnext, by rw [run_bind, skipPadding, run_padding h]; exact hrun⟩
  · next h => exact (begins_padding 2 h).bind fun _ => confined_bind confined_i32 hrest

/-- A reader that reads `width` bytes first. If it succeeds, it has read the bytes that it has passed, all of them in
the code, and no others. If it fails, it has found that the code ends too early, unless its first read was astray. -/
def Guarded (act : CodeReader α) (width : Nat) (c : CodeCursor) : Prop :=
  match act c with
  | .ok v c' => c'.code = c.code ∧ (0 < width → 0 ≤ c.pos ∧ c.pos < c'.pos ∧ c'.pos ≤ c.code.size) ∧
      ∀ code, c.Agrees c'.pos code → act { c with code } = .ok v { c' with code }
  | .error f c' => c'.code = c.code ∧ (f.IsOverrun ∧ ¬ c.Astray width ∨ f = .outside c.pos ∧ c.Astray width ∧ c' = c)

/-- Where positions do not wrap, no read is astray; elsewhere the first read decides. -/
theorem guarded_of_begins {act : CodeReader α} {c : CodeCursor} {width : Nat} (hsize : c.code.size + 4 < 2 ^ 63)
    (hconfined : Confined act) (hpos : 0 < width) (hle : width ≤ 4) (hbegins : Begins act c width) :
    Guarded act width c := by
  unfold Guarded
  by_cases hplaced : c.Placed
  · have hastray : ¬ c.Astray width := hplaced.not_astray (by omega)
    cases hact : act c with
    | error f c' =>
      obtain ⟨honward, hoverrun⟩ := hconfined.stops c f c' hsize hplaced hact
      exact ⟨honward.code, .inl ⟨hoverrun, hastray⟩⟩
    | ok v c' =>
      obtain ⟨honward, hlocal⟩ := hconfined.passes c v c' hact
      obtain ⟨hnonneg, hlt⟩ := hbegins.advances hpos hact
      have hforward := honward.forward
      exact ⟨honward.code, fun _ => ⟨hnonneg, hlt, by omega⟩, hlocal⟩
  · -- the check before the first read compares a sum that may have wrapped
    have houtside := outside_of_not_placed hpos hsize hplaced
    rw [hbegins.stops hpos hsize hplaced]
    refine ⟨rfl, ?_⟩
    by_cases hafter : c.code.size < c.after width
    · rw [if_pos hafter]
      exact .inl ⟨trivial, fun h => absurd h.passes (by omega)⟩
    · rw [if_neg hafter]
      exact .inr ⟨rfl, ⟨by omega, houtside, by omega⟩, rfl⟩

end CodeReader

/-! ## Calls -/

/-- What a call of a reader gives. -/
inductive CodeAnswer where
  | nothing
  | number (n : Int)
  | table (t : SwitchTable)

/-- A call of a reader; an opcode is read as a byte. -/
inductive CodeCall where
  | reset (pos : Int64)
  | u8
  | i8
  | u16
  | i16
  | i32
  | padding
  | skip (n : Int64)
  | tableSwitch
  | lookupSwitch

namespace CodeCall

open CodeReader

/-- What a call does. -/
def perform : CodeCall → CodeReader CodeAnswer
  | .reset pos => (fun _ => .nothing) <$> modify fun c => { c with pos := pos.toInt }
  | .u8 => (.number ·.toNat) <$> CodeReader.u8
  | .i8 => (.number ·.toInt) <$> CodeReader.i8
  | .u16 => (.number ·.toNat) <$> CodeReader.u16
  | .i16 => (.number ·.toInt) <$> CodeReader.i16
  | .i32 => (.number ·.toInt) <$> CodeReader.i32
  | .padding => (fun _ => .nothing) <$> skipPadding
  | .skip n => (fun _ => .nothing) <$> CodeReader.skip n.toInt
  | .tableSwitch => .table <$> CodeReader.tableSwitch
  | .lookupSwitch => .table <$> CodeReader.lookupSwitch

/-- How many bytes a call reads first; padding reads none at a multiple of four. -/
def width (c : CodeCursor) : CodeCall → Nat
  | .u8 | .i8 => 1
  | .u16 | .i16 => 2
  | .i32 => 4
  | .padding => if c.pos % 4 = 0 then 0 else 1
  | .tableSwitch | .lookupSwitch => if c.pos % 4 = 0 then 4 else 1
  | .reset _ | .skip _ => 0

variable {c : CodeCursor} {call : CodeCall}

theorem run_skip (n : Int64) (c : CodeCursor) :
    (CodeCall.skip n).perform c =
      if c.code.size < c.after n.toInt then .error (.overrun c.pos) c
      else .ok .nothing { c with pos := c.after n.toInt } := by
  rw [perform, CodeReader.skip, map_eq_pure_bind, run_bind, run_bind, run_need]
  by_cases hafter : c.code.size < c.after n.toInt
  · rw [if_pos hafter, if_pos hafter]
  · rw [if_neg hafter, if_neg hafter]
    rfl

theorem guarded_skip (n : Int64) : Guarded (CodeCall.skip n).perform 0 c := by
  unfold Guarded
  rw [run_skip]
  by_cases hafter : c.code.size < c.after n.toInt
  · rw [if_pos hafter]
    exact ⟨rfl, .inl ⟨trivial, fun h => absurd h.reads (Int.lt_irrefl 0)⟩⟩
  · rw [if_neg hafter]
    refine ⟨rfl, nofun, fun code hcode => ?_⟩
    have hsize := hcode.size
    rw [run_skip, if_neg (by dsimp only [CodeCursor.after] at *; omega)]
    rfl

theorem guarded_padding (hsize : c.code.size + 4 < 2 ^ 63) :
    Guarded CodeCall.padding.perform (CodeCall.padding.width c) c := by
  by_cases h : c.pos % 4 = 0
  · have hrun {c : CodeCursor} (h : c.pos % 4 = 0) : CodeCall.padding.perform c = .ok .nothing c := by
      rw [perform, skipPadding, map_eq_pure_bind, run_bind, run_padding h]
      rfl
    unfold Guarded
    rw [hrun h]
    have hwidth : CodeCall.padding.width c = 0 := if_pos h
    exact ⟨rfl, fun hpos => absurd hpos (by omega), fun code _ => hrun h⟩
  · have hwidth : CodeCall.padding.width c = 1 := if_neg h
    rw [hwidth]
    refine guarded_of_begins hsize (confined_map (confined_padding 3) _) (by decide) (by decide) ?_
    exact (begins_padding 2 h).map fun _ => CodeAnswer.nothing

theorem guarded_switch (hsize : c.code.size + 4 < 2 ^ 63) {rest : Int32 → CodeReader SwitchTable}
    (hrest : ∀ v, Confined (rest v))
    (hperform : call.perform = CodeAnswer.table <$> (do skipPadding; let default ← CodeReader.i32; rest default))
    (hwidth : call.width c = if c.pos % 4 = 0 then 4 else 1) : Guarded call.perform (call.width c) c := by
  rw [hperform, hwidth]
  refine guarded_of_begins hsize ?_ ?_ ?_ ((begins_switch hrest c).map _)
  · exact confined_map (confined_bind (confined_padding 3) fun _ => confined_bind confined_i32 hrest) _
  · split <;> decide
  · split <;> decide

/-- What comes of a call at any position. -/
theorem guarded_call (call : CodeCall) (hsize : c.code.size + 4 < 2 ^ 63) : Guarded call.perform (call.width c) c := by
  cases call with
  | reset pos => exact ⟨rfl, nofun, fun _ _ => rfl⟩
  | skip n => exact guarded_skip n
  | u8 =>
    change Guarded _ 1 c
    exact guarded_of_begins hsize (confined_map confined_u8 _) (by decide) (by decide) ((begins_fixed 1 _ c).map _)
  | i8 =>
    change Guarded _ 1 c
    exact guarded_of_begins hsize (confined_map confined_i8 _) (by decide) (by decide)
      (((begins_fixed 1 _ c).map _).map _)
  | u16 =>
    change Guarded _ 2 c
    exact guarded_of_begins hsize (confined_map confined_u16 _) (by decide) (by decide) ((begins_fixed 2 _ c).map _)
  | i16 =>
    change Guarded _ 2 c
    exact guarded_of_begins hsize (confined_map confined_i16 _) (by decide) (by decide)
      (((begins_fixed 2 _ c).map _).map _)
  | i32 =>
    change Guarded _ 4 c
    exact guarded_of_begins hsize (confined_map confined_i32 _) (by decide) (by decide) ((begins_fixed 4 _ c).map _)
  | padding => exact guarded_padding hsize
  | tableSwitch => exact guarded_switch hsize confined_tableRest rfl rfl
  | lookupSwitch => exact guarded_switch hsize confined_pairsRest rfl rfl

end CodeCall

/-- The cursor after a call, whether it succeeds or not. -/
def CodeCursor.called (c : CodeCursor) (call : CodeCall) : CodeCursor :=
  match call.perform c with
  | .ok _ c' => c'
  | .error _ c' => c'

/-- A call leaves the code as it is. -/
theorem CodeCursor.code_called {c : CodeCursor} (hsize : c.code.size + 4 < 2 ^ 63) (call : CodeCall) :
    (c.called call).code = c.code := by
  have hguarded := call.guarded_call hsize
  unfold CodeReader.Guarded at hguarded
  unfold called
  cases hperform : call.perform c <;> rw [hperform] at hguarded <;> exact hguarded.1

theorem CodeCursor.code_calls {c : CodeCursor} (hsize : c.code.size + 4 < 2 ^ 63) (calls : List CodeCall) :
    (calls.foldl called c).code = c.code := by
  induction calls generalizing c with
  | nil => rfl
  | cons call rest ih =>
    have hcode := code_called hsize call
    exact (ih (by rw [hcode]; exact hsize)).trans hcode

end JavaMachine
