import JavaMachine.ClassFile.Fault
import JavaMachine.Proofs.ClassFile.Reading
import Mathlib.Data.List.Basic

/-!
What a cursor answers. Behind a cursor are the bytes that it has passed, before it those that are unread. A request is
served if the unread bytes begin with what its value is written with; these are passed and the value is given. If they do
not, the failure is kept and zero is given, and nothing changes any more whatever is asked for. A length whose end is no
64-bit position is not refused: it is the only request that leads a cursor out of its buffer. Main results:
`perform_served`, `perform_missed`, `performAll_placed` and `performAll_of_failed`, and from them `written_read_back`.
-/

namespace JavaMachine

open BigEndian

/-! ## Requests -/

/-- What a cursor is asked for: a value, or to go on. -/
inductive Cursor.Request where
  | u8
  | u16
  | u32
  | u64
  | bytes (n : Int64)
  | table
  | skip (n : Int64)
deriving DecidableEq, Repr

namespace Cursor.Request

/-- Asks a cursor. Going on gives no value. -/
def perform : Request → Cursor → Except Crash (Option Chunk × Cursor)
  | .u8, c => (fun p => (some (.u8 p.1), p.2)) <$> c.u8
  | .u16, c => (fun p => (some (.u16 p.1), p.2)) <$> c.u16
  | .u32, c => (fun p => (some (.u32 p.1), p.2)) <$> c.u32
  | .u64, c => (fun p => (some (.u64 p.1), p.2)) <$> c.u64
  | .bytes n, c => (fun p => (some (.bytes p.1), p.2)) <$> c.bytes n
  | .table, c => (fun p => (some (.table p.1), p.2)) <$> c.table
  | .skip n, c => .ok (none, c.skip n)

/-- Asks for one thing after the other. -/
def performAll : List Request → Cursor → Except Crash (List (Option Chunk) × Cursor)
  | [], c => .ok ([], c)
  | r :: rest, c => do
    let (v, c) ← r.perform c
    let (vs, c) ← performAll rest c
    return (v :: vs, c)

/-- What a request gives where it fails. -/
def zero : Request → Option Chunk
  | .u8 => some (.u8 0)
  | .u16 => some (.u16 0)
  | .u32 => some (.u32 0)
  | .u64 => some (.u64 0)
  | .bytes _ => some (.bytes [])
  | .table => some (.table [])
  | .skip _ => none

/-- No failure is kept yet, and the end of what is asked for is no position. -/
def Wraps : Request → Cursor → Prop
  | .bytes n, c | .skip n, c => c.failure = none ∧ 2 ^ 63 ≤ c.pos.toInt + n.toInt
  | _, _ => False

/-- No request wraps at the place where it is made. -/
def NoneWraps : List Request → Cursor → Prop
  | [], _ => True
  | r :: rest, c =>
    ¬ r.Wraps c ∧
      match r.perform c with
      | .ok (_, c) => NoneWraps rest c
      | .error _ => True

instance : (r : Request) → (c : Cursor) → Decidable (r.Wraps c)
  | .bytes n, c | .skip n, c => inferInstanceAs (Decidable (c.failure = none ∧ 2 ^ 63 ≤ c.pos.toInt + n.toInt))
  | .u8, _ | .u16, _ | .u32, _ | .u64, _ | .table, _ => inferInstanceAs (Decidable False)

/-- Requests are made one after the other to see that none wraps. -/
def decideNoneWraps : (requests : List Request) → (c : Cursor) → Decidable (NoneWraps requests c)
  | [], _ => inferInstanceAs (Decidable True)
  | r :: rest, c =>
    have : Decidable (match r.perform c with
        | .ok (_, c) => NoneWraps rest c
        | .error _ => True) :=
      match r.perform c with
      | .ok (_, c) => decideNoneWraps rest c
      | .error _ => inferInstanceAs (Decidable True)
    inferInstanceAs (Decidable (¬ r.Wraps c ∧ _))

instance (requests : List Request) (c : Cursor) : Decidable (NoneWraps requests c) := decideNoneWraps requests c

end Cursor.Request

/-- The request that reads back what was written. -/
def Chunk.request : Chunk → Cursor.Request
  | .u8 _ => .u8
  | .u16 _ => .u16
  | .u32 _ => .u32
  | .u64 _ => .u64
  | .bytes bs => .bytes (Int64.ofNat bs.length)
  | .table _ => .table

/-- The number of entries of a table is a 16-bit word. -/
def Chunk.Counted : Chunk → Prop
  | .table vs => vs.length ≤ 65535
  | _ => True

instance : (v : Chunk) → Decidable v.Counted
  | .table vs => inferInstanceAs (Decidable (vs.length ≤ 65535))
  | .u8 _ | .u16 _ | .u32 _ | .u64 _ | .bytes _ => inferInstanceAs (Decidable True)

namespace Cursor

/-- Bytes serve a request with a value: they are what the value is written with, or they are as many as are skipped. -/
inductive Serves : Request → List UInt8 → Option Chunk → Prop
  | value (v : Chunk) (h : v.Counted) : Serves v.request v.encode (some v)
  | skipped (front : List UInt8) : Serves (.skip (Int64.ofNat front.length)) front none

/-- The unread bytes do not begin with any that serve a request. -/
def Missing (r : Request) (unread : List UInt8) : Prop := ∀ front rest v, unread = front ++ rest → ¬ Serves r front v

/-- A cursor with the bytes that it has passed and those that are unread. -/
def placed (passed unread : List UInt8) (failure : Option Shortage) : Cursor :=
  { data := (passed ++ unread).toArray, pos := Int64.ofNat passed.length, failure }

/-- The failure of a read that wants more bytes than are unread. -/
def shortage (n : Int64) (passed unread : List UInt8) : Shortage :=
  ⟨n, Int64.ofNat passed.length, Int64.ofNat unread.length⟩

variable {passed unread front : List UInt8} {failure : Option Shortage} {n : Int64} {r : Request} {c c' : Cursor}

theorem ofBytes_eq (bytes : List UInt8) : ofBytes bytes = placed [] bytes none := rfl

/-! ## Positions -/

/-- The end of a read: the sum, if it is a position. -/
theorem toInt_end (hsize : (passed ++ unread).length < 2 ^ 63) (hn : 0 ≤ n.toInt) :
    (Int64.ofNat passed.length + n).toInt =
      if passed.length + n.toInt < 2 ^ 63 then passed.length + n.toInt else passed.length + n.toInt - 2 ^ 64 := by
  rw [List.length_append] at hsize
  have hlt := n.toInt_lt
  rw [Int64.toInt_add, Int64.toInt_ofNat_of_lt (by omega), Int.bmod_def]
  split <;> omega

theorem length_placed : (placed passed unread failure).length = Int64.ofNat (passed ++ unread).length := by
  rw [length, placed, List.size_toArray]

theorem remaining_placed : (placed passed unread failure).remaining = Int64.ofNat unread.length := by
  rw [remaining, length_placed, placed, List.length_append, Int64.ofNat_add, Int64.add_comm, Int64.add_sub_cancel]

theorem need_placed (hsize : (passed ++ unread).length < 2 ^ 63) (n : Int64) :
    need (placed passed unread none) n =
      if 0 ≤ n.toInt ∧ (n.toInt ≤ unread.length ∨ 2 ^ 63 ≤ passed.length + n.toInt) then
        (true, placed passed unread none)
      else (false, placed passed unread (some (shortage n passed unread))) := by
  have hlt := n.toInt_lt
  have hrefused : (n < 0 ∨ (placed passed unread none).length < (placed passed unread none).pos + n) ↔
      ¬ (0 ≤ n.toInt ∧ (n.toInt ≤ unread.length ∨ 2 ^ 63 ≤ passed.length + n.toInt)) := by
    rw [Int64.lt_iff_toInt_lt, Int64.lt_iff_toInt_lt, length_placed, Int64.toInt_ofNat_of_lt hsize]
    change n.toInt < 0 ∨ _ < (Int64.ofNat passed.length + n).toInt ↔ _
    by_cases hn : 0 ≤ n.toInt
    · rw [toInt_end hsize hn, List.length_append]
      rw [List.length_append] at hsize
      split <;> omega
    · exact iff_of_true (.inl (Int.not_le.1 hn)) fun h => hn h.1
  have hnone : ¬ (placed passed unread none).failure.isSome := Bool.false_ne_true
  rw [need, if_neg hnone, remaining_placed]
  by_cases hready : 0 ≤ n.toInt ∧ (n.toInt ≤ unread.length ∨ 2 ^ 63 ≤ passed.length + n.toInt)
  · rw [if_pos hready, if_neg fun h => hrefused.1 h hready]
  · rw [if_neg hready, if_pos (hrefused.2 hready)]
    rfl

/-- Once a failure is kept, nothing is ready. -/
theorem need_of_failed (h : c.failure.isSome) (n : Int64) : need c n = (false, c) := by rw [need, if_pos h]

/-! ## Requests that are served -/

theorem pos_placed_nonneg (hsize : (passed ++ unread).length < 2 ^ 63) : ¬ (placed passed unread failure).pos < 0 := by
  rw [List.length_append] at hsize
  rw [Int64.lt_iff_toInt_lt, placed, Int64.toInt_ofNat_of_lt (by omega)]
  exact Int.not_lt.2 (Int.natCast_nonneg _)

/-- Going on past bytes. -/
theorem advance_placed (failure : Option Shortage) (passed front unread : List UInt8) :
    { placed passed (front ++ unread) failure with pos := Int64.ofNat passed.length + Int64.ofNat front.length } =
      placed (passed ++ front) unread failure := by
  rw [placed, placed, ← Int64.ofNat_add, ← List.length_append, List.append_assoc]

theorem byteAt_placed (hsize : (passed ++ (front ++ unread)).length < 2 ^ 63) {k : Nat} {x : UInt8}
    (h : front[k]? = some x) : byteAt (placed passed (front ++ unread) failure) k = x := by
  obtain ⟨hk, -⟩ := List.getElem?_eq_some_iff.1 h
  rw [List.length_append] at hsize
  rw [byteAt, placed, Int64.toInt_ofNat_of_lt (by omega), Int.toNat_natCast, Array.getD_eq_getD_getElem?,
    List.getElem?_toArray, List.getElem?_append_right (Nat.le_add_right _ _), Nat.add_sub_cancel_left,
    List.getElem?_append_left hk, h, Option.getD_some]

theorem need_served (hsize : (passed ++ (front ++ unread)).length < 2 ^ 63) :
    need (placed passed (front ++ unread) none) (Int64.ofNat front.length) =
      (true, placed passed (front ++ unread) none) := by
  have hfront : (Int64.ofNat front.length).toInt = front.length :=
    Int64.toInt_ofNat_of_lt (by simp only [List.length_append] at hsize; omega)
  rw [need_placed hsize, hfront, if_pos]
  rw [List.length_append]
  omega

theorem fixed_served {α : Type} {width : Int64} {zero v : α} {value : Cursor → α}
    (hsize : (passed ++ (front ++ unread)).length < 2 ^ 63) (hwidth : width = Int64.ofNat front.length)
    (hvalue : ∀ c, (∀ k x, front[k]? = some x → byteAt c k = x) → value c = v) :
    fixed (placed passed (front ++ unread) none) width zero value = .ok (v, placed (passed ++ front) unread none) := by
  subst hwidth
  rw [fixed, need_served hsize]
  dsimp only
  rw [if_pos rfl, if_neg (pos_placed_nonneg hsize), hvalue _ fun k x => byteAt_placed hsize, ← advance_placed]
  rfl

theorem u16_served (v : UInt16) (hsize : (passed ++ (bytes16 v ++ unread)).length < 2 ^ 63) :
    u16 (placed passed (bytes16 v ++ unread) none) = .ok (v, placed (passed ++ bytes16 v) unread none) := by
  refine fixed_served hsize rfl fun c hc => ?_
  rw [hc 0 _ rfl, hc 1 _ rfl]
  exact word16_bytes v

theorem bytes_served (bs : List UInt8) (hsize : (passed ++ (bs ++ unread)).length < 2 ^ 63) :
    bytes (placed passed (bs ++ unread) none) (Int64.ofNat bs.length) =
      .ok (bs, placed (passed ++ bs) unread none) := by
  have hlengths := hsize
  simp only [List.length_append] at hlengths
  have hremaining : ¬ (placed passed (bs ++ unread) none).remaining < Int64.ofNat bs.length := by
    rw [Int64.lt_iff_toInt_lt, remaining_placed, Int64.toInt_ofNat_of_lt (by rw [List.length_append]; omega),
      Int64.toInt_ofNat_of_lt (by omega), List.length_append]
    omega
  have hdata : ((placed passed (bs ++ unread) none).data.extract passed.length (passed.length + bs.length)).toList = bs := by
    rw [placed, Array.toList_extract, List.extract_eq_take_drop, List.drop_left, Nat.add_sub_cancel_left, List.take_left]
  rw [bytes, need_served hsize]
  dsimp only
  rw [if_pos rfl, if_neg (not_or.2 ⟨pos_placed_nonneg hsize, hremaining⟩), ← advance_placed]
  have hstart : (placed passed (bs ++ unread) none).pos.toInt.toNat = passed.length := by
    rw [placed, Int64.toInt_ofNat_of_lt (by omega), Int.toNat_natCast]
  rw [hstart, Int64.toInt_ofNat_of_lt (by omega), Int.toNat_natCast, hdata]
  rfl

theorem words_served (vs : List UInt16) (hsize : (passed ++ (vs.flatMap bytes16 ++ unread)).length < 2 ^ 63) :
    words vs.length (placed passed (vs.flatMap bytes16 ++ unread) none) =
      .ok (vs, placed (passed ++ vs.flatMap bytes16) unread none) := by
  induction vs generalizing passed with
  | nil => rw [List.flatMap_nil, List.append_nil]; rfl
  | cons v vs ih =>
    rw [List.flatMap_cons, List.append_assoc] at hsize ⊢
    rw [List.length_cons, words, u16_served v hsize]
    rw [← List.append_assoc] at hsize
    change (words vs.length _ >>= _) = _
    rw [ih hsize, ← List.append_assoc]
    rfl

theorem table_of_count {count : UInt16} (h : u16 c = .ok (count, c')) :
    table c =
      if (need c' (Int64.ofNat (2 * count.toNat))).1 then words count.toNat (need c' (Int64.ofNat (2 * count.toNat))).2
      else .ok ([], (need c' (Int64.ofNat (2 * count.toNat))).2) := by
  rw [table, h]
  rfl

theorem table_served (vs : List UInt16) (hcount : vs.length ≤ 65535)
    (hsize : (passed ++ (tableBytes vs ++ unread)).length < 2 ^ 63) :
    table (placed passed (tableBytes vs ++ unread) none) =
      .ok (vs, placed (passed ++ tableBytes vs) unread none) := by
  have hnat : (UInt16.ofNat vs.length).toNat = vs.length := UInt16.toNat_ofNat_of_lt (Nat.lt_of_le_of_lt hcount (by decide))
  rw [tableBytes, List.append_assoc] at hsize ⊢
  rw [table_of_count (u16_served _ hsize), hnat,
    ← Decoder.length_flatMap_of_const Decoder.length_bytes16]
  rw [← List.append_assoc] at hsize
  rw [need_served hsize, if_pos rfl, words_served vs hsize, ← List.append_assoc]

theorem skip_served (hsize : (passed ++ (front ++ unread)).length < 2 ^ 63) :
    skip (placed passed (front ++ unread) none) (Int64.ofNat front.length) = placed (passed ++ front) unread none := by
  rw [skip, need_served hsize, ← advance_placed]
  rfl

/-- A request that is served passes its bytes. -/
theorem perform_served {v : Option Chunk} (h : Serves r front v) (hsize : (passed ++ (front ++ unread)).length < 2 ^ 63) :
    r.perform (placed passed (front ++ unread) none) = .ok (v, placed (passed ++ front) unread none) := by
  cases h with
  | skipped front => rw [Request.perform, skip_served hsize]
  | value v hv =>
    cases v with
    | u8 v =>
      have hrun : u8 (placed passed ([v] ++ unread) none) = .ok (v, placed (passed ++ [v]) unread none) :=
        fixed_served hsize rfl fun c hc => hc 0 v rfl
      exact congrArg (Functor.map _) hrun
    | u16 v => exact congrArg (Functor.map _) (u16_served v hsize)
    | u32 v =>
      have hrun : u32 (placed passed (bytes32 v ++ unread) none) = .ok (v, placed (passed ++ bytes32 v) unread none) := by
        refine fixed_served hsize rfl fun c hc => ?_
        rw [hc 0 _ rfl, hc 1 _ rfl, hc 2 _ rfl, hc 3 _ rfl]
        exact word32_bytes v
      exact congrArg (Functor.map _) hrun
    | u64 v =>
      have hrun : u64 (placed passed (bytes64 v ++ unread) none) = .ok (v, placed (passed ++ bytes64 v) unread none) := by
        refine fixed_served hsize rfl fun c hc => ?_
        rw [hc 0 _ rfl, hc 1 _ rfl, hc 2 _ rfl, hc 3 _ rfl, hc 4 _ rfl, hc 5 _ rfl, hc 6 _ rfl, hc 7 _ rfl]
        rw [word32_bytes, word32_bytes]
        exact join32_halves v
      exact congrArg (Functor.map _) hrun
    | bytes bs => exact congrArg (Functor.map _) (bytes_served bs hsize)
    | table vs => exact congrArg (Functor.map _) (table_served vs hv hsize)

/-! ## Requests that are not served -/

theorem fixed_missed {α : Type} {zero : α} {value : Cursor → α} (k : Nat) (hk : k ≤ 8) (hshort : unread.length < k)
    (hsize : (passed ++ unread).length < 2 ^ 62) :
    fixed (placed passed unread none) (Int64.ofNat k) zero value =
      .ok (zero, placed passed unread (some (shortage (Int64.ofNat k) passed unread))) := by
  have hwidth : (Int64.ofNat k).toInt = k := Int64.toInt_ofNat_of_lt (by omega)
  rw [List.length_append] at hsize
  rw [fixed, need_placed (by rw [List.length_append]; omega), if_neg (by omega)]
  rfl

theorem exists_bytes16 {data : List UInt8} (h : 2 ≤ data.length) : ∃ v rest, data = bytes16 v ++ rest := by
  rcases data with _ | ⟨a, _ | ⟨b, rest⟩⟩
  · exact absurd h (by decide)
  · exact absurd h (by decide : ¬ 2 ≤ 1)
  · exact ⟨word16 a b, rest, by rw [bytes16_word16]; rfl⟩

theorem exists_bytes32 {data : List UInt8} (h : 4 ≤ data.length) : ∃ v rest, data = bytes32 v ++ rest := by
  rcases data with _ | ⟨a, _ | ⟨b, _ | ⟨c, _ | ⟨d, rest⟩⟩⟩⟩
  · exact absurd h (by decide)
  · exact absurd h (by decide : ¬ 4 ≤ 1)
  · exact absurd h (by decide : ¬ 4 ≤ 2)
  · exact absurd h (by decide : ¬ 4 ≤ 3)
  · exact ⟨word32 a b c d, rest, by rw [bytes32_word32]; rfl⟩

theorem exists_bytes64 {data : List UInt8} (h : 8 ≤ data.length) : ∃ v rest, data = bytes64 v ++ rest := by
  obtain ⟨hi, rest, rfl⟩ := exists_bytes32 (Nat.le_trans (by decide) h)
  rw [List.length_append] at h
  obtain ⟨lo, rest, rfl⟩ := exists_bytes32 (Nat.le_of_add_le_add_left (a := 4) h)
  exact ⟨join32 hi lo, rest, by rw [bytes64_join32, List.append_assoc]⟩

theorem exists_words {data : List UInt8} (count : Nat) (h : 2 * count ≤ data.length) :
    ∃ (vs : List UInt16) (rest : List UInt8), vs.length = count ∧ data = vs.flatMap bytes16 ++ rest := by
  induction count generalizing data with
  | zero => exact ⟨[], data, rfl, rfl⟩
  | succ count ih =>
    obtain ⟨v, rest, rfl⟩ := exists_bytes16 (Nat.le_trans (Nat.le_add_left 2 (2 * count)) h)
    rw [List.length_append, Decoder.length_bytes16] at h
    obtain ⟨vs, rest, rfl, rfl⟩ := ih (show 2 * count ≤ rest.length by omega)
    exact ⟨v :: vs, rest, rfl, by rw [List.flatMap_cons, List.append_assoc]⟩

/-- Only as many bytes as there are can be passed. -/
theorem need_missed (hsize : (passed ++ unread).length < 2 ^ 63) (hfits : ¬ (0 ≤ n.toInt ∧ n.toInt ≤ unread.length))
    (hend : passed.length + n.toInt < 2 ^ 63) :
    need (placed passed unread none) n = (false, placed passed unread (some (shortage n passed unread))) := by
  rw [need_placed hsize, if_neg (by omega)]

theorem not_fits_of_missing (h : ∀ front rest, unread = front ++ rest → n ≠ Int64.ofNat front.length)
    (hsize : unread.length < 2 ^ 63) : ¬ (0 ≤ n.toInt ∧ n.toInt ≤ unread.length) := by
  rintro ⟨hnonneg, hle⟩
  refine h (unread.take n.toInt.toNat) (unread.drop n.toInt.toNat) (List.take_append_drop _ _).symm ?_
  rw [List.length_take_of_le (by omega), ← Int64.toInt_inj, Int64.toInt_ofNat_of_lt (by omega),
    Int.toNat_of_nonneg hnonneg]

theorem table_missed (hmissing : Missing .table unread) (hsize : (passed ++ unread).length < 2 ^ 62) :
    ∃ front rest n, unread = front ++ rest ∧ (rest.length : Int) < n.toInt ∧
      table (placed passed unread none) =
        .ok ([], placed (passed ++ front) rest (some (shortage n (passed ++ front) rest))) := by
  have hlengths := hsize
  rw [List.length_append] at hlengths
  rcases Nat.lt_or_ge unread.length 2 with hshort | hcount
  · have hrun : u16 (placed passed unread none) = .ok (0, placed passed unread (some (shortage 2 passed unread))) :=
      fixed_missed 2 (by decide) hshort hsize
    refine ⟨[], unread, 2, rfl, Int.ofNat_lt.2 hshort, ?_⟩
    rw [table_of_count hrun, need_of_failed rfl, if_neg Bool.false_ne_true, List.append_nil]
  · obtain ⟨count, rest, rfl⟩ := exists_bytes16 hcount
    have hlt := count.toNat_lt
    rw [List.length_append, Decoder.length_bytes16] at hlengths
    have hshort : ¬ 2 * count.toNat ≤ rest.length := by
      intro hwords
      obtain ⟨vs, rest, hvs, rfl⟩ := exists_words count.toNat hwords
      have hbytes : tableBytes vs = bytes16 count ++ vs.flatMap bytes16 := by rw [tableBytes, hvs, UInt16.ofNat_toNat]
      refine hmissing (tableBytes vs) rest _ (by rw [hbytes, List.append_assoc]) (.value (.table vs) ?_)
      change vs.length ≤ 65535
      omega
    have hwanted : (Int64.ofNat (2 * count.toNat)).toInt = (2 * count.toNat : Nat) := Int64.toInt_ofNat_of_lt (by omega)
    have hrefused : need (placed (passed ++ bytes16 count) rest none) (Int64.ofNat (2 * count.toNat)) =
        (false, placed (passed ++ bytes16 count) rest
          (some (shortage (Int64.ofNat (2 * count.toNat)) (passed ++ bytes16 count) rest))) := by
      refine need_missed ?_ ?_ ?_
      · rw [List.append_assoc]
        exact Nat.lt_trans hsize (by decide)
      · omega
      · rw [List.length_append, Decoder.length_bytes16]
        omega
    refine ⟨bytes16 count, rest, Int64.ofNat (2 * count.toNat), rfl, by omega, ?_⟩
    rw [table_of_count (u16_served count (Nat.lt_trans hsize (by decide))), hrefused, if_neg Bool.false_ne_true]

/-- A request that is not served leaves a failure, which tells how many bytes it wants and how many there are. Of a table
the count may have been passed. -/
theorem perform_missed (hmissing : Missing r unread) (hsize : (passed ++ unread).length < 2 ^ 62)
    (hwraps : ¬ r.Wraps (placed passed unread none)) :
    ∃ front rest n, unread = front ++ rest ∧ (n.toInt < 0 ∨ (rest.length : Int) < n.toInt) ∧
      r.perform (placed passed unread none) =
        .ok (r.zero, placed (passed ++ front) rest (some (shortage n (passed ++ front) rest))) := by
  have hlengths := hsize
  rw [List.length_append] at hlengths
  have hroom : (passed ++ unread).length < 2 ^ 63 := Nat.lt_trans hsize (by decide)
  have hplain (n : Int64) (hn : n.toInt < 0 ∨ (unread.length : Int) < n.toInt)
      (h : r.perform (placed passed unread none) =
        .ok (r.zero, placed passed unread (some (shortage n passed unread)))) :
      ∃ front rest n, unread = front ++ rest ∧ (n.toInt < 0 ∨ (rest.length : Int) < n.toInt) ∧
        r.perform (placed passed unread none) =
          .ok (r.zero, placed (passed ++ front) rest (some (shortage n (passed ++ front) rest))) :=
    ⟨[], unread, n, rfl, hn, by rw [List.append_nil]; exact h⟩
  -- a length that is given is refused if the unread bytes are fewer
  have hgiven (n : Int64) (hend : ¬ 2 ^ 63 ≤ (placed passed unread none).pos.toInt + n.toInt)
      (hserves : ∀ front : List UInt8, n = Int64.ofNat front.length → ∃ v, Serves r front v) :
      (n.toInt < 0 ∨ (unread.length : Int) < n.toInt) ∧
        need (placed passed unread none) n = (false, placed passed unread (some (shortage n passed unread))) := by
    have hfits : ¬ (0 ≤ n.toInt ∧ n.toInt ≤ unread.length) := by
      refine not_fits_of_missing (fun front rest hfront hn => ?_) (by omega)
      obtain ⟨v, hv⟩ := hserves front hn
      exact hmissing front rest v hfront hv
    have hpos : (placed passed unread none).pos.toInt = passed.length := Int64.toInt_ofNat_of_lt (by omega)
    rw [hpos] at hend
    exact ⟨by omega, need_missed hroom hfits (by omega)⟩
  have hshort {k : Nat} (h : k ≤ unread.length → ∃ front rest v, unread = front ++ rest ∧ Serves r front v) :
      unread.length < k := by
    refine Nat.lt_of_not_le fun hk => ?_
    obtain ⟨front, rest, v, hfront, hv⟩ := h hk
    exact hmissing front rest v hfront hv
  cases r with
  | u8 =>
    have hlt : unread.length < 1 := hshort fun h => by
      obtain ⟨v, rest, rfl⟩ := List.exists_cons_of_length_pos h
      exact ⟨[v], rest, _, rfl, .value (.u8 v) trivial⟩
    exact hplain 1 (.inr (Int.ofNat_lt.2 hlt)) (congrArg (Functor.map _) (fixed_missed 1 (by decide) hlt hsize))
  | u16 =>
    have hlt : unread.length < 2 := hshort fun h => by
      obtain ⟨v, rest, rfl⟩ := exists_bytes16 h
      exact ⟨_, rest, _, rfl, .value (.u16 v) trivial⟩
    exact hplain 2 (.inr (Int.ofNat_lt.2 hlt)) (congrArg (Functor.map _) (fixed_missed 2 (by decide) hlt hsize))
  | u32 =>
    have hlt : unread.length < 4 := hshort fun h => by
      obtain ⟨v, rest, rfl⟩ := exists_bytes32 h
      exact ⟨_, rest, _, rfl, .value (.u32 v) trivial⟩
    exact hplain 4 (.inr (Int.ofNat_lt.2 hlt)) (congrArg (Functor.map _) (fixed_missed 4 (by decide) hlt hsize))
  | u64 =>
    have hlt : unread.length < 8 := hshort fun h => by
      obtain ⟨v, rest, rfl⟩ := exists_bytes64 h
      exact ⟨_, rest, _, rfl, .value (.u64 v) trivial⟩
    exact hplain 8 (.inr (Int.ofNat_lt.2 hlt)) (congrArg (Functor.map _) (fixed_missed 8 (by decide) hlt hsize))
  | bytes n =>
    obtain ⟨hn, hneed⟩ := hgiven n (fun h => hwraps ⟨rfl, h⟩) fun front hn =>
      ⟨_, by rw [hn]; exact .value (.bytes front) trivial⟩
    refine hplain n hn ?_
    rw [Request.perform, bytes, hneed]
    rfl
  | skip n =>
    obtain ⟨hn, hneed⟩ := hgiven n (fun h => hwraps ⟨rfl, h⟩) fun front hn => ⟨_, by rw [hn]; exact .skipped front⟩
    refine hplain n hn ?_
    rw [Request.perform, skip, hneed]
    rfl
  | table =>
    obtain ⟨front, rest, n, hfront, hn, hrun⟩ := table_missed hmissing hsize
    exact ⟨front, rest, n, hfront, .inr hn, congrArg (Functor.map _) hrun⟩

/-- Where a failure is kept, a request gives zero and changes nothing. -/
theorem perform_of_failed (h : c.failure.isSome) (r : Request) : r.perform c = .ok (r.zero, c) := by
  have hfixed {α : Type} (width : Int64) (zero : α) (value : Cursor → α) :
      fixed c width zero value = .ok (zero, c) := by
    rw [fixed, need_of_failed h]
    rfl
  cases r with
  | u8 => exact congrArg (Functor.map _) (hfixed 1 0 _)
  | u16 => exact congrArg (Functor.map _) (hfixed 2 0 _)
  | u32 => exact congrArg (Functor.map _) (hfixed 4 0 _)
  | u64 => exact congrArg (Functor.map _) (hfixed 8 0 _)
  | bytes n =>
    rw [Request.perform, bytes, need_of_failed h]
    rfl
  | table =>
    have hcount : u16 c = .ok (0, c) := hfixed 2 0 _
    rw [Request.perform, table_of_count hcount, need_of_failed h]
    rfl
  | skip n =>
    rw [Request.perform, skip, need_of_failed h]
    rfl

/-- A request that wraps is not refused: bytes are asked for outside of the buffer, or the cursor goes on to a place before
it. -/
theorem perform_wraps (hsize : (passed ++ unread).length < 2 ^ 63) (h : r.Wraps (placed passed unread none)) :
    r.perform (placed passed unread none) = .error .outOfBounds ∨
      ∃ c', r.perform (placed passed unread none) = .ok (none, c') ∧ c'.failure = none ∧ c'.pos < 0 := by
  have hlengths := hsize
  rw [List.length_append] at hlengths
  have hpos : (placed passed unread none).pos.toInt = passed.length := Int64.toInt_ofNat_of_lt (by omega)
  have hneed (n : Int64) (hwraps : 2 ^ 63 ≤ passed.length + n.toInt) :
      need (placed passed unread none) n = (true, placed passed unread none) := by
    rw [need_placed hsize, if_pos (by omega)]
  cases r with
  | bytes n =>
    have hwraps : 2 ^ 63 ≤ passed.length + n.toInt := hpos ▸ h.2
    have hremaining : (placed passed unread none).remaining < n := by
      rw [Int64.lt_iff_toInt_lt, remaining_placed, Int64.toInt_ofNat_of_lt (by omega)]
      omega
    rw [Request.perform, bytes, hneed n hwraps]
    dsimp only
    rw [if_pos rfl, if_pos (.inr hremaining)]
    exact .inl rfl
  | skip n =>
    have hwraps : 2 ^ 63 ≤ passed.length + n.toInt := hpos ▸ h.2
    have hlt := n.toInt_lt
    refine .inr ⟨{ placed passed unread none with pos := (placed passed unread none).pos + n }, ?_, rfl, ?_⟩
    · rw [Request.perform, skip, hneed n hwraps]
      rfl
    · rw [Int64.lt_iff_toInt_lt]
      change (Int64.ofNat passed.length + n).toInt < 0
      rw [toInt_end hsize (by omega), if_neg (by omega)]
      omega
  | u8 | u16 | u32 | u64 | table => exact h.elim

/-! ## Runs -/

theorem serves_or_missing (r : Request) (unread : List UInt8) :
    (∃ front rest v, unread = front ++ rest ∧ Serves r front v) ∨ Missing r unread := by
  refine or_iff_not_imp_left.2 fun h front rest v hunread hv => h ⟨front, rest, v, hunread, hv⟩

/-- A request that does not wrap leaves the buffer as it is and the position in it. -/
theorem perform_placed (hsize : (passed ++ unread).length < 2 ^ 62) (h : ¬ r.Wraps (placed passed unread failure)) :
    ∃ v passed' unread' failure', passed' ++ unread' = passed ++ unread ∧
      r.perform (placed passed unread failure) = .ok (v, placed passed' unread' failure') := by
  cases failure with
  | some s => exact ⟨r.zero, passed, unread, some s, rfl, perform_of_failed rfl r⟩
  | none =>
    obtain ⟨front, rest, v, rfl, hv⟩ | hmissing := serves_or_missing r unread
    · exact ⟨v, passed ++ front, rest, none, List.append_assoc _ _ _, perform_served hv (Nat.lt_trans hsize (by decide))⟩
    · obtain ⟨front, rest, n, rfl, -, hrun⟩ := perform_missed hmissing hsize h
      exact ⟨r.zero, passed ++ front, rest, _, List.append_assoc _ _ _, hrun⟩

/-- What is asked first is answered first. -/
theorem performAll_cons {v : Option Chunk} {vs : List (Option Chunk)} {rest : List Request} {c'' : Cursor}
    (h : r.perform c = .ok (v, c')) (hrest : Request.performAll rest c' = .ok (vs, c'')) :
    Request.performAll (r :: rest) c = .ok (v :: vs, c'') := by
  rw [Request.performAll, h]
  change (Request.performAll rest c' >>= _) = _
  rw [hrest]
  rfl

theorem performAll_placed {requests : List Request} (hsize : (passed ++ unread).length < 2 ^ 62)
    (h : Request.NoneWraps requests (placed passed unread failure)) :
    ∃ vs passed' unread' failure', passed' ++ unread' = passed ++ unread ∧
      Request.performAll requests (placed passed unread failure) = .ok (vs, placed passed' unread' failure') := by
  induction requests generalizing passed unread failure with
  | nil => exact ⟨[], passed, unread, failure, rfl, rfl⟩
  | cons r rest ih =>
    obtain ⟨v, passed₁, unread₁, failure₁, hdata, hfirst⟩ := perform_placed hsize h.1
    have hwraps := h.2
    rw [hfirst] at hwraps
    obtain ⟨vs, passed₂, unread₂, failure₂, hdata', hrest⟩ := ih (by rw [hdata]; exact hsize) hwraps
    exact ⟨v :: vs, passed₂, unread₂, failure₂, hdata'.trans hdata, performAll_cons hfirst hrest⟩

theorem performAll_of_failed (h : c.failure.isSome) (requests : List Request) :
    Request.performAll requests c = .ok (requests.map Request.zero, c) := by
  induction requests with
  | nil => rfl
  | cons r rest ih => exact performAll_cons (perform_of_failed h r) ih

theorem performAll_served (chunks : List Chunk) (hcounted : ∀ v ∈ chunks, v.Counted)
    (hsize : (passed ++ chunks.flatMap Chunk.encode).length < 2 ^ 63) :
    Request.performAll (chunks.map Chunk.request) (placed passed (chunks.flatMap Chunk.encode) none) =
      .ok (chunks.map some, placed (passed ++ chunks.flatMap Chunk.encode) [] none) := by
  induction chunks generalizing passed with
  | nil => rw [List.flatMap_nil, List.append_nil]; rfl
  | cons v rest ih =>
    rw [List.flatMap_cons] at hsize ⊢
    have hfirst := perform_served (.value v (hcounted v List.mem_cons_self)) hsize
    rw [← List.append_assoc] at hsize ⊢
    exact performAll_cons hfirst (ih (fun v hv => hcounted v (List.mem_cons_of_mem _ hv)) hsize)

/-! ## The laws of a cursor -/

/-- The bytes that are not read yet. -/
def rest (c : Cursor) : List UInt8 := c.data.toList.drop c.pos.toInt.toNat

/-- A request finds its bytes in front of a cursor, passes them and gives their value. -/
def Grants (r : Request) (c : Cursor) : Prop :=
  ∃ front rest v, c.rest = front ++ rest ∧ Serves r front v ∧
    r.perform c = .ok (v, { c with pos := c.pos + Int64.ofNat front.length })

/-- A request for which there are too few bytes gives zero and leaves a failure: the class file is truncated. -/
def Refuses (r : Request) (c : Cursor) : Prop :=
  Missing r c.rest ∧ ∃ c' s, r.perform c = .ok (r.zero, c') ∧ c'.failure = some s ∧
    (FormatFault.short s).kind = .truncated ∧ s.offset = c'.pos ∧ s.left = c'.remaining ∧ (s.wanted < 0 ∨ s.left < s.wanted)

/-- A request leads out of the buffer, and no failure is kept. -/
def Escapes (r : Request) (c : Cursor) : Prop :=
  r.perform c = .error .outOfBounds ∨ ∃ c', r.perform c = .ok (none, c') ∧ c'.failure = none ∧ c'.pos < 0

theorem rest_placed (hsize : (passed ++ unread).length < 2 ^ 63) : (placed passed unread failure).rest = unread := by
  rw [List.length_append] at hsize
  rw [rest, placed, Int64.toInt_ofNat_of_lt (by omega), Int.toNat_natCast, List.drop_left]

theorem grants_or_refuses (hsize : (passed ++ unread).length < 2 ^ 62) (hwraps : ¬ r.Wraps (placed passed unread none)) :
    Grants r (placed passed unread none) ∨ Refuses r (placed passed unread none) := by
  have hroom : (passed ++ unread).length < 2 ^ 63 := Nat.lt_trans hsize (by decide)
  rw [Grants, Refuses, rest_placed hroom]
  obtain ⟨front, rest, v, rfl, hv⟩ | hmissing := serves_or_missing r unread
  · refine .inl ⟨front, rest, v, rfl, hv, ?_⟩
    rw [perform_served hv hroom, ← advance_placed]
    rfl
  · obtain ⟨front, rest, n, rfl, hn, hrun⟩ := perform_missed hmissing hsize hwraps
    refine .inr ⟨hmissing, _, _, hrun, rfl, rfl, rfl, remaining_placed.symm, ?_⟩
    simp only [List.length_append] at hroom
    refine hn.imp Int64.lt_iff_toInt_lt.2 fun hlt => ?_
    rw [Int64.lt_iff_toInt_lt, shortage, Int64.toInt_ofNat_of_lt (by omega)]
    exact hlt

/-- What was written is read back by the requests for it, without a failure and to the end. Whatever is asked for of a
buffer, the position stays in it, and each request is granted if the unread bytes begin with what its value is written with.
If they do not, it leaves the failure that the class file is truncated; from then on every request gives zero, and neither the
position nor the failure changes. Only a length whose end is beyond the last position that a word holds is not refused. -/
theorem written_read_back (chunks : List Chunk) (data : List UInt8) (requests : List Request) :
    ((∀ v ∈ chunks, v.Counted) → (chunks.flatMap Chunk.encode).length < 2 ^ 63 →
      ∃ c, Request.performAll (chunks.map Chunk.request) (ofBytes (chunks.flatMap Chunk.encode)) =
        .ok (chunks.map some, c) ∧ c.failure = none ∧ c.remaining = 0) ∧
    (data.length < 2 ^ 62 → Request.NoneWraps requests (ofBytes data) →
      ∃ vs c, Request.performAll requests (ofBytes data) = .ok (vs, c) ∧ c.data.toList = data ∧
        0 ≤ c.pos.toInt ∧ c.pos.toInt ≤ data.length ∧
        (c.failure = none → ∀ r : Request, Grants r c ∨ Refuses r c ∨ r.Wraps c ∧ Escapes r c) ∧
        (c.failure.isSome → ∀ more, Request.performAll more c = .ok (more.map Request.zero, c))) := by
  constructor
  · intro hcounted hsize
    have hrun := performAll_served chunks hcounted (show ([] ++ chunks.flatMap Chunk.encode).length < 2 ^ 63 from hsize)
    exact ⟨_, hrun, rfl, remaining_placed⟩
  · intro hsize hwraps
    rw [ofBytes_eq] at hwraps
    obtain ⟨vs, passed, unread, failure, hdata, hrun⟩ :=
      performAll_placed (show ([] ++ data).length < 2 ^ 62 from hsize) hwraps
    rw [List.nil_append] at hdata
    subst hdata
    have hpos : (placed passed unread failure).pos.toInt = passed.length := by
      rw [List.length_append] at hsize
      exact Int64.toInt_ofNat_of_lt (by omega)
    refine ⟨vs, _, hrun, rfl, by omega, by rw [hpos, List.length_append]; omega, fun hnone r => ?_,
      performAll_of_failed⟩
    obtain rfl : failure = none := hnone
    by_cases h : r.Wraps (placed passed unread none)
    · exact .inr (.inr ⟨h, perform_wraps (Nat.lt_trans hsize (by decide)) h⟩)
    · exact (grants_or_refuses hsize h).imp_right .inl

/-- A table that is cut off: its count is passed, and what is asked for after it gives zero. -/
theorem written_read_back_truncated :
    let chunks : List Chunk := [.u16 0xcafe, .bytes [7], .table [1, 0xffff], .u64 0x0123456789abcdef]
    let data : List UInt8 := [0, 0, 3, 0, 7]
    let requests : List Request := [.skip 1, .table, .u8, .bytes (-1)]
    ((∀ v ∈ chunks, v.Counted) ∧ ∃ c, Request.performAll (chunks.map Chunk.request)
      (ofBytes (chunks.flatMap Chunk.encode)) = .ok (chunks.map some, c) ∧ c.failure = none ∧ c.remaining = 0) ∧
    Request.NoneWraps requests (ofBytes data) ∧
    ∃ vs c, Request.performAll requests (ofBytes data) = .ok (vs, c) ∧ vs = requests.map Request.zero ∧ c.pos = 3 ∧
      c.failure = some ⟨6, 3, 2⟩ ∧ ∀ more, Request.performAll more c = .ok (more.map Request.zero, c) := by
  intro chunks data requests
  have hcounted : ∀ v ∈ chunks, v.Counted := by decide
  have hwraps : Request.NoneWraps requests (ofBytes data) := by decide
  have hrun : Request.performAll requests (ofBytes data) =
      .ok (requests.map Request.zero, { data := data.toArray, pos := 3, failure := some ⟨6, 3, 2⟩ }) := by decide
  obtain ⟨hwritten, hread⟩ := written_read_back chunks data requests
  obtain ⟨vs, c, hrun', -, -, -, -, hkept⟩ := hread (by decide) hwraps
  cases hrun.symm.trans hrun'
  exact ⟨⟨hcounted, hwritten hcounted (by decide)⟩, hwraps, _, _, hrun, rfl, rfl, rfl, hkept rfl⟩

/-- One byte is passed, and then the most that a word can ask for. No failure is kept, though there is one byte only, and the
next read is outside of the buffer. -/
theorem largest_skip_not_refused :
    let c : Cursor := { data := #[0, 1], pos := Int64.minValue }
    Request.performAll [.u8, .skip Int64.maxValue] (ofBytes [0, 1]) = .ok ([some (.u8 0), none], c) ∧ c.failure = none ∧
      Missing (.skip Int64.maxValue) [1] ∧
      Request.performAll [.u8, .skip Int64.maxValue, .u8] (ofBytes [0, 1]) = .error .outOfBounds := by
  refine ⟨by decide, rfl, fun front rest v hdata h => ?_, by decide⟩
  have hlength : front.length ≤ 1 := by
    have := congrArg List.length hdata
    rw [List.length_append, List.length_singleton] at this
    omega
  generalize hr : Request.skip Int64.maxValue = r at h
  cases h with
  | value v => cases v <;> cases hr
  | skipped front =>
    have hskipped := congrArg Int64.toInt (Request.skip.inj hr)
    rw [Int64.toInt_maxValue, Int64.toInt_ofNat_of_lt (by omega)] at hskipped
    omega

end Cursor

end JavaMachine
