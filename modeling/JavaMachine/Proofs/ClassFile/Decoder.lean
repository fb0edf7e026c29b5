import JavaMachine.ClassFile.Reader
import JavaMachine.ClassFile.Writer
import JavaMachine.Proofs.Bytes.BigEndian

/-!
Decoders that read exactly what a writer writes. `Exact d write` says that whenever `d` succeeds, the
bytes it took away are those that `write` gives for its result: no byte is passed over and none is read
twice. Main results: the words, the counted tables and the constant pool are exact.
-/

namespace JavaMachine.Decoder

open BigEndian

variable {α β : Type}

/-- What a decoder takes away is what is written for its result. -/
def Exact (d : Decoder α) (write : α → List UInt8) : Prop :=
  ∀ ⦃i j : Input⦄ ⦃x : α⦄, d i = .ok (x, j) → i.rest = write x ++ j.rest

/-! ## Taking decoders apart -/

theorem bind_ok {d : Decoder α} {f : α → Decoder β} {i j : Input} {y : β}
    (h : (d >>= f) i = .ok (y, j)) : ∃ x k, d i = .ok (x, k) ∧ f x k = .ok (y, j) := by
  change (d i >>= fun p => f p.1 p.2) = .ok (y, j) at h
  cases hd : d i with
  | error e =>
    rw [hd] at h
    cases h
  | ok p =>
    rw [hd] at h
    exact ⟨p.1, p.2, rfl, h⟩

/-- As `bind_ok`, with a name for the decoder that goes on, so that it can be split into cases. -/
theorem bind_next {d : Decoder α} {f : α → Decoder β} {i j : Input} {y : β}
    (h : (d >>= f) i = .ok (y, j)) :
    ∃ x k next, d i = .ok (x, k) ∧ f x = next ∧ next k = .ok (y, j) := by
  obtain ⟨x, k, hx, h⟩ := bind_ok h
  exact ⟨x, k, f x, hx, rfl, h⟩

theorem pure_ok {x y : α} {i j : Input} (h : (pure x : Decoder α) i = .ok (y, j)) :
    x = y ∧ i = j := by
  cases h
  exact ⟨rfl, rfl⟩

theorem fail_ok {f : FormatFault} {x : α} {i j : Input}
    (h : (fail f : Decoder α) i = .ok (x, j)) : False := by
  cases h

theorem mapFault_ok {g : FormatFault → FormatFault} {d : Decoder α} {i j : Input} {x : α}
    (h : mapFault g d i = .ok (x, j)) : d i = .ok (x, j) := by
  unfold mapFault at h
  cases hd : d i with
  | error f =>
    rw [hd] at h
    cases h
  | ok r =>
    rw [hd] at h
    exact h

theorem inside_ok {p : Part} {d : Decoder α} {i j : Input} {x : α}
    (h : inside p d i = .ok (x, j)) : d i = .ok (x, j) :=
  mapFault_ok h

theorem lookup_ok {r : Except IndexFault α} {i j : Input} {x : α}
    (h : lookup r i = .ok (x, j)) : i = j := by
  unfold lookup at h
  cases r with
  | ok y =>
    cases h
    rfl
  | error f => cases h

/-- A check that takes nothing away may be passed over. -/
theorem check_ok {c : Prop} [Decidable c] {r : Except IndexFault α} {p : Part} {next : Decoder β}
    {i j : Input} {y : β}
    (h : (if c then inside p (lookup r) >>= fun _ => next else next) i = .ok (y, j)) :
    next i = .ok (y, j) := by
  split at h
  · obtain ⟨_, k, hk, h⟩ := bind_ok h
    obtain rfl := lookup_ok (inside_ok hk)
    exact h
  · exact h

theorem within_ok {name : String} {content : List UInt8} {d : Decoder α} {i j : Input} {x : α}
    (h : within name content d i = .ok (x, j)) :
    i = j ∧ ∃ k, d ⟨content, 0⟩ = .ok (x, k) ∧ k.rest = [] := by
  unfold within at h
  cases hd : d ⟨content, 0⟩ with
  | error f =>
    rw [hd] at h
    cases h
  | ok p =>
    rw [hd] at h
    dsimp only at h
    split at h
    · next hr =>
      cases h
      exact ⟨rfl, _, rfl, hr⟩
    · cases h

/-! ## Bytes and words -/

theorem split?_eq {n : Nat} {xs front rest : List α} (h : split? n xs = some (front, rest)) :
    xs = front ++ rest ∧ front.length = n := by
  induction n generalizing xs front with
  | zero =>
    cases h
    exact ⟨rfl, rfl⟩
  | succ n ih =>
    cases xs with
    | nil => cases h
    | cons x xs =>
      obtain ⟨⟨f, r⟩, hs, he⟩ := Option.map_eq_some_iff.mp h
      cases he
      obtain ⟨rfl, rfl⟩ := ih hs
      exact ⟨rfl, rfl⟩

theorem bytes_ok {n : Nat} {i j : Input} {raw : List UInt8} (h : bytes n i = .ok (raw, j)) :
    i.rest = raw ++ j.rest ∧ raw.length = n := by
  unfold bytes at h
  split at h
  · next hs =>
    cases h
    exact split?_eq hs
  · cases h

theorem u8_exact : Exact u8 fun v => [v] := by
  intro i j x h
  unfold u8 at h
  split at h
  · next hr =>
    cases h
    exact hr
  · cases h

theorem u16_exact : Exact u16 bytes16 := by
  intro i j x h
  unfold u16 at h
  split at h
  · next hr =>
    cases h
    rw [hr, bytes16_word16]
    rfl
  · cases h

theorem u32_exact : Exact u32 bytes32 := by
  intro i j x h
  unfold u32 at h
  split at h
  · next hr =>
    cases h
    rw [hr, bytes32_word32]
    rfl
  · cases h

theorem u64_exact : Exact u64 bytes64 := by
  intro i j x h
  unfold u64 at h
  split at h
  · next hr =>
    cases h
    rw [hr, bytes64_join32, bytes32_word32, bytes32_word32]
    rfl
  · cases h

/-! ## Counted rows -/

theorem repeated_exact {d : Decoder α} {write : α → List UInt8} (hd : Exact d write) {n : Nat}
    {i j : Input} {xs : List α} (h : repeated n d i = .ok (xs, j)) :
    i.rest = xs.flatMap write ++ j.rest ∧ xs.length = n := by
  induction n generalizing i xs with
  | zero =>
    obtain ⟨rfl, rfl⟩ := pure_ok h
    exact ⟨rfl, rfl⟩
  | succ n ih =>
    obtain ⟨x, k, hx, h⟩ := bind_ok h
    obtain ⟨ys, l, hys, h⟩ := bind_ok h
    obtain ⟨rfl, rfl⟩ := pure_ok h
    obtain ⟨hrest, rfl⟩ := ih hys
    exact ⟨by rw [hd hx, hrest, List.flatMap_cons, List.append_assoc], rfl⟩

theorem indexed_exact {d : Nat → Decoder α} {write : α → List UInt8} (hd : ∀ p, Exact (d p) write)
    {n p : Nat} {i j : Input} {xs : List α} (h : indexed d p n i = .ok (xs, j)) :
    i.rest = xs.flatMap write ++ j.rest ∧ xs.length = n := by
  induction n generalizing i p xs with
  | zero =>
    obtain ⟨rfl, rfl⟩ := pure_ok h
    exact ⟨rfl, rfl⟩
  | succ n ih =>
    obtain ⟨x, k, hx, h⟩ := bind_ok h
    obtain ⟨ys, l, hys, h⟩ := bind_ok h
    obtain ⟨rfl, rfl⟩ := pure_ok h
    obtain ⟨hrest, rfl⟩ := ih hys
    exact ⟨by rw [hd p hx, hrest, List.flatMap_cons, List.append_assoc], rfl⟩

theorem counted_ok {d : Decoder α} {write : α → List UInt8} (hd : Exact d write) {i j : Input}
    {xs : List α} (h : counted d i = .ok (xs, j)) : i.rest = countedBytes xs write ++ j.rest := by
  obtain ⟨n, k, hn, h⟩ := bind_ok h
  obtain ⟨hrest, hlen⟩ := repeated_exact hd h
  rw [u16_exact hn, hrest, countedBytes, hlen, UInt16.ofNat_toNat, List.append_assoc]

theorem counted_exact {d : Decoder α} {write : α → List UInt8} (hd : Exact d write) :
    Exact (counted d) (countedBytes · write) := fun _ _ _ h => counted_ok hd h

theorem table_exact : Exact table tableBytes := by
  intro i j vs h
  unfold table at h
  split at h
  · cases h
  · next n k hn =>
    split at h
    · cases h
    · obtain ⟨hrest, hlen⟩ := repeated_exact u16_exact h
      rw [u16_exact hn, hrest, tableBytes, hlen, UInt16.ofNat_toNat, List.append_assoc]

end JavaMachine.Decoder
