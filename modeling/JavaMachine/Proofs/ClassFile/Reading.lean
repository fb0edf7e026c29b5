import JavaMachine.ClassFile.Reader
import JavaMachine.ClassFile.Writer
import JavaMachine.Proofs.Bytes.BigEndian

/-!
Decoders that find what was written. `Reads d bytes x` says that `d` reads `x` where an input starts with these bytes,
takes away all of them and nothing of what follows; `Decodes d bytes x` says it of inputs that end there.

Main results: what is written for words, counted tables and rows is read back.
-/

namespace JavaMachine.Decoder

open BigEndian

variable {α β : Type}

/-- Where an input starts with the bytes, they are read as a value and taken away. -/
def Reads (d : Decoder α) (bytes : List UInt8) (x : α) : Prop :=
  ∀ rest offset, d ⟨bytes ++ rest, offset⟩ = .ok (x, ⟨rest, offset + bytes.length⟩)

/-- Where the bytes are all of an input, they are read as a value. -/
def Decodes (d : Decoder α) (bytes : List UInt8) (x : α) : Prop :=
  ∀ offset, d ⟨bytes, offset⟩ = .ok (x, ⟨[], offset + bytes.length⟩)

variable {d : Decoder α} {write : α → List UInt8}

/-! ## Putting decoders together -/

theorem reads_pure (x : α) : Reads (pure x) [] x := fun _ _ => rfl

theorem reads_bind {f : α → Decoder β} {bs cs : List UInt8} {x : α} {y : β} (hd : Reads d bs x)
    (hf : Reads (f x) cs y) : Reads (d >>= f) (bs ++ cs) y := by
  intro rest offset
  change (d ⟨bs ++ cs ++ rest, offset⟩ >>= fun p => f p.1 p.2) = _
  rw [List.append_assoc, hd]
  change f x ⟨cs ++ rest, offset + bs.length⟩ = _
  rw [hf, List.length_append, Nat.add_assoc]

theorem Reads.decodes {bs : List UInt8} {x : α} (h : Reads d bs x) : Decodes d bs x := by
  intro offset
  have hd := h [] offset
  rwa [List.append_nil] at hd

theorem decodes_bind {f : α → Decoder β} {bs cs : List UInt8} {x : α} {y : β} (hd : Reads d bs x)
    (hf : Decodes (f x) cs y) : Decodes (d >>= f) (bs ++ cs) y := by
  intro offset
  change (d ⟨bs ++ cs, offset⟩ >>= fun p => f p.1 p.2) = _
  rw [hd]
  change f x ⟨cs, offset + bs.length⟩ = _
  rw [hf, List.length_append, Nat.add_assoc]

/-- A decoder that takes nothing away may come first. -/
theorem reads_first {f : α → Decoder β} {bs : List UInt8} {x : α} {y : β} (hd : Reads d [] x)
    (hf : Reads (f x) bs y) : Reads (d >>= f) bs y := reads_bind hd hf

theorem reads_append_nil {bs : List UInt8} {x : α} (h : Reads d (bs ++ []) x) : Reads d bs x := by
  rwa [List.append_nil] at h

/-- A value that is made of the one that was read. -/
theorem reads_map {bs : List UInt8} {x : α} (hd : Reads d bs x) (make : α → β) :
    Reads (do return make (← d)) bs (make x) := reads_append_nil (reads_bind hd (reads_pure (make x)))

theorem reads_mapFault {g : FormatFault → FormatFault} {bs : List UInt8} {x : α} (hd : Reads d bs x) :
    Reads (mapFault g d) bs x := by
  intro rest offset
  rw [mapFault, hd]

theorem reads_inside {p : Part} {bs : List UInt8} {x : α} (hd : Reads d bs x) : Reads (inside p d) bs x :=
  reads_mapFault hd

theorem reads_lookup {r : Except IndexFault α} {x : α} (h : r = .ok x) : Reads (lookup r) [] x := by
  subst h
  exact fun _ _ => rfl

/-! ## Bytes and words -/

theorem split?_append {α : Type} (xs ys : List α) : split? xs.length (xs ++ ys) = some (xs, ys) := by
  induction xs with
  | nil => rfl
  | cons x rest ih => rw [List.length_cons, List.cons_append, split?, ih, Option.map_some]

theorem reads_bytes (bs : List UInt8) : Reads (bytes bs.length) bs bs := by
  intro rest offset
  rw [bytes, split?_append]

theorem reads_u8 (v : UInt8) : Reads u8 [v] v := fun _ _ => rfl

/-- A byte comes before what is read. -/
theorem reads_cons {f : UInt8 → Decoder β} {v : UInt8} {bs : List UInt8} {y : β} (h : Reads (f v) bs y) :
    Reads (u8 >>= f) (v :: bs) y := reads_bind (reads_u8 v) h

theorem reads_u16 (v : UInt16) : Reads u16 (bytes16 v) v := by
  intro rest offset
  change Except.ok (word16 _ _, _) = _
  rw [word16_bytes]
  rfl

theorem reads_u32 (v : UInt32) : Reads u32 (bytes32 v) v := by
  intro rest offset
  change Except.ok (word32 _ _ _ _, _) = _
  rw [word32_bytes]
  rfl

theorem reads_u64 (v : UInt64) : Reads u64 (bytes64 v) v := by
  intro rest offset
  change Except.ok (join32 (word32 _ _ _ _) (word32 _ _ _ _), _) = _
  rw [word32_bytes, word32_bytes, join32_halves]
  rfl

/-! ## Counted rows -/

theorem reads_repeated {xs : List α} (hd : ∀ x ∈ xs, Reads d (write x) x) :
    Reads (repeated xs.length d) (xs.flatMap write) xs := by
  induction xs with
  | nil => exact reads_pure []
  | cons x rest ih =>
    rw [List.flatMap_cons]
    refine reads_bind (hd x List.mem_cons_self) ?_
    exact reads_map (ih fun y hy => hd y (List.mem_cons_of_mem _ hy)) (x :: ·)

theorem reads_indexed {d : Nat → Decoder α} {xs : List α} (hd : ∀ x ∈ xs, ∀ p, Reads (d p) (write x) x) (p : Nat) :
    Reads (indexed d p xs.length) (xs.flatMap write) xs := by
  induction xs generalizing p with
  | nil => exact reads_pure []
  | cons x rest ih =>
    rw [List.flatMap_cons]
    refine reads_bind (hd x List.mem_cons_self p) ?_
    exact reads_map (ih (fun y hy => hd y (List.mem_cons_of_mem _ hy)) (p + 1)) (x :: ·)

/-- What is written for one row is no longer than what is written for all. -/
theorem length_le_flatMap {α : Type} (write : α → List UInt8) {x : α} {xs : List α} (h : x ∈ xs) :
    (write x).length ≤ (xs.flatMap write).length := by
  rw [List.flatMap_def]
  exact (List.sublist_flatten_of_mem (List.mem_map_of_mem h)).length_le

/-- The length of a table, written as a word, is read back. -/
theorem toNat_length {xs : List α} (h : xs.length ≤ 65535) : (UInt16.ofNat xs.length).toNat = xs.length :=
  UInt16.toNat_ofNat_of_lt' (Nat.lt_succ_of_le h)

theorem reads_counted {xs : List α} (hlength : xs.length ≤ 65535) (hd : ∀ x ∈ xs, Reads d (write x) x) :
    Reads (counted d) (countedBytes xs write) xs := by
  refine reads_bind (reads_u16 _) ?_
  rw [toNat_length hlength]
  exact reads_repeated hd

theorem length_bytes16 (v : UInt16) : (bytes16 v).length = 2 := rfl

/-- Rows of one length. -/
theorem length_flatMap_of_const {α : Type} {write : α → List UInt8} {k : Nat} (h : ∀ x, (write x).length = k)
    (xs : List α) : (xs.flatMap write).length = k * xs.length := by
  induction xs with
  | nil => rfl
  | cons x rest ih =>
    rw [List.flatMap_cons, List.length_append, h, ih, List.length_cons, Nat.mul_succ, Nat.add_comm]

theorem reads_table {vs : List UInt16} (h : vs.length ≤ 65535) : Reads table (tableBytes vs) vs := by
  intro rest offset
  have hall : Reads (repeated vs.length u16) (vs.flatMap bytes16) vs := reads_repeated fun v _ => reads_u16 v
  rw [table, tableBytes, List.append_assoc, reads_u16]
  dsimp only
  rw [toNat_length h, ← length_flatMap_of_const length_bytes16, split?_append]
  dsimp only
  rw [hall, List.length_append, Nat.add_assoc]

/-! ## Rows -/

theorem reads_handlerRow (r : HandlerRow) : Reads handlerRow r.encode r := by
  rw [HandlerRow.encode, List.append_assoc, List.append_assoc]
  refine reads_bind (reads_u16 _) (reads_bind (reads_u16 _) (reads_bind (reads_u16 _) ?_))
  exact reads_map (reads_u16 _) _

theorem reads_lineRow (r : LineRow) : Reads lineRow r.encode r :=
  reads_bind (reads_u16 r.start) (reads_map (reads_u16 r.line) fun l => LineRow.mk r.start l)

theorem reads_localRow (r : LocalRow) : Reads localRow r.encode r := by
  rw [LocalRow.encode, List.append_assoc, List.append_assoc, List.append_assoc]
  refine reads_bind (reads_u16 _) (reads_bind (reads_u16 _) (reads_bind (reads_u16 _) (reads_bind (reads_u16 _) ?_)))
  exact reads_map (reads_u16 _) _

theorem reads_innerRow (r : InnerRow) : Reads innerRow r.encode r := by
  rw [InnerRow.encode, List.append_assoc, List.append_assoc]
  refine reads_bind (reads_u16 _) (reads_bind (reads_u16 _) (reads_bind (reads_u16 _) ?_))
  exact reads_map (reads_u16 _) _

theorem reads_bootstrapRow {r : BootstrapRow} (h : r.arguments.length ≤ 65535) : Reads bootstrapRow r.encode r :=
  reads_bind (reads_u16 r.method) (reads_map (reads_table h) _)

end JavaMachine.Decoder
