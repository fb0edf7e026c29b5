import JavaMachine.Proofs.Assembler.Emissions

/-!
Bodies as sequences of emissions. A builder is `Composed` of the statements that were written, each with its position
and the bytes that it has appended; what was added to the pool meanwhile does not matter. The patches of a body fill in
the offsets of each emission in its own bytes. Main results: `Composed.told`, what a builder knows of its emissions, and
`Composed.patched`.
-/

namespace JavaMachine

open BigEndian

/-- A statement that was written, with its position and the bytes that it has appended. -/
structure Emission where
  position : Nat
  statement : Statement
  bytes : List UInt8

/-- A label is marked at a position. -/
def Emission.Marks (name : String) (q : Nat) (e : Emission) : Prop := e.statement = .label name ∧ e.position = q

/-- The offsets of an emission. -/
def Emission.patches (e : Emission) : List Patch := e.statement.patches e.position

namespace Patch

/-- The bytes of an offset. -/
def narrowData (labels : List (String × Nat)) (origin : Nat) (target : String) : List UInt8 :=
  bytes16 (low16 (offset labels origin target))

def wideData (labels : List (String × Nat)) (origin : Nat) (target : String) : List UInt8 :=
  bytes32 (low32 (offset labels origin target))

end Patch

/-- The bytes of an emission with its offsets filled in. -/
def Emission.resolved (labels : List (String × Nat)) (e : Emission) : List UInt8 :=
  (e.statement.image e.position (Patch.narrowData labels e.position) (Patch.wideData labels e.position)).getD e.bytes

namespace CodeBuilder

open Statement

variable {b b' : CodeBuilder} {s : Statement} {es : List Emission}

/-- The statements that were written to an empty body, in order. -/
inductive Composed : CodeBuilder → List Emission → Prop
  | start (pool : PoolBuilder) : Composed { pool } []
  | pooled {b : CodeBuilder} {es : List Emission} (pool : PoolBuilder) : Composed b es → Composed { b with pool } es
  | written {b b' : CodeBuilder} {es : List Emission} {s : Statement} :
      Composed b es → b.statement s = .ok b' → Composed b' (es ++ [⟨b.size, s, b'.bytes.toList.drop b.size⟩])

/-- The emissions stand one behind the other, and branches and switches have room for their offsets. -/
def Laid : Nat → List Emission → Prop
  | _, [] => True
  | n, e :: es =>
    e.position = n ∧ (∀ code, e.statement.image e.position narrowBlank wideBlank = some code → e.bytes = code) ∧
      Laid (n + e.bytes.length) es

theorem laid_append_iff {n : Nat} {ds : List Emission} :
    Laid n (es ++ ds) ↔ Laid n es ∧ Laid (n + (es.flatMap Emission.bytes).length) ds := by
  induction es generalizing n with
  | nil => exact ⟨fun h => ⟨trivial, h⟩, fun h => h.2⟩
  | cons e es ih =>
    rw [List.flatMap_cons, List.length_append, ← Nat.add_assoc]
    simp only [List.cons_append, Laid, ih, and_assoc]

/-- What a builder knows of the statements that were written. -/
structure Told (b : CodeBuilder) (es : List Emission) : Prop where
  bytes : b.bytes.toList = es.flatMap Emission.bytes
  laid : Laid 0 es
  patches : b.patches.toList = es.flatMap Emission.patches
  handlers : b.handlers.toList.flatMap PendingHandler.labels = es.flatMap fun e => e.statement.handlerLabels
  labels : ∀ name q, b.labels.lookup name = some q ↔ ∃ e ∈ es, e.Marks name q

theorem Told.written (h : b.Told es) (hs : b.statement s = .ok b') :
    b'.Told (es ++ [⟨b.size, s, b'.bytes.toList.drop b.size⟩]) := by
  obtain ⟨data, hwrites⟩ := writes_statement hs
  have hdata : b'.bytes.toList.drop b.size = data := by rw [hwrites.bytes, size, ← Array.length_toList, List.drop_left]
  rw [hdata]
  refine ⟨?_, laid_append_iff.2 ⟨h.laid, ?_, hwrites.image, trivial⟩, ?_, ?_, fun name q => ?_⟩
  · rw [hwrites.bytes, h.bytes, List.flatMap_append, List.flatMap_singleton]
  · rw [← h.bytes, Array.length_toList, Nat.zero_add]
    rfl
  · rw [hwrites.patches, h.patches, List.flatMap_append, List.flatMap_singleton]
    rfl
  · rw [hwrites.handlers, h.handlers, List.flatMap_append, List.flatMap_singleton]
  · rw [hwrites.labels, h.labels]
    simp only [List.mem_append, List.mem_singleton, or_and_right, exists_or, exists_eq_left]
    exact or_congr_right (and_congr_right fun _ => eq_comm)

theorem Composed.told (h : Composed b es) : b.Told es := by
  induction h with
  | start pool =>
    refine ⟨rfl, trivial, rfl, rfl, fun name q => ⟨nofun, ?_⟩⟩
    rintro ⟨e, he, -⟩
    exact absurd he List.not_mem_nil
  | pooled pool _ ih => exact ⟨ih.bytes, ih.laid, ih.patches, ih.handlers, ih.labels⟩
  | written _ hs ih => exact ih.written hs

/-- A body of statements is composed of them. -/
theorem Composed.statements {body : List Statement} (h : Composed b es) (hrun : b.statements body = .ok b') :
    ∃ ds : List Emission, Composed b' (es ++ ds) ∧ ds.map Emission.statement = body := by
  induction body generalizing b es with
  | nil =>
    cases hrun
    exact ⟨[], (List.append_nil es).symm ▸ h, rfl⟩
  | cons s body ih =>
    rw [CodeBuilder.statements, List.foldlM_cons] at hrun
    obtain ⟨b₁, hs, hrest⟩ := exists_of_bind_ok hrun
    obtain ⟨ds, hds, hbody⟩ := ih (h.written hs) hrest
    rw [List.append_assoc] at hds
    exact ⟨_ :: ds, hds, congrArg (s :: ·) hbody⟩

/-! ## Filling in -/

/-- The patches turn the blank bytes at a place into data, whatever stands before and behind them. -/
def Fills (labels : List (String × Nat)) (ps : List Patch) (place : Nat) (blank data : List UInt8) : Prop :=
  ∀ before behind : List UInt8, before.length = place →
    patched labels ps (before ++ blank ++ behind).toArray = (before ++ data ++ behind).toArray

variable (labels : List (String × Nat)) {ps qs : List Patch} {place origin : Nat}
  {blank blank' data data' : List UInt8}

theorem fills_same (place : Nat) (data : List UInt8) : Fills labels [] place data data := fun _ _ _ => rfl

variable {labels} in
theorem Fills.append (h : Fills labels ps place blank data) (h' : Fills labels qs (place + data.length) blank' data') :
    Fills labels (ps ++ qs) place (blank ++ blank') (data ++ data') := by
  intro before behind hplace
  have hfirst := h before (blank' ++ behind) hplace
  have hsecond := h' (before ++ data) behind (by rw [List.length_append, hplace])
  simp only [List.append_assoc] at hfirst hsecond ⊢
  rw [patched_append, hfirst, hsecond]

theorem fills_one {p : Patch} (h : blank.length = (p.data labels).length) :
    Fills labels [p] p.place blank (p.data labels) := by
  intro before behind hplace
  change overwrite _ p.place _ = _
  rw [← hplace]
  exact overwrite_append h before behind

theorem fills_narrow (origin place : Nat) (target : String) :
    Fills labels [⟨target, origin, place, false⟩] place (narrowBlank target) (Patch.narrowData labels origin target) :=
  fills_one labels rfl

theorem fills_wide (origin place : Nat) (target : String) :
    Fills labels [⟨target, origin, place, true⟩] place (wideBlank target) (Patch.wideData labels origin target) :=
  fills_one labels rfl

theorem fills_targets (origin place : Nat) (targets : List String) :
    Fills labels (tablePatches origin place targets) place (targets.flatMap wideBlank)
      (targets.flatMap (Patch.wideData labels origin)) := by
  induction targets generalizing place with
  | nil => exact fills_same labels place []
  | cons t ts ih => exact (fills_wide labels origin place t).append (ih (place + 4))

theorem fills_rows (origin place : Nat) (rows : List (Int32 × String)) :
    Fills labels (rowPatches origin place rows) place
      (rows.flatMap fun r => bytes32 r.1.toUInt32 ++ wideBlank r.2)
      (rows.flatMap fun r => bytes32 r.1.toUInt32 ++ Patch.wideData labels origin r.2) := by
  induction rows generalizing place with
  | nil => exact fills_same labels place []
  | cons r rows ih =>
    have hkey := fills_same labels place (bytes32 r.1.toUInt32)
    exact (hkey.append (fills_wide labels origin (place + 4) r.2)).append (ih (place + 8))

/-- The padding and the first offset of a switch. -/
theorem fills_default (origin : Nat) (default : String) :
    Fills labels [⟨default, origin, operands origin, true⟩] (origin + 1)
      (List.replicate (padding origin) 0 ++ wideBlank default)
      (List.replicate (padding origin) 0 ++ Patch.wideData labels origin default) := by
  have hwide := fills_wide labels origin (operands origin) default
  refine (fills_same labels (origin + 1) _).append ?_
  rw [List.length_replicate]
  exact hwide

/-- The patches of a branch or a switch fill in its offsets. -/
theorem fills_image (hblank : s.image origin narrowBlank wideBlank = some blank)
    (hdata : s.image origin (Patch.narrowData labels origin) (Patch.wideData labels origin) = some data) :
    Fills labels (s.patches origin) origin blank data := by
  -- opcodes, padding, bounds and keys stay; the places of the patches agree with the lengths of what is before them
  have hop (op : Opcode) : Fills labels [] origin [op.toByte] [op.toByte] := fills_same labels origin _
  cases s with
  | jump op target =>
    obtain rfl := Option.some.inj hblank
    obtain rfl := Option.some.inj hdata
    exact (hop op).append (fills_narrow labels origin (origin + 1) target)
  | jumpWide op target =>
    obtain rfl := Option.some.inj hblank
    obtain rfl := Option.some.inj hdata
    exact (hop op).append (fills_wide labels origin (origin + 1) target)
  | tableSwitch low default targets =>
    obtain rfl := Option.some.inj hblank
    obtain rfl := Option.some.inj hdata
    have hlow := (fills_default labels origin default).append (fills_same labels _ (bytes32 low.toUInt32))
    have hhigh := hlow.append (fills_same labels _ (bytes32 (low + Int32.ofNat targets.length - 1).toUInt32))
    refine (hop .tableswitch).append (hhigh.append ?_)
    simp only [List.length_append, List.length_replicate]
    exact fills_targets labels origin (operands origin + 12) targets
  | lookupSwitch default keys targets =>
    obtain rfl := Option.some.inj hblank
    obtain rfl := Option.some.inj hdata
    have hcount := (fills_default labels origin default).append
      (fills_same labels _ (bytes32 (Int32.ofNat keys.length).toUInt32))
    refine (hop .lookupswitch).append (hcount.append ?_)
    simp only [List.length_append, List.length_replicate]
    exact fills_rows labels origin (operands origin + 8) (keys.zip targets)
  | _ => cases hblank

/-- A statement has offsets if and only if it is a branch or a switch. -/
theorem image_cases (s : Statement) (origin : Nat) :
    (s.patches origin = [] ∧ ∀ narrow wide, s.image origin narrow wide = none) ∨
      ∀ narrow wide, ∃ code, s.image origin narrow wide = some code := by
  cases s with
  | jump => exact .inr fun _ _ => ⟨_, rfl⟩
  | jumpWide => exact .inr fun _ _ => ⟨_, rfl⟩
  | tableSwitch => exact .inr fun _ _ => ⟨_, rfl⟩
  | lookupSwitch => exact .inr fun _ _ => ⟨_, rfl⟩
  | _ => exact .inl ⟨rfl, fun _ _ => rfl⟩

theorem fills_emission {e : Emission}
    (himage : ∀ code, e.statement.image e.position narrowBlank wideBlank = some code → e.bytes = code) :
    Fills labels e.patches e.position e.bytes (e.resolved labels) := by
  unfold Emission.patches Emission.resolved
  rcases image_cases e.statement e.position with ⟨hpatches, hnone⟩ | hsome
  · rw [hpatches, hnone]
    exact fills_same labels _ _
  · obtain ⟨blank, hblank⟩ := hsome narrowBlank wideBlank
    obtain ⟨data, hdata⟩ := hsome (Patch.narrowData labels e.position) (Patch.wideData labels e.position)
    rw [himage blank hblank, hdata]
    exact fills_image labels hblank hdata

theorem size_patched (ps : List Patch) (code : Array UInt8) : (patched labels ps code).size = code.size := by
  induction ps generalizing code with
  | nil => rfl
  | cons p ps ih => exact (ih _).trans (size_overwrite code p.place (p.data labels))

variable {labels} in
theorem Fills.length_eq (h : Fills labels ps place blank data) : data.length = blank.length := by
  have hsize := congrArg Array.size (h (List.replicate place 0) [] List.length_replicate)
  rw [size_patched] at hsize
  simp only [List.size_toArray, List.length_append, List.length_nil] at hsize
  omega

/-- The patches of a body fill in the offsets of each emission. -/
theorem fills_emissions {n : Nat} (h : Laid n es) :
    Fills labels (es.flatMap Emission.patches) n (es.flatMap Emission.bytes)
      (es.flatMap (Emission.resolved labels)) := by
  induction es generalizing n with
  | nil => exact fills_same labels n []
  | cons e es ih =>
    obtain ⟨rfl, himage, hrest⟩ := h
    have hfirst := fills_emission labels himage
    refine hfirst.append ?_
    rw [hfirst.length_eq]
    exact ih hrest

/-- The code with offsets filled in. -/
theorem Composed.patched (h : Composed b es) :
    (patched b.labels b.patches.toList b.bytes).toList = es.flatMap (Emission.resolved b.labels) := by
  have htold := h.told
  have hbytes : b.bytes = ([] ++ es.flatMap Emission.bytes ++ []).toArray := by
    rw [List.nil_append, List.append_nil, ← htold.bytes]
  rw [htold.patches, hbytes, fills_emissions b.labels htold.laid [] [] rfl, List.nil_append, List.append_nil]

/-- An emission stands at its position in the code. -/
theorem Composed.resolved_at (h : Composed b es) {e : Emission} (he : e ∈ es) :
    ∃ before behind : List UInt8, e.position = before.length ∧
      es.flatMap (Emission.resolved b.labels) = before ++ (e.resolved b.labels ++ behind) := by
  obtain ⟨front, rest, rfl⟩ := List.append_of_mem he
  obtain ⟨hfront, hposition, -, -⟩ := laid_append_iff.1 h.told.laid
  refine ⟨front.flatMap (Emission.resolved b.labels), rest.flatMap (Emission.resolved b.labels), ?_, ?_⟩
  · rw [(fills_emissions b.labels hfront).length_eq, hposition, Nat.zero_add]
  · rw [List.flatMap_append, List.flatMap_cons]

end CodeBuilder

end JavaMachine
