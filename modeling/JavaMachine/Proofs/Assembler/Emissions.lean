import JavaMachine.Proofs.Assembler.Patches

/-!
What statements write. A statement appends bytes to a body, and with them patches for the offsets of a branch or of a
switch; it marks a label, or names the labels of a handler. Main result: `writes_statement`.
-/

namespace JavaMachine

open BigEndian

namespace Statement

/-- How many bytes of padding follow the opcode of a switch. -/
def padding (origin : Nat) : Nat := (4 - (origin + 1) % 4) % 4

/-- Where the operands of a switch begin. -/
def operands (origin : Nat) : Nat := origin + 1 + padding origin

/-- The offsets of a `tableswitch`, from a place on. -/
def tablePatches (origin : Nat) : Nat → List String → List Patch
  | _, [] => []
  | place, t :: ts => ⟨t, origin, place, true⟩ :: tablePatches origin (place + 4) ts

/-- The offsets of the rows of a `lookupswitch`, each behind its key. -/
def rowPatches (origin : Nat) : Nat → List (Int32 × String) → List Patch
  | _, [] => []
  | place, r :: rows => ⟨r.2, origin, place + 4, true⟩ :: rowPatches origin (place + 8) rows

/-- The offsets of a statement that is written at a position. A target without a key is not used. -/
def patches (origin : Nat) : Statement → List Patch
  | .jump _ target => [⟨target, origin, origin + 1, false⟩]
  | .jumpWide _ target => [⟨target, origin, origin + 1, true⟩]
  | .tableSwitch _ default targets =>
    ⟨default, origin, operands origin, true⟩ :: tablePatches origin (operands origin + 12) targets
  | .lookupSwitch default keys targets =>
    ⟨default, origin, operands origin, true⟩ :: rowPatches origin (operands origin + 8) (keys.zip targets)
  | _ => []

/-- The bytes of a branch or a switch at a position, for given bytes of its offsets. -/
def image (origin : Nat) (narrow wide : String → List UInt8) : Statement → Option (List UInt8)
  | .jump op target => some (op.toByte :: narrow target)
  | .jumpWide op target => some (op.toByte :: wide target)
  | .tableSwitch low default targets =>
    some (Opcode.tableswitch.toByte :: (List.replicate (padding origin) 0 ++ wide default ++
      bytes32 low.toUInt32 ++ bytes32 (low + Int32.ofNat targets.length - 1).toUInt32 ++ targets.flatMap wide))
  | .lookupSwitch default keys targets =>
    some (Opcode.lookupswitch.toByte :: (List.replicate (padding origin) 0 ++ wide default ++
      bytes32 (Int32.ofNat keys.length).toUInt32 ++
      (keys.zip targets).flatMap fun r => bytes32 r.1.toUInt32 ++ wide r.2))
  | _ => none

/-- The labels of a handler. -/
def handlerLabels : Statement → List String
  | .handler start stop entry _ => [start, stop, entry]
  | _ => []

/-- The bytes that hold the place of an offset. -/
def narrowBlank (_ : String) : List UInt8 := [0, 0]

def wideBlank (_ : String) : List UInt8 := [0, 0, 0, 0]

end Statement

namespace CodeBuilder

open Statement

variable {b b₁ b' : CodeBuilder} {s : Statement}

/-! ## What is appended -/

/-- A builder has appended bytes and patches, and has marked no label. -/
structure Appends (b : CodeBuilder) (data : List UInt8) (patches : List Patch) (b' : CodeBuilder) : Prop where
  bytes : b'.bytes.toList = b.bytes.toList ++ data
  patches : b'.patches.toList = b.patches.toList ++ patches
  labels : b'.labels = b.labels
  handlers : b'.handlers = b.handlers

theorem Appends.nothing (bytes : b'.bytes = b.bytes) (patches : b'.patches = b.patches) (labels : b'.labels = b.labels)
    (handlers : b'.handlers = b.handlers) : b.Appends [] [] b' :=
  ⟨by rw [bytes, List.append_nil], by rw [patches, List.append_nil], labels, handlers⟩

theorem Appends.trans {data data' : List UInt8} {patches patches' : List Patch} (h : b.Appends data patches b₁)
    (h' : b₁.Appends data' patches' b') : b.Appends (data ++ data') (patches ++ patches') b' where
  bytes := by rw [h'.bytes, h.bytes, List.append_assoc]
  patches := by rw [h'.patches, h.patches, List.append_assoc]
  labels := h'.labels.trans h.labels
  handlers := h'.handlers.trans h.handlers

theorem Appends.size {data : List UInt8} {patches : List Patch} (h : b.Appends data patches b') :
    b'.size = b.size + data.length := by
  rw [CodeBuilder.size, ← Array.length_toList, h.bytes, List.length_append]
  rfl

theorem appends_emitBytes (data : List UInt8) (b : CodeBuilder) : b.Appends data [] (b.emitBytes data) :=
  ⟨Array.toList_append, (List.append_nil _).symm, rfl, rfl⟩

theorem appends_pad (b : CodeBuilder) : b.Appends (List.replicate ((4 - b.size % 4) % 4) 0) [] b.pad :=
  ⟨by rw [pad, Array.toList_append, Array.toList_replicate], (List.append_nil _).symm, rfl, rfl⟩

theorem appends_offset (origin : Nat) (wide : Bool) (target : String) (b : CodeBuilder) :
    b.Appends (List.replicate (if wide then 4 else 2) 0) [⟨target, origin, b.size, wide⟩]
      (b.emitOffset origin wide target) :=
  ⟨by rw [emitOffset, Array.toList_append, Array.toList_replicate], Array.toList_push, rfl, rfl⟩

theorem size_emit (op : Opcode) (b : CodeBuilder) : (b.emit op).size = b.size + 1 :=
  (appends_emitBytes [op.toByte] b).size

theorem size_emitI32 (v : Int32) (b : CodeBuilder) : (b.emitI32 v).size = b.size + 4 :=
  (appends_emitBytes (bytes32 v.toUInt32) b).size

theorem size_wideOffset (origin : Nat) (target : String) (b : CodeBuilder) :
    (b.emitOffset origin true target).size = b.size + 4 := (appends_offset origin true target b).size

/-! ## Branches and switches -/

theorem appends_jump (op : Opcode) (target : String) (b : CodeBuilder) :
    b.Appends (op.toByte :: narrowBlank target) [⟨target, b.size, b.size + 1, false⟩] (b.emitJump op target) := by
  have h := (appends_emitBytes [op.toByte] b).trans (appends_offset b.size false target (b.emit op))
  rw [size_emit] at h
  exact h

theorem appends_jumpWide (op : Opcode) (target : String) (b : CodeBuilder) :
    b.Appends (op.toByte :: wideBlank target) [⟨target, b.size, b.size + 1, true⟩] (b.emitJumpWide op target) := by
  have h := (appends_emitBytes [op.toByte] b).trans (appends_offset b.size true target (b.emit op))
  rw [size_emit] at h
  exact h

/-- The opcode of a switch, its padding and its first offset. -/
theorem appends_head (op : Opcode) (default : String) (b : CodeBuilder) :
    b.Appends (op.toByte :: (List.replicate (padding b.size) 0 ++ wideBlank default))
      [⟨default, b.size, operands b.size, true⟩] ((b.emit op).pad.emitOffset b.size true default) := by
  have hpad := appends_pad (b.emit op)
  rw [size_emit] at hpad
  have hplace : (b.emit op).pad.size = operands b.size := by
    rw [hpad.size, size_emit, List.length_replicate]
    rfl
  have hall := ((appends_emitBytes [op.toByte] b).trans hpad).trans (appends_offset b.size true default (b.emit op).pad)
  rw [hplace] at hall
  exact hall

theorem appends_targets (origin : Nat) (targets : List String) (b : CodeBuilder) :
    b.Appends (targets.flatMap wideBlank) (tablePatches origin b.size targets)
      (targets.foldl (fun b t => b.emitOffset origin true t) b) := by
  induction targets generalizing b with
  | nil => exact .nothing rfl rfl rfl rfl
  | cons t rest ih =>
    have hrest := ih (b.emitOffset origin true t)
    rw [size_wideOffset] at hrest
    exact (appends_offset origin true t b).trans hrest

theorem size_head (op : Opcode) (default : String) (b : CodeBuilder) :
    ((b.emit op).pad.emitOffset b.size true default).size = operands b.size + 4 := by
  have hpad := (appends_pad (b.emit op)).size
  rw [size_emit, List.length_replicate] at hpad
  rw [size_wideOffset, hpad]
  rfl

theorem appends_tableSwitch (low : Int32) (default : String) (targets : List String) (b : CodeBuilder) :
    ∃ data, (Statement.tableSwitch low default targets).image b.size narrowBlank wideBlank = some data ∧
      b.Appends data ((Statement.tableSwitch low default targets).patches b.size)
        (b.emitTableSwitch low default targets) := by
  let head := (b.emit .tableswitch).pad.emitOffset b.size true default
  let bounds := (head.emitI32 low).emitI32 (low + Int32.ofNat targets.length - 1)
  have hplace : bounds.size = operands b.size + 12 := by rw [size_emitI32, size_emitI32, size_head]
  have htargets := appends_targets b.size targets bounds
  rw [hplace] at htargets
  have hhead := (appends_head .tableswitch default b).trans (appends_emitBytes (bytes32 low.toUInt32) head)
  have hbounds := hhead.trans (appends_emitBytes (bytes32 (low + Int32.ofNat targets.length - 1).toUInt32) _)
  exact ⟨_, rfl, hbounds.trans htargets⟩

theorem appends_pairs {origin : Nat} {keys : List Int32} {targets : List String}
    (h : emitPairs origin keys targets b = .ok b') :
    b.Appends ((keys.zip targets).flatMap fun r => bytes32 r.1.toUInt32 ++ wideBlank r.2)
      (rowPatches origin b.size (keys.zip targets)) b' := by
  induction keys generalizing targets b with
  | nil =>
    cases h
    exact .nothing rfl rfl rfl rfl
  | cons k keys ih =>
    cases targets with
    | nil => cases h
    | cons t targets =>
      rw [emitPairs] at h
      have hrest := ih h
      have hrow := (appends_emitBytes (bytes32 k.toUInt32) b).trans (appends_offset origin true t (b.emitI32 k))
      rw [size_wideOffset, size_emitI32] at hrest
      rw [size_emitI32] at hrow
      exact hrow.trans hrest

theorem appends_lookupSwitch {default : String} {keys : List Int32} {targets : List String}
    (h : b.emitLookupSwitch default keys targets = .ok b') :
    ∃ data, (Statement.lookupSwitch default keys targets).image b.size narrowBlank wideBlank = some data ∧
      b.Appends data ((Statement.lookupSwitch default keys targets).patches b.size) b' := by
  let head := (b.emit .lookupswitch).pad.emitOffset b.size true default
  have hplace : (head.emitI32 (Int32.ofNat keys.length)).size = operands b.size + 8 := by
    rw [size_emitI32, size_head]
  have hrows := appends_pairs h
  rw [hplace] at hrows
  have hhead := appends_head .lookupswitch default b
  have hcount := hhead.trans (appends_emitBytes (bytes32 (Int32.ofNat keys.length).toUInt32) head)
  exact ⟨_, rfl, hcount.trans hrows⟩

/-! ## Other statements -/

/-- A builder has appended bytes only. -/
def Lengthens (b b' : CodeBuilder) : Prop := ∃ data, b.Appends data [] b'

theorem lengthens_of_same (bytes : b'.bytes = b.bytes) (patches : b'.patches = b.patches)
    (labels : b'.labels = b.labels) (handlers : b'.handlers = b.handlers) : b.Lengthens b' :=
  ⟨[], .nothing bytes patches labels handlers⟩

theorem Lengthens.trans (h : b.Lengthens b₁) (h' : b₁.Lengthens b') : b.Lengthens b' := by
  obtain ⟨data, h⟩ := h
  obtain ⟨data', h'⟩ := h'
  exact ⟨data ++ data', h.trans h'⟩

theorem lengthens_emitBytes (data : List UInt8) (b : CodeBuilder) : b.Lengthens (b.emitBytes data) :=
  ⟨data, appends_emitBytes data b⟩

theorem lengthens_withPool (r : UInt16 × PoolBuilder) {use : UInt16 → CodeBuilder → CodeBuilder}
    (huse : ∀ i b, Lengthens b (use i b)) (b : CodeBuilder) : b.Lengthens (b.withPool r use) := by
  have hpool : b.Lengthens { b with pool := r.2 } := lengthens_of_same rfl rfl rfl rfl
  exact hpool.trans (huse r.1 _)

theorem lengthens_ldc (i : UInt16) (b : CodeBuilder) : b.Lengthens (b.ldc i) := by
  unfold ldc
  split
  · exact lengthens_emitBytes _ b
  · exact lengthens_emitBytes _ b

theorem lengthens_setMaxLocals (n : Int) (b : CodeBuilder) : b.Lengthens (b.setMaxLocals n) := by
  unfold setMaxLocals
  split
  · exact lengthens_of_same rfl rfl rfl rfl
  · exact lengthens_of_same rfl rfl rfl rfl

theorem lengthens_emitLocal (op : Opcode) (i : Int) (b : CodeBuilder) : b.Lengthens (b.emitLocal op i) := by
  refine (lengthens_setMaxLocals (i + localWidth op) b).trans ?_
  unfold emitLocal
  dsimp only
  split
  · exact lengthens_emitBytes _ _
  · exact lengthens_emitBytes _ _

theorem lengthens_emitIinc (i delta : Int) (b : CodeBuilder) : b.Lengthens (b.emitIinc i delta) := by
  refine (lengthens_setMaxLocals (i + 1) b).trans ?_
  unfold emitIinc
  dsimp only
  split
  · exact (lengthens_emitBytes _ _).trans (lengthens_emitBytes _ _)
  · exact lengthens_emitBytes _ _

theorem lengthens_pushInt (v : Int32) (b : CodeBuilder) : b.Lengthens (b.pushInt v) := by
  unfold pushInt
  split
  · exact lengthens_emitBytes _ b
  · split
    · exact lengthens_emitBytes _ b
    · split
      · exact lengthens_emitBytes _ b
      · exact lengthens_withPool _ lengthens_ldc b

theorem lengthens_invoke {op : Opcode} {onInterface : Bool} {owner name desc : String}
    (h : b.invoke op onInterface owner name desc = .ok b') : b.Lengthens b' := by
  unfold invoke at h
  split at h
  · split at h
    · cases h
    · cases h
      exact lengthens_withPool _ (fun _ => lengthens_emitBytes _) b
  · cases h
    exact lengthens_withPool _ (fun _ => lengthens_emitBytes _) b

/-! ## What a statement writes -/

/-- A statement has written bytes, patches and a handler or a mark. -/
structure Writes (b : CodeBuilder) (s : Statement) (data : List UInt8) (b' : CodeBuilder) : Prop where
  bytes : b'.bytes.toList = b.bytes.toList ++ data
  image : ∀ code, s.image b.size narrowBlank wideBlank = some code → data = code
  patches : b'.patches.toList = b.patches.toList ++ s.patches b.size
  handlers : b'.handlers.toList.flatMap PendingHandler.labels =
    b.handlers.toList.flatMap PendingHandler.labels ++ s.handlerLabels
  labels : ∀ name q,
    b'.labels.lookup name = some q ↔ b.labels.lookup name = some q ∨ s = .label name ∧ q = b.size

/-- A statement that is neither a label nor a handler. -/
theorem Appends.writes {data : List UInt8} (h : b.Appends data (s.patches b.size) b')
    (himage : ∀ code, s.image b.size narrowBlank wideBlank = some code → data = code) (hhandler : s.handlerLabels = [])
    (hlabel : ∀ name, s ≠ .label name) : b.Writes s data b' where
  bytes := h.bytes
  image := himage
  patches := h.patches
  handlers := by rw [h.handlers, hhandler, List.append_nil]
  labels name q := by
    rw [h.labels]
    exact ⟨.inl, fun hor => hor.resolve_right fun hlabelled => hlabel name hlabelled.1⟩

theorem Lengthens.writes (h : b.Lengthens b') (hpatches : s.patches b.size = [])
    (himage : s.image b.size narrowBlank wideBlank = none) (hhandler : s.handlerLabels = [])
    (hlabel : ∀ name, s ≠ .label name) : ∃ data, b.Writes s data b' := by
  obtain ⟨data, hdata⟩ := h
  refine ⟨data, Appends.writes (hpatches ▸ hdata) (fun code hcode => ?_) hhandler hlabel⟩
  nomatch himage.symm.trans hcode

theorem writes_mark {name : String} (h : b.mark name = .ok b') : b.Writes (.label name) [] b' := by
  unfold mark at h
  split at h
  · cases h
  · next hunmarked =>
    cases h
    have hnone : b.labels.lookup name = none := by
      cases hlookup : b.labels.lookup name with
      | none => rfl
      | some q => exact absurd (by rw [hlookup]; rfl) hunmarked
    refine ⟨(List.append_nil _).symm, nofun, (List.append_nil _).symm, (List.append_nil _).symm, fun other q => ?_⟩
    -- the new mark hides no older one
    change ((name, b.size) :: b.labels).lookup other = some q ↔ _
    rw [List.lookup_cons]
    by_cases hname : other = name
    · subst hname
      rw [beq_self_eq_true, hnone]
      simp [eq_comm]
    · rw [beq_false_of_ne hname]
      simp [Ne.symm hname]

theorem writes_addHandler (start stop entry catchClass : String) (b : CodeBuilder) :
    b.Writes (.handler start stop entry catchClass) [] (b.addHandler start stop entry catchClass) := by
  unfold addHandler
  dsimp only
  split
  · refine ⟨(List.append_nil _).symm, nofun, (List.append_nil _).symm, ?_, fun name q => ?_⟩
    · simp [PendingHandler.labels, handlerLabels]
    · simp
  · refine ⟨(List.append_nil _).symm, nofun, (List.append_nil _).symm, ?_, fun name q => ?_⟩
    · simp [withPool, PendingHandler.labels, handlerLabels]
    · simp [withPool]

/-- What a statement writes. -/
theorem writes_statement (h : b.statement s = .ok b') : ∃ data, b.Writes s data b' := by
  cases s with
  | label => exact ⟨[], writes_mark h⟩
  | handler => cases h; exact ⟨[], writes_addHandler _ _ _ _ _⟩
  | jump op target =>
    cases h
    exact ⟨_, (appends_jump op target b).writes (fun _ => Option.some.inj) rfl nofun⟩
  | jumpWide op target =>
    cases h
    exact ⟨_, (appends_jumpWide op target b).writes (fun _ => Option.some.inj) rfl nofun⟩
  | tableSwitch low default targets =>
    cases h
    obtain ⟨data, himage, happends⟩ := appends_tableSwitch low default targets b
    exact ⟨data, happends.writes (fun _ hcode => Option.some.inj (himage.symm.trans hcode)) rfl nofun⟩
  | lookupSwitch default keys targets =>
    obtain ⟨data, himage, happends⟩ := appends_lookupSwitch h
    exact ⟨data, happends.writes (fun _ hcode => Option.some.inj (himage.symm.trans hcode)) rfl nofun⟩
  | invoke => exact (lengthens_invoke h).writes rfl rfl rfl nofun
  | int v => cases h; exact (lengthens_pushInt v b).writes rfl rfl rfl nofun
  | «local» op i => cases h; exact (lengthens_emitLocal op i b).writes rfl rfl rfl nofun
  | iinc i delta => cases h; exact (lengthens_emitIinc i delta b).writes rfl rfl rfl nofun
  | maxLocals n => cases h; exact (lengthens_setMaxLocals n b).writes rfl rfl rfl nofun
  | maxStack n =>
    cases h
    have hsame : b.Lengthens (b.setMaxStack n) := lengthens_of_same rfl rfl rfl rfl
    exact hsame.writes rfl rfl rfl nofun
  | line n =>
    cases h
    have hsame : b.Lengthens (b.lineNumber n) := lengthens_of_same rfl rfl rfl rfl
    exact hsame.writes rfl rfl rfl nofun
  | raw => cases h; exact (lengthens_emitBytes _ b).writes rfl rfl rfl nofun
  | plain => cases h; exact (lengthens_emitBytes _ b).writes rfl rfl rfl nofun
  | u8 => cases h; exact (lengthens_emitBytes _ b).writes rfl rfl rfl nofun
  | u16 => cases h; exact (lengthens_emitBytes _ b).writes rfl rfl rfl nofun
  | wide => cases h; exact (lengthens_emitBytes _ b).writes rfl rfl rfl nofun
  | float => cases h; exact (lengthens_withPool _ lengthens_ldc b).writes rfl rfl rfl nofun
  | string => cases h; exact (lengthens_withPool _ lengthens_ldc b).writes rfl rfl rfl nofun
  | «class» => cases h; exact (lengthens_withPool _ lengthens_ldc b).writes rfl rfl rfl nofun
  | methodType => cases h; exact (lengthens_withPool _ lengthens_ldc b).writes rfl rfl rfl nofun
  | methodHandle => cases h; exact (lengthens_withPool _ lengthens_ldc b).writes rfl rfl rfl nofun
  | dynamic =>
    cases h
    refine (lengthens_withPool _ (fun i b => ?_) b).writes rfl rfl rfl nofun
    exact (lengthens_emitBytes _ b).trans (lengthens_emitBytes _ _)
  | _ => cases h; exact (lengthens_withPool _ (fun _ => lengthens_emitBytes _) b).writes rfl rfl rfl nofun

end CodeBuilder

end JavaMachine
