import JavaMachine.Proofs.Assembler.Pool

/-!
Classes under construction. Whatever is declared, the indexes in the class file lead to what they were asked for, and
additions that come later do not change this. A class file of this kind is legible as soon as its sizes stay inside the
format. Main results: `ClassFile.Assembled.legible`; that each way to go on with a class lets it grow; and
`ClassSource.parse_assemble`.
-/

namespace JavaMachine

/-- The number of bytes that a text constant is spelled with; other constants have no text. -/
def Constant.textSize : Constant → Nat
  | .utf8 raw => raw.length
  | _ => 0

/-- The sizes in a class file stay inside the format: those of its pool, texts, tables and code. -/
structure ClassFile.Sized (cf : ClassFile) : Prop where
  pool : cf.pool.size ≤ 65535
  texts : ∀ slot ∈ cf.pool, ∀ c ∈ slot, c.textSize ≤ 65535
  interfaces : cf.interfaces.length ≤ 65535
  fields : cf.fields.length ≤ 65535
  methods : cf.methods.length ≤ 65535
  attributes : cf.attributes.length ≤ 65535
  bodies : ∀ m ∈ cf.methods, ∀ c ∈ m.code?, 0 < c.code.length ∧ c.code.length ≤ 65535 ∧
    c.handlers.length ≤ 65535 ∧ c.lineRows.length ≤ 65535

instance (cf : ClassFile) : Decidable cf.Sized :=
  decidable_of_iff
    (cf.pool.size ≤ 65535 ∧ (∀ slot ∈ cf.pool, ∀ c ∈ slot, c.textSize ≤ 65535) ∧ cf.interfaces.length ≤ 65535 ∧
      cf.fields.length ≤ 65535 ∧ cf.methods.length ≤ 65535 ∧ cf.attributes.length ≤ 65535 ∧
      ∀ m ∈ cf.methods, ∀ c ∈ m.code?, 0 < c.code.length ∧ c.code.length ≤ 65535 ∧ c.handlers.length ≤ 65535 ∧
        c.lineRows.length ≤ 65535)
    ⟨fun ⟨pool, texts, interfaces, fields, methods, attributes, bodies⟩ =>
      ⟨pool, texts, interfaces, fields, methods, attributes, bodies⟩,
    fun h => ⟨h.pool, h.texts, h.interfaces, h.fields, h.methods, h.attributes, h.bodies⟩⟩

/-- The constant of a field that was declared with one. -/
def Attribute.IsConstant (pool : ConstantPool) (a : Attribute) : Prop :=
  ∃ i v, a = .mk i "ConstantValue" (.index .constantValue v) ∧ pool.utf8 i = .ok "ConstantValue"

/-- The body of a method that was declared with one. -/
def Attribute.IsBody (pool : ConstantPool) (a : Attribute) : Prop :=
  ∃ i body, a = .mk i "Code" (.code body) ∧ pool.utf8 i = .ok "Code" ∧ body.Lined pool

/-- The name of the source file. -/
def Attribute.IsSource (pool : ConstantPool) (a : Attribute) : Prop :=
  ∃ i v, a = .mk i "SourceFile" (.index .sourceFile v) ∧ pool.utf8 i = .ok "SourceFile"

/-- A member with the names that its indexes lead to and at most one attribute. -/
structure MemberInfo.Declared (pool : ConstantPool) (P : Attribute → Prop) (m : MemberInfo) : Prop where
  name : pool.utf8 m.nameIndex = .ok m.name
  descriptor : pool.utf8 m.descriptorIndex = .ok m.descriptor
  attributes : m.attributes = [] ∨ ∃ a, m.attributes = [a] ∧ P a

/-- A class file whose indexes lead to what they were asked for in a pool. -/
structure ClassFile.Assembled (cf : ClassFile) (pool : ConstantPool) : Prop where
  version : ClassFile.supportedVersion cf.major cf.minor = true
  thisClass : ∃ name, pool.className cf.thisClass = .ok name
  superClass : cf.superClass ≠ 0 → ∃ name, pool.className cf.superClass = .ok name
  interfaces : ∀ i ∈ cf.interfaces, ∃ name, pool.className i = .ok name
  fields : ∀ m ∈ cf.fields, m.Declared pool (Attribute.IsConstant pool)
  methods : ∀ m ∈ cf.methods, m.Declared pool (Attribute.IsBody pool)
  attributes : ∀ a ∈ cf.attributes, a.IsSource pool

/-! ## Sizes -/

theorem LineRow.length_encode (r : LineRow) : r.encode.length = 4 := rfl

theorem HandlerRow.length_encode (r : HandlerRow) : r.encode.length = 8 := rfl

theorem Attribute.legible_index {pool : ConstantPool} {i v : UInt16} {name : String} {kind : IndexKind}
    (hname : pool.utf8 i = .ok name) (h : (AttributeBody.index kind v).Named name) :
    Attribute.Legible pool (.mk i name (.index kind v)) := by
  refine .plain hname h ?_
  rw [AttributeBody.encode, Decoder.length_bytes16]
  decide

theorem CodeBody.lineRows_of_lines {c : CodeBody} {i : UInt16} {name : String} {rows : List LineRow}
    (h : c.attributes = [.mk i name (.lines rows)]) : c.lineRows = rows := by
  rw [CodeBody.lineRows, h]
  exact List.append_nil rows

/-- A body that was assembled can be read if its sizes stay inside the format. -/
theorem CodeBody.Lined.legible {pool : ConstantPool} {c : CodeBody} (h : c.Lined pool) {i : UInt16}
    (hname : pool.utf8 i = .ok "Code") (hpos : 0 < c.code.length) (hcode : c.code.length ≤ 65535)
    (hhandlers : c.handlers.length ≤ 65535) (hlines : c.lineRows.length ≤ 65535) :
    Attribute.Legible pool (.mk i "Code" (.code c)) := by
  have hbytes (rows : List LineRow) (hrows : rows.length ≤ 65535) : (AttributeBody.lines rows).encode.length < 2 ^ 19 := by
    rw [AttributeBody.encode, countedBytes, List.length_append, Decoder.length_bytes16,
      Decoder.length_flatMap_of_const LineRow.length_encode]
    omega
  have hnested : ∀ a ∈ c.attributes, a.Legible pool := by
    rcases h with h | ⟨j, rows, h, hj⟩
    · intro a ha
      rw [h] at ha
      cases ha
    · rw [CodeBody.lineRows_of_lines h] at hlines
      intro a ha
      rw [h, List.mem_singleton] at ha
      rw [ha]
      exact .plain hj ⟨rfl, hlines⟩ (Nat.lt_trans (hbytes rows hlines) (by decide))
  have hattributes : c.attributes.length ≤ 1 ∧ (Attribute.encodeAll c.attributes).length < 2 ^ 20 := by
    rcases h with h | ⟨j, rows, h, -⟩
    · rw [h, Attribute.encodeAll]
      decide
    · rw [CodeBody.lineRows_of_lines h] at hlines
      have hrows := hbytes rows hlines
      rw [h, Attribute.encodeAll, Attribute.encodeAll, List.length_append, Attribute.length_encode]
      exact ⟨Nat.le_refl _, by rw [List.length_nil]; omega⟩
  refine .code hname hpos hcode hhandlers (Nat.le_trans hattributes.1 (by decide)) hnested ?_
  cases c with
  | mk stack locals code handlers attributes =>
    have hrows := Decoder.length_flatMap_of_const HandlerRow.length_encode handlers
    simp only [CodeBody.code, CodeBody.handlers, CodeBody.attributes] at hcode hhandlers hattributes
    simp only [CodeBody.encode, countedBytes, List.length_append, hrows, Decoder.length_bytes16]
    change 2 + 2 + 4 + _ + _ + _ + _ < _
    omega

theorem MemberInfo.Declared.legible {pool : ConstantPool} {P : Attribute → Prop} {m : MemberInfo} (h : m.Declared pool P)
    (hP : ∀ a, m.attributes = [a] → P a → a.Legible pool) : m.Legible pool := by
  refine ⟨h.name, h.descriptor, ?_, fun a ha => ?_⟩
  · rcases h.attributes with hnone | ⟨a, hone, -⟩
    · rw [hnone]
      exact Nat.zero_le _
    · rw [hone, List.length_singleton]
      decide
  · rcases h.attributes with hnone | ⟨a', hone, ha'⟩
    · rw [hnone] at ha
      cases ha
    · rw [hone, List.mem_singleton] at ha
      rw [ha]
      exact hP a' hone ha'

theorem ClassFile.Assembled.legible {cf : ClassFile} {b : PoolBuilder} (h : cf.Assembled cf.pool) (hb : b.Sound)
    (hpool : cf.pool = b.pool) (hsized : cf.Sized) : cf.Legible where
  version := h.version
  pool := by
    refine ⟨hpool ▸ hb.spaced, hsized.pool, fun c hc => ?_⟩
    cases c with
    | utf8 raw =>
      obtain ⟨s, rfl⟩ := hb.texts _ (hpool ▸ hc) raw rfl
      exact ⟨hsized.texts _ hc _ rfl, _, Text.ModifiedUtf8.decode_encode _⟩
    | _ => trivial
  thisClass := h.thisClass
  superClass := h.superClass
  interfaces := h.interfaces
  fields m hm := by
    refine (h.fields m hm).legible fun a _ ha => ?_
    obtain ⟨i, v, rfl, hi⟩ := ha
    exact Attribute.legible_index hi rfl
  methods m hm := by
    refine (h.methods m hm).legible fun a hone ha => ?_
    obtain ⟨i, body, rfl, hi, hlined⟩ := ha
    have hbody : m.code? = some body := by
      rw [MemberInfo.code?, hone]
      rfl
    obtain ⟨hpos, hcode, hhandlers, hlines⟩ := hsized.bodies m hm body hbody
    exact hlined.legible hi hpos hcode hhandlers hlines
  attributes a ha := by
    obtain ⟨i, v, rfl, hi⟩ := h.attributes a ha
    exact Attribute.legible_index hi rfl
  counts := ⟨hsized.interfaces, hsized.fields, hsized.methods, hsized.attributes⟩

/-! ## Going on with a class -/

section grows

variable {b b' : PoolBuilder} (h : b.Grows b')
include h

theorem CodeBody.Lined.mono {c : CodeBody} (hc : c.Lined b.pool) : c.Lined b'.pool :=
  hc.imp_right fun ⟨i, rows, hrows, hi⟩ => ⟨i, rows, hrows, h.utf8 hi⟩

theorem Attribute.IsBody.mono {a : Attribute} (ha : a.IsBody b.pool) : a.IsBody b'.pool := by
  obtain ⟨i, body, rfl, hi, hbody⟩ := ha
  exact ⟨i, body, rfl, h.utf8 hi, hbody.mono h⟩

theorem MemberInfo.Declared.mono {P Q : Attribute → Prop} (hP : ∀ a, P a → Q a) {m : MemberInfo}
    (hm : m.Declared b.pool P) : m.Declared b'.pool Q where
  name := h.utf8 hm.name
  descriptor := h.utf8 hm.descriptor
  attributes := hm.attributes.imp_right fun ⟨a, hone, ha⟩ => ⟨a, hone, hP a ha⟩

theorem ClassFile.Assembled.mono {cf : ClassFile} (hcf : cf.Assembled b.pool) : cf.Assembled b'.pool where
  version := hcf.version
  thisClass := hcf.thisClass.imp fun _ => h.className
  superClass hsuper := (hcf.superClass hsuper).imp fun _ => h.className
  interfaces i hi := (hcf.interfaces i hi).imp fun _ => h.className
  fields m hm := (hcf.fields m hm).mono h fun _ ⟨i, v, ha, hi⟩ => ⟨i, v, ha, h.utf8 hi⟩
  methods m hm := (hcf.methods m hm).mono h fun _ ha => ha.mono h
  attributes a ha := by
    obtain ⟨i, v, rfl, hi⟩ := hcf.attributes a ha
    exact ⟨i, v, rfl, h.utf8 hi⟩

end grows

namespace ClassBuilder

/-- The pool is sound and, as long as its size can be written, the class file leads to it. -/
structure Sound (c : ClassBuilder) : Prop where
  pool : c.pool.Sound
  file : c.pool.pool.size ≤ 65535 → c.file.Assembled c.pool.pool

/-- A class that is under construction goes on with a pool that grows. -/
structure Grows (c c' : ClassBuilder) : Prop where
  pool : c.pool.Grows c'.pool
  sound : c.Sound → c'.Sound

variable {c c' c'' : ClassBuilder} {name desc : String} {flags : UInt16}

theorem Grows.refl (c : ClassBuilder) : c.Grows c := ⟨.refl _, id⟩

theorem Grows.trans (h : c.Grows c') (h' : c'.Grows c'') : c.Grows c'' := ⟨h.pool.trans h'.pool, h'.sound ∘ h.sound⟩

/-- A class file with new parts that lead to the pool that has grown. -/
theorem Grows.intro (hpool : c.pool.Grows c'.pool)
    (hfile : c.pool.Sound → c'.pool.pool.size ≤ 65535 → c.file.Assembled c'.pool.pool →
      c'.file.Assembled c'.pool.pool) : c.Grows c' := by
  refine ⟨hpool, fun h => ⟨hpool.sound h.pool, fun hsize => hfile h.pool hsize ?_⟩⟩
  exact (h.file (Nat.le_trans hpool.size_le hsize)).mono hpool

theorem grows_pool {b : PoolBuilder} (h : c.pool.Grows b) : c.Grows { c with pool := b } := .intro h fun _ _ hfile => hfile

theorem assembled_start {pool : ConstantPool} {thisClass superClass : UInt16} (flags : Flags)
    (hthis : ∃ name, pool.className thisClass = .ok name)
    (hsuper : superClass ≠ 0 → ∃ name, pool.className superClass = .ok name) :
    ClassFile.Assembled {
      minor := 0, major := ClassFile.maxMajor, pool := #[], flags, thisClass, superClass, interfaces := [],
      fields := [], methods := [], attributes := [] } pool where
  version := rfl
  thisClass := hthis
  superClass := hsuper
  interfaces _ hi := absurd hi List.not_mem_nil
  fields _ hm := absurd hm List.not_mem_nil
  methods _ hm := absurd hm List.not_mem_nil
  attributes _ ha := absurd ha List.not_mem_nil

theorem sound_start (name super : String) (flags : UInt16) : (start name super flags).Sound := by
  have hempty := PoolBuilder.sound_empty
  have hthis := PoolBuilder.grows_className name {}
  have hsuper := PoolBuilder.grows_className super (PoolBuilder.className name {}).2
  by_cases hnone : super = ""
  · rw [start, hnone]
    refine ⟨hthis.sound hempty, fun hsize => assembled_start _ ⟨name, ?_⟩ fun hne => absurd rfl hne⟩
    exact PoolBuilder.className_className hempty hsize
  · simp only [start, if_neg hnone]
    refine ⟨(hthis.trans hsuper).sound hempty, fun hsize => assembled_start _ ⟨name, ?_⟩ fun _ => ⟨super, ?_⟩⟩
    · exact hsuper.className (PoolBuilder.className_className hempty (Nat.le_trans hsuper.size_le hsize))
    · exact PoolBuilder.className_className (hthis.sound hempty) hsize

theorem grows_addInterface (name : String) (c : ClassBuilder) : c.Grows (c.addInterface name) := by
  refine .intro (PoolBuilder.grows_className name c.pool) fun hsound hsize hfile => ?_
  refine { hfile with interfaces := fun i hi => ?_ }
  rcases List.mem_append.1 hi with hi | hi
  · exact hfile.interfaces i hi
  · rw [List.mem_singleton.1 hi]
    exact ⟨name, PoolBuilder.className_className hsound hsize⟩

theorem grows_memberInfo (b : PoolBuilder) (flags : UInt16) (name desc : String) :
    b.Grows (memberInfo b flags name desc).2 :=
  (PoolBuilder.grows_utf8 name b).trans (PoolBuilder.grows_utf8 desc _)

theorem declared_memberInfo {b b' : PoolBuilder} (hb : b.Sound) (h : (memberInfo b flags name desc).2.Grows b')
    (hsize : b'.pool.size ≤ 65535) {P : Attribute → Prop} {attributes : List Attribute}
    (hattributes : attributes = [] ∨ ∃ a, attributes = [a] ∧ P a) :
    MemberInfo.Declared b'.pool P { (memberInfo b flags name desc).1 with attributes } := by
  have hname := PoolBuilder.grows_utf8 name b
  have hdesc := PoolBuilder.grows_utf8 desc (b.utf8 name).2
  refine ⟨?_, ?_, hattributes⟩
  · exact (hdesc.trans h).utf8 (PoolBuilder.utf8_utf8 hb (Nat.le_trans (hdesc.trans h).size_le hsize))
  · exact h.utf8 (PoolBuilder.utf8_utf8 (hname.sound hb) (Nat.le_trans h.size_le hsize))

theorem grows_constantIndex (b : PoolBuilder) (value : FieldConstant) : b.Grows (constantIndex b value).2 := by
  cases value with
  | string s => exact PoolBuilder.grows_string s b
  | «class» name => exact PoolBuilder.grows_className name b
  | index i => exact .refl b
  | _ => exact PoolBuilder.grows_add (by nofun) b

theorem grows_addField (f : FieldSource) (c : ClassBuilder) : c.Grows (c.addField f) := by
  unfold addField
  cases f.value with
  | none =>
    refine .intro (grows_memberInfo c.pool f.flags f.name f.desc) fun hsound hsize hfile => ?_
    refine { hfile with fields := fun m hm => ?_ }
    rcases List.mem_append.1 hm with hm | hm
    · exact hfile.fields m hm
    · rw [List.mem_singleton.1 hm]
      exact declared_memberInfo hsound (.refl _) hsize (.inl rfl)
  | some value =>
    have hvalue := grows_constantIndex c.pool value
    have hinfo := grows_memberInfo (constantIndex c.pool value).2 f.flags f.name f.desc
    have hlast := PoolBuilder.grows_utf8 "ConstantValue" (memberInfo (constantIndex c.pool value).2 f.flags f.name f.desc).2
    refine .intro (hvalue.trans (hinfo.trans hlast)) fun hsound hsize hfile => ?_
    refine { hfile with fields := fun m hm => ?_ }
    rcases List.mem_append.1 hm with hm | hm
    · exact hfile.fields m hm
    · rw [List.mem_singleton.1 hm]
      refine declared_memberInfo (hvalue.sound hsound) hlast hsize (.inr ⟨_, rfl, _, _, rfl, ?_⟩)
      exact PoolBuilder.utf8_utf8 (hinfo.sound (hvalue.sound hsound)) hsize

theorem attributes_fitLocals (flags : UInt16) (desc : String) (body : CodeBody) :
    (fitLocals flags desc body).attributes = body.attributes := by
  cases body with
  | mk stack locals code handlers attributes =>
    rw [fitLocals]
    split <;> rfl

theorem grows_declareMethod (flags : UInt16) (name desc : String) {code : Option (UInt16 × CodeBody)}
    (hcode : ∀ p ∈ code, c.pool.pool.size ≤ 65535 →
      c.pool.pool.utf8 p.1 = .ok CodeBuilder.codeName ∧ p.2.Lined c.pool.pool) :
    c.Grows (c.declareMethod flags name desc code) := by
  have hinfo := grows_memberInfo c.pool flags name desc
  refine .intro hinfo fun hsound hsize hfile => { hfile with methods := fun m hm => ?_ }
  rcases List.mem_append.1 hm with hm | hm
  · exact hfile.methods m hm
  · rw [List.mem_singleton.1 hm]
    refine declared_memberInfo hsound (.refl _) hsize ?_
    cases code with
    | none => exact .inl rfl
    | some p =>
      obtain ⟨hname, hlined⟩ := hcode p rfl (Nat.le_trans hinfo.size_le hsize)
      refine .inr ⟨_, rfl, _, _, rfl, hinfo.utf8 hname, ?_⟩
      have hlined := hlined.mono hinfo
      rwa [CodeBody.Lined, attributes_fitLocals]

theorem grows_setSourceFile (name : String) (c : ClassBuilder) : c.Grows (c.setSourceFile name) := by
  have hattribute := PoolBuilder.grows_utf8 "SourceFile" c.pool
  have htext := PoolBuilder.grows_utf8 name (c.pool.utf8 "SourceFile").2
  refine .intro (hattribute.trans htext) fun hsound hsize hfile => { hfile with attributes := fun a ha => ?_ }
  rcases List.mem_append.1 ha with ha | ha
  · exact hfile.attributes a ha
  · rw [List.mem_singleton.1 ha]
    refine ⟨_, _, rfl, htext.utf8 ?_⟩
    exact PoolBuilder.utf8_utf8 hsound (Nat.le_trans htext.size_le hsize)

/-! ## Classes from their source -/

theorem grows_foldl {α : Type} {step : ClassBuilder → α → ClassBuilder}
    (hstep : ∀ (x : α) (c : ClassBuilder), c.Grows (step c x)) (xs : List α) (c : ClassBuilder) : c.Grows (xs.foldl step c) := by
  induction xs generalizing c with
  | nil => exact .refl c
  | cons x rest ih => exact (hstep x c).trans (ih _)

theorem grows_foldlM {α : Type} {step : ClassBuilder → α → Except AssemblyFault ClassBuilder}
    (hstep : ∀ (x : α) {c c' : ClassBuilder}, step c x = .ok c' → c.Grows c') {xs : List α}
    (h : xs.foldlM step c = .ok c') : c.Grows c' := by
  induction xs generalizing c with
  | nil =>
    cases h
    exact .refl _
  | cons x rest ih =>
    rw [List.foldlM_cons] at h
    obtain ⟨c₁, hc₁, h⟩ := exists_of_bind_ok h
    exact (hstep x hc₁).trans (ih h)

theorem grows_addMethod {m : MethodSource} (h : c.addMethod m = .ok c') : c.Grows c' := by
  unfold addMethod at h
  split at h
  · cases h
    exact grows_declareMethod _ _ _ fun p hp => absurd hp (Option.not_mem_none p)
  · obtain ⟨b, hb, h⟩ := exists_of_bind_ok h
    obtain ⟨⟨i, code, pool⟩, hbuild, h⟩ := exists_of_bind_ok h
    cases h
    have hwritten : c.pool.Grows b.pool := by
      have hgrows := CodeBuilder.grows_statements hb
      revert hgrows
      split <;> split <;> simp [CodeBuilder.setMaxStack]
    obtain ⟨hbuilt, hnamed⟩ := CodeBuilder.built_build hbuild
    refine (grows_pool hwritten).trans ⟨hbuilt.trans (grows_memberInfo _ m.flags m.name m.desc), fun h => ?_⟩
    have hcode : ∀ p ∈ some (i, code), pool.pool.size ≤ 65535 →
        pool.pool.utf8 p.1 = .ok CodeBuilder.codeName ∧ p.2.Lined pool.pool := by
      intro p hp hsize
      cases hp
      exact hnamed h.pool hsize
    exact (grows_declareMethod m.flags m.name m.desc (c := { c with pool }) hcode).sound
      ((grows_pool (c := { c with pool := b.pool }) hbuilt).sound h)

end ClassBuilder

/-- What is assembled after the default constructor. -/
theorem ClassSource.of_assemble {s : ClassSource} {cf : ClassFile} (h : s.assemble = .ok cf) :
    ∃ c₁, (ClassBuilder.start s.name s.super s.flags).Grows c₁ ∧
      (do
        let c ← s.methods.foldlM ClassBuilder.addMethod
          (s.fields.foldl ClassBuilder.addField (s.interfaces.foldl ClassBuilder.addInterface c₁))
        let c := match s.sourceFile with
          | some name => c.setSourceFile name
          | none => c
        return { c.build with major := s.major.getD c.build.major, minor := s.minor.getD c.build.minor }) = .ok cf := by
  unfold assemble at h
  dsimp only at h
  split at h
  · obtain ⟨c₁, hc₁, h⟩ := exists_of_bind_ok h
    exact ⟨c₁, ClassBuilder.grows_addMethod hc₁, h⟩
  · exact ⟨_, .refl _, h⟩

/-- A class that was assembled from its source is read back from its bytes if its version is one that is read and its
sizes stay inside the format. -/
theorem ClassSource.parse_assemble {s : ClassSource} {cf : ClassFile} (h : s.assemble = .ok cf)
    (hversion : ClassFile.supportedVersion cf.major cf.minor = true) (hsized : cf.Sized) :
    ClassFile.parse cf.encode = .ok cf := by
  obtain ⟨c₁, hconstructor, h⟩ := of_assemble h
  obtain ⟨c₂, hc₂, h⟩ := exists_of_bind_ok h
  have hinterfaces := ClassBuilder.grows_foldl ClassBuilder.grows_addInterface s.interfaces c₁
  have hfields := ClassBuilder.grows_foldl ClassBuilder.grows_addField s.fields
    (s.interfaces.foldl ClassBuilder.addInterface c₁)
  have hmethods := ClassBuilder.grows_foldlM (fun _ => ClassBuilder.grows_addMethod) hc₂
  have hbefore := hconstructor.trans (hinterfaces.trans (hfields.trans hmethods))
  obtain ⟨c, hc, hcf⟩ : ∃ c, c₂.Grows c ∧
      cf = { c.build with major := s.major.getD c.build.major, minor := s.minor.getD c.build.minor } := by
    cases hsource : s.sourceFile with
    | none =>
      rw [hsource] at h
      cases h
      exact ⟨c₂, .refl _, rfl⟩
    | some name =>
      rw [hsource] at h
      cases h
      exact ⟨_, ClassBuilder.grows_setSourceFile name c₂, rfl⟩
  subst hcf
  have hsound := (hbefore.trans hc).sound (ClassBuilder.sound_start _ _ _)
  have hfile := hsound.file hsized.pool
  exact ClassFile.parse_encode (ClassFile.Assembled.legible { hfile with version := hversion } hsound.pool rfl hsized)

end JavaMachine
