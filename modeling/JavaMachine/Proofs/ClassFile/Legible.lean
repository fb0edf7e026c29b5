import JavaMachine.Proofs.ClassFile.Reading
import JavaMachine.Proofs.ClassFile.RoundTrip
import Mathlib.Algebra.Group.Nat.Defs
import Mathlib.Logic.Basic

/-!
A class file that was written is read back. A class file is `Legible` if its pool is laid out as pools are, its indexes
lead to what they are used for, each attribute has the contents that its name stands for, and what is counted fits the
width of its count. Main statement: `ClassFile.parse_encode`.
-/

namespace JavaMachine

open BigEndian

/-! ## What can be read -/

/-- The bytes of a text constant are a text, and their number can be written. -/
def Constant.Legible : Constant → Prop
  | .utf8 raw => raw.length ≤ 65535 ∧ ∃ units, Text.ModifiedUtf8.decode raw = .ok units
  | _ => True

/-- Slots in which a wide constant is followed by an empty slot, and no other slot is empty. -/
inductive Spaced : List (Option Constant) → Prop
  | nil : Spaced []
  | narrow {c : Constant} {rest : List (Option Constant)} : c.isWide = false → Spaced rest → Spaced (some c :: rest)
  | wide {c : Constant} {rest : List (Option Constant)} : c.isWide = true → Spaced rest →
      Spaced (some c :: none :: rest)

/-- The slot at index 0 is empty, those after it are spaced, and their number can be written. -/
structure ConstantPool.Legible (pool : ConstantPool) : Prop where
  spaced : ∃ slots, pool.toList = none :: slots ∧ Spaced slots
  size : pool.size ≤ 65535
  constants : ∀ c, some c ∈ pool → c.Legible

/-- The names that fix what an attribute holds. -/
def Attribute.knownNames : List String :=
  ["Code", "ConstantValue", "Exceptions", "LineNumberTable", "SourceFile", "StackMapTable", "Deprecated", "Synthetic",
    "RuntimeVisibleAnnotations", "LocalVariableTable", "LocalVariableTypeTable", "EnclosingMethod", "InnerClasses",
    "BootstrapMethods", "Signature"]

/-- Contents without attributes, under the name that stands for them. -/
def AttributeBody.Named (name : String) : AttributeBody → Prop
  | .code _ => False
  | .index .constantValue _ => name = "ConstantValue"
  | .index .sourceFile _ => name = "SourceFile"
  | .index .signature _ => name = "Signature"
  | .exceptions is => name = "Exceptions" ∧ is.length ≤ 65535
  | .lines rows => name = "LineNumberTable" ∧ rows.length ≤ 65535
  | .raw .stackMap _ => name = "StackMapTable"
  | .raw .annotations _ => name = "RuntimeVisibleAnnotations"
  | .raw .unknown _ => name ∉ Attribute.knownNames
  | .marker => name = "Deprecated" ∨ name = "Synthetic"
  | .locals rows => (name = "LocalVariableTable" ∨ name = "LocalVariableTypeTable") ∧ rows.length ≤ 65535
  | .enclosing _ _ => name = "EnclosingMethod"
  | .inner rows => name = "InnerClasses" ∧ rows.length ≤ 65535
  | .bootstrap rows =>
    name = "BootstrapMethods" ∧ rows.length ≤ 65535 ∧ ∀ r ∈ rows, r.arguments.length ≤ 65535

/-- An attribute has the name that its index leads to and the contents that go with it. -/
inductive Attribute.Legible (pool : ConstantPool) : Attribute → Prop
  | plain {i : UInt16} {name : String} {body : AttributeBody} : pool.utf8 i = .ok name → body.Named name →
      body.encode.length < 2 ^ 32 → Legible pool (.mk i name body)
  | code {i : UInt16} {body : CodeBody} : pool.utf8 i = .ok "Code" → 0 < body.code.length →
      body.code.length ≤ 65535 → body.handlers.length ≤ 65535 → body.attributes.length ≤ 65535 →
      (∀ a ∈ body.attributes, Legible pool a) → body.encode.length < 2 ^ 32 → Legible pool (.mk i "Code" (.code body))

/-- A member has the name and the descriptor that its indexes lead to. -/
structure MemberInfo.Legible (pool : ConstantPool) (m : MemberInfo) : Prop where
  name : pool.utf8 m.nameIndex = .ok m.name
  descriptor : pool.utf8 m.descriptorIndex = .ok m.descriptor
  count : m.attributes.length ≤ 65535
  attributes : ∀ a ∈ m.attributes, a.Legible pool

/-- A class file that can be read from its bytes. -/
structure ClassFile.Legible (cf : ClassFile) : Prop where
  version : ClassFile.supportedVersion cf.major cf.minor = true
  pool : cf.pool.Legible
  thisClass : ∃ name, cf.pool.className cf.thisClass = .ok name
  superClass : cf.superClass ≠ 0 → ∃ name, cf.pool.className cf.superClass = .ok name
  interfaces : ∀ i ∈ cf.interfaces, ∃ name, cf.pool.className i = .ok name
  fields : ∀ m ∈ cf.fields, m.Legible cf.pool
  methods : ∀ m ∈ cf.methods, m.Legible cf.pool
  attributes : ∀ a ∈ cf.attributes, a.Legible cf.pool
  counts : cf.interfaces.length ≤ 65535 ∧ cf.fields.length ≤ 65535 ∧ cf.methods.length ≤ 65535 ∧
    cf.attributes.length ≤ 65535

/-! ## Lengths of what is written -/

theorem Attribute.length_encode (i : UInt16) (name : String) (body : AttributeBody) :
    (Attribute.mk i name body).encode.length = 6 + body.encode.length := by
  rw [Attribute.encode, attributeBytes, List.length_append, List.length_append]
  rfl

theorem Attribute.length_encode_le_of_mem {a : Attribute} {attributes : List Attribute} (h : a ∈ attributes) :
    a.encode.length ≤ (Attribute.encodeAll attributes).length := by
  rw [← Decoder.flatMap_encode]
  exact Decoder.length_le_flatMap Attribute.encode h

theorem Attribute.length_encodeAll_le (attributes : List Attribute) :
    (Attribute.encodeAll attributes).length ≤ (Attribute.encodeTable attributes).length := by
  rw [Attribute.encodeTable, List.length_append]
  exact Nat.le_add_left _ _

theorem CodeBody.length_encodeAll_le (body : CodeBody) :
    (Attribute.encodeAll body.attributes).length ≤ body.encode.length := by
  cases body with
  | mk stack locals code handlers attributes =>
    rw [CodeBody.encode, CodeBody.attributes, List.length_append]
    exact Nat.le_add_left _ _

namespace Decoder

/-! ## The constant pool -/

theorem reads_constant {c : Constant} (h : c.Legible) : Reads constant c.encode c := by
  -- the tag decides which reader goes on
  refine reads_cons ?_
  cases c with
  | utf8 raw =>
    obtain ⟨hlength, units, hunits⟩ := h
    refine reads_bind (reads_u16 _) ?_
    rw [toNat_length hlength]
    refine reads_append_nil (reads_bind (reads_bytes raw) ?_)
    rw [hunits]
    exact reads_pure _
  | int v => exact reads_map (reads_u32 v.toUInt32) _
  | float bits => exact reads_map (reads_u32 bits) _
  | long v => exact reads_map (reads_u64 v.toUInt64) _
  | double bits => exact reads_map (reads_u64 bits) _
  | «class» n => exact reads_map (reads_u16 n) _
  | string t => exact reads_map (reads_u16 t) _
  | member kind o nt =>
    cases kind with
    | field => exact reads_bind (reads_u16 o) (reads_map (reads_u16 nt) _)
    | method => exact reads_bind (reads_u16 o) (reads_map (reads_u16 nt) _)
    | interfaceMethod => exact reads_bind (reads_u16 o) (reads_map (reads_u16 nt) _)
  | nameAndType n d => exact reads_bind (reads_u16 n) (reads_map (reads_u16 d) _)
  | methodHandle kind reference => exact reads_cons (reads_map (reads_u16 reference) _)
  | methodType d => exact reads_map (reads_u16 d) _
  | invokeDynamic bootstrap nt => exact reads_bind (reads_u16 bootstrap) (reads_map (reads_u16 nt) _)

theorem reads_poolSlots {slots : List (Option Constant)} (h : Spaced slots)
    (hall : ∀ c, some c ∈ slots → c.Legible) (index : Nat) :
    Reads (poolSlots slots.length index) (slots.flatMap Constant.encodeSlot) slots := by
  induction h generalizing index with
  | nil => exact reads_pure []
  | @narrow c rest hwide _ ih =>
    rw [List.flatMap_cons, List.length_cons, poolSlots]
    refine reads_bind (reads_inside (reads_constant (hall c List.mem_cons_self))) ?_
    rw [hwide, if_neg Bool.false_ne_true]
    exact reads_map (ih (fun c hc => hall c (List.mem_cons_of_mem _ hc)) (index + 1)) (some c :: ·)
  | @wide c rest hwide _ ih =>
    rw [List.flatMap_cons, List.flatMap_cons, List.length_cons, List.length_cons, poolSlots]
    refine reads_bind (reads_inside (reads_constant (hall c List.mem_cons_self))) ?_
    rw [hwide, if_pos rfl]
    exact reads_map (ih (fun c hc => hall c (List.mem_cons_of_mem _ (List.mem_cons_of_mem _ hc))) (index + 2))
      (some c :: none :: ·)

theorem reads_constantPool {pool : ConstantPool} (h : pool.Legible) : Reads constantPool pool.encode pool := by
  obtain ⟨slots, hslots, hspaced⟩ := h.spaced
  have hsize : slots.length + 1 = pool.size := by
    rw [← Array.length_toList, hslots, List.length_cons]
  have hcount : (UInt16.ofNat pool.size).toNat = pool.size :=
    UInt16.toNat_ofNat_of_lt' (Nat.lt_succ_of_le h.size)
  have hpool : pool = (none :: slots).toArray := by rw [← hslots, Array.toArray_toList]
  have hne : UInt16.ofNat pool.size ≠ 0 := by
    intro h0
    rw [h0] at hcount
    rw [← hsize] at hcount
    cases hcount
  rw [ConstantPool.encode, hslots, List.drop_succ_cons, List.drop_zero]
  refine reads_bind (reads_u16 _) ?_
  rw [if_neg hne, hcount, ← hsize, Nat.add_sub_cancel]
  conv => right; rw [hpool]
  refine reads_map (reads_poolSlots hspaced (fun c hc => h.constants c ?_) 1) fun slots => (none :: slots).toArray
  rw [← Array.mem_toList_iff, hslots]
  exact List.mem_cons_of_mem _ hc

/-! ## Attributes -/

theorem reads_plainBody {name : String} {body : AttributeBody} (h : body.Named name) :
    Reads (plainBody name body.encode.length) body.encode body := by
  cases body with
  | code body => exact h.elim
  | index kind v =>
    cases kind with
    | constantValue =>
      cases h
      exact reads_map (reads_u16 v) _
    | sourceFile =>
      cases h
      exact reads_map (reads_u16 v) _
    | signature =>
      cases h
      exact reads_map (reads_u16 v) _
  | exceptions is =>
    obtain ⟨rfl, hcount⟩ := h
    exact reads_map (reads_table hcount) _
  | lines rows =>
    obtain ⟨rfl, hcount⟩ := h
    exact reads_map (reads_counted hcount fun r _ => reads_lineRow r) _
  | raw kind data =>
    cases kind with
    | stackMap =>
      cases h
      exact reads_map (reads_bytes data) _
    | annotations =>
      cases h
      exact reads_map (reads_bytes data) _
    | unknown =>
      simp only [AttributeBody.Named, Attribute.knownNames, List.mem_cons, List.not_mem_nil, or_false, not_or] at h
      simp only [plainBody, h, if_false, or_self]
      exact reads_map (reads_bytes data) _
  | marker =>
    rcases h with rfl | rfl
    · exact reads_pure _
    · exact reads_pure _
  | locals rows =>
    obtain ⟨rfl | rfl, hcount⟩ := h
    · exact reads_map (reads_counted hcount fun r _ => reads_localRow r) _
    · exact reads_map (reads_counted hcount fun r _ => reads_localRow r) _
  | enclosing owner method =>
    cases h
    exact reads_bind (reads_u16 owner) (reads_map (reads_u16 method) _)
  | inner rows =>
    obtain ⟨rfl, hcount⟩ := h
    exact reads_map (reads_counted hcount fun r _ => reads_innerRow r) _
  | bootstrap rows =>
    obtain ⟨rfl, hcount, harguments⟩ := h
    exact reads_map (reads_counted hcount fun r hr => reads_bootstrapRow (harguments r hr)) _

theorem ne_code_of_named {name : String} {body : AttributeBody} (h : body.Named name) : name ≠ "Code" := by
  cases body with
  | code => exact h.elim
  | index kind =>
    cases kind with
    | constantValue => exact h.trans_ne (by decide)
    | sourceFile => exact h.trans_ne (by decide)
    | signature => exact h.trans_ne (by decide)
  | raw kind =>
    cases kind with
    | stackMap => exact h.trans_ne (by decide)
    | annotations => exact h.trans_ne (by decide)
    | unknown =>
      rintro rfl
      exact h List.mem_cons_self
  | marker => exact h.elim (fun h => h.trans_ne (by decide)) fun h => h.trans_ne (by decide)
  | locals => exact h.1.elim (fun h => h.trans_ne (by decide)) fun h => h.trans_ne (by decide)
  | enclosing => exact h.trans_ne (by decide)
  | exceptions => exact h.1.trans_ne (by decide)
  | lines => exact h.1.trans_ne (by decide)
  | inner => exact h.1.trans_ne (by decide)
  | bootstrap => exact h.1.trans_ne (by decide)

theorem reads_attributeFrame {pool : ConstantPool} {i : UInt16} {name : String} {content : List UInt8}
    (hname : pool.utf8 i = .ok name) (hlength : content.length < 2 ^ 32) :
    Reads (attributeFrame pool) (attributeBytes i content) (i, name, content) := by
  rw [attributeBytes, List.append_assoc]
  refine reads_bind (reads_u16 i) (reads_bind (reads_u32 _) (reads_first (reads_inside (reads_lookup hname)) ?_))
  have hcount : (UInt32.ofNat content.length).toNat = content.length := UInt32.toNat_ofNat_of_lt' hlength
  intro rest offset
  dsimp only
  rw [hcount, split?_append]

/-- A decoder that reads all of the bytes it is given. -/
theorem reads_within {α : Type} {name : String} {content : List UInt8} {d : Decoder α} {x : α}
    (h : Decodes d content x) : Reads (within name content d) [] x := by
  intro rest offset
  rw [within, h]
  rfl

theorem reads_plainAttribute {i : UInt16} {name : String} {body : AttributeBody} (h : body.Named name) :
    Reads (plainAttribute i name body.encode) [] (.mk i name body) :=
  reads_map (reads_within (reads_mapFault (reads_plainBody h)).decodes) _

theorem reads_codeHead {body : CodeBody} (hpos : 0 < body.code.length) (hcode : body.code.length ≤ 65535)
    (hhandlers : body.handlers.length ≤ 65535) :
    Reads codeHead (bytes16 body.maxStack ++ (bytes16 body.maxLocals ++ (bytes32 (UInt32.ofNat body.code.length) ++
      (body.code ++ countedBytes body.handlers HandlerRow.encode))))
      ⟨body.maxStack, body.maxLocals, body.code, body.handlers⟩ := by
  have hlength : (UInt32.ofNat body.code.length).toNat = body.code.length :=
    UInt32.toNat_ofNat_of_lt' (Nat.lt_of_le_of_lt hcode (by decide))
  have hok : ¬(UInt32.ofNat body.code.length = 0 ∨ 65536 ≤ UInt32.ofNat body.code.length) := by
    rintro (hzero | hlarge)
    · rw [hzero] at hlength
      exact Nat.ne_of_gt hpos hlength.symm
    · rw [UInt32.le_iff_toNat_le, hlength] at hlarge
      exact Nat.not_succ_le_self 65535 (Nat.le_trans hlarge hcode)
  refine reads_bind (reads_inside (reads_u16 _)) (reads_bind (reads_inside (reads_u16 _)) ?_)
  refine reads_bind (reads_inside (reads_u32 _)) ?_
  rw [if_neg hok, hlength]
  refine reads_bind (reads_inside (reads_bytes _)) ?_
  exact reads_map (reads_inside (reads_counted hhandlers fun r _ => reads_handlerRow r)) _

theorem reads_codeBody {body : CodeBody} (hpos : 0 < body.code.length) (hcode : body.code.length ≤ 65535)
    (hhandlers : body.handlers.length ≤ 65535) (hcount : body.attributes.length ≤ 65535) {d : Decoder Attribute}
    (hd : ∀ a ∈ body.attributes, Reads d a.encode a) :
    Reads (do
      let head ← codeHead
      let nested ← inside .code (counted d)
      return CodeBody.mk head.maxStack head.maxLocals head.code head.handlers nested) body.encode body := by
  have hnested := reads_map (reads_inside (p := .code) (reads_counted hcount hd)) fun nested =>
    CodeBody.mk body.maxStack body.maxLocals body.code body.handlers nested
  have h := reads_bind (f := fun head : CodeHead => do
    let nested ← inside .code (counted d)
    return CodeBody.mk head.maxStack head.maxLocals head.code head.handlers nested)
    (reads_codeHead hpos hcode hhandlers) hnested
  cases body with
  | mk stack locals code handlers attributes =>
    rw [CodeBody.encode, ← flatMap_encode]
    simp only [countedBytes, List.append_assoc] at h ⊢
    exact h

theorem reads_attribute {pool : ConstantPool} {a : Attribute} (h : a.Legible pool) {depth : Nat}
    (hdepth : a.encode.length ≤ depth) : Reads (anyAttribute pool depth) a.encode a := by
  -- the induction is on the nesting of code; what is inside of code is shorter, so the depth does not run out
  induction h generalizing depth with
  | @plain i name body hname hbody hlength =>
    rw [Attribute.encode]
    have hframe := reads_attributeFrame hname hlength
    have hrest : Reads (plainAttribute i name body.encode) [] (.mk i name body) := reads_plainAttribute hbody
    have hne := ne_code_of_named hbody
    cases depth with
    | zero =>
      refine reads_append_nil (reads_bind hframe ?_)
      dsimp only
      rw [if_neg hne]
      exact hrest
    | succ depth =>
      refine reads_append_nil (reads_bind hframe ?_)
      dsimp only
      rw [if_neg hne]
      exact hrest
  | @code i body hname hpos hcode hhandlers hcount _ hlength ih =>
    rw [Attribute.length_encode, AttributeBody.encode] at hdepth
    cases depth with
    | zero => omega
    | succ depth =>
      rw [Attribute.encode, AttributeBody.encode]
      refine reads_append_nil (reads_bind (reads_attributeFrame hname hlength) ?_)
      dsimp only
      rw [if_pos rfl]
      refine reads_map (reads_within (reads_codeBody hpos hcode hhandlers hcount fun a ha => ih a ha ?_).decodes) _
      have hle := Nat.le_trans (Attribute.length_encode_le_of_mem ha) body.length_encodeAll_le
      omega

theorem reads_attributes {pool : ConstantPool} {attributes : List Attribute} (hcount : attributes.length ≤ 65535)
    (hall : ∀ a ∈ attributes, a.Legible pool) {depth : Nat}
    (hdepth : (Attribute.encodeTable attributes).length ≤ depth) :
    Reads (Decoder.attributes pool depth) (Attribute.encodeTable attributes) attributes := by
  rw [Attribute.encodeTable, ← flatMap_encode]
  refine reads_counted hcount fun a ha => reads_attribute (hall a ha) ?_
  exact Nat.le_trans (Attribute.length_encode_le_of_mem ha)
    (Nat.le_trans (Attribute.length_encodeAll_le attributes) hdepth)

/-! ## Members and class files -/

theorem reads_member {pool : ConstantPool} {m : MemberInfo} (h : m.Legible pool) {depth : Nat}
    (hdepth : m.encode.length ≤ depth) (place : Nat → Part) (named : String → String → Part) (p : Nat) :
    Reads (member pool depth place named p) m.encode m := by
  have hattributes : (Attribute.encodeTable m.attributes).length ≤ depth := by
    refine Nat.le_trans ?_ hdepth
    rw [MemberInfo.encode, List.length_append]
    exact Nat.le_add_left _ _
  have hnames : Reads (memberNames pool)
      (bytes16 m.flags.bits ++ (bytes16 m.nameIndex ++ bytes16 m.descriptorIndex))
      (m.flags, m.nameIndex, m.descriptorIndex, m.name, m.descriptor) := by
    refine reads_bind (reads_u16 _) (reads_bind (reads_u16 _) ?_)
    refine reads_append_nil (reads_bind (reads_u16 _) (reads_first (reads_lookup h.name) ?_))
    exact reads_first (reads_lookup h.descriptor) (reads_pure _)
  rw [MemberInfo.encode, List.append_assoc (bytes16 m.flags.bits)]
  refine reads_bind (reads_inside hnames) ?_
  exact reads_map (reads_inside (reads_attributes h.count h.attributes hattributes)) _

theorem reads_members {pool : ConstantPool} {members : List MemberInfo} (hcount : members.length ≤ 65535)
    (hall : ∀ m ∈ members, m.Legible pool) {depth : Nat}
    (hdepth : (countedBytes members MemberInfo.encode).length ≤ depth) (place : Nat → Part)
    (named : String → String → Part) :
    Reads (Decoder.members pool depth place named) (countedBytes members MemberInfo.encode) members := by
  refine reads_bind (reads_inside (reads_u16 _)) ?_
  rw [toNat_length hcount]
  refine reads_indexed (fun m hm p => reads_member (hall m hm) ?_ place named p) 0
  refine Nat.le_trans (length_le_flatMap MemberInfo.encode hm) (Nat.le_trans ?_ hdepth)
  rw [countedBytes, List.length_append]
  exact Nat.le_add_left _ _

theorem reads_version {major minor : UInt16} (h : ClassFile.supportedVersion major minor = true) :
    Reads version (bytes32 ClassFile.magic ++ (bytes16 minor ++ bytes16 major)) (minor, major) := by
  refine reads_bind (reads_u32 _) ?_
  rw [if_neg (not_not_intro rfl)]
  refine reads_bind (reads_u16 _) ?_
  refine reads_append_nil (reads_bind (reads_u16 _) ?_)
  rw [if_pos h]
  exact reads_pure _

/-- A check that takes nothing away comes before what is read. -/
theorem decodes_lookup {α β : Type} {r : Except IndexFault α} {p : Part} {next : Decoder β} {bs : List UInt8} {y : β}
    (h : ∃ x, r = .ok x) (hnext : Decodes next bs y) : Decodes (inside p (lookup r) >>= fun _ => next) bs y := by
  obtain ⟨x, hx⟩ := h
  have hlookup : Reads (inside p (lookup r)) [] x := reads_inside (reads_lookup hx)
  exact decodes_bind hlookup hnext

theorem exists_mapM_ok {α β ε : Type} {f : α → Except ε β} {xs : List α} (h : ∀ x ∈ xs, ∃ y, f x = .ok y) :
    ∃ ys, xs.mapM f = .ok ys := by
  induction xs with
  | nil => exact ⟨[], rfl⟩
  | cons x rest ih =>
    obtain ⟨y, hy⟩ := h x List.mem_cons_self
    obtain ⟨ys, hys⟩ := ih fun x' hx' => h x' (List.mem_cons_of_mem _ hx')
    refine ⟨y :: ys, ?_⟩
    rw [List.mapM_cons, hy, hys]
    rfl

theorem decodes_classFile {cf : ClassFile} (h : cf.Legible) {depth : Nat} (hdepth : cf.encode.length ≤ depth) :
    Decodes (classFile depth) cf.encode cf := by
  obtain ⟨hinterfaces, hfields, hmethods, hattributes⟩ := h.counts
  have hencode : cf.encode = (bytes32 ClassFile.magic ++ (bytes16 cf.minor ++ bytes16 cf.major)) ++ (cf.pool.encode ++
      (bytes16 cf.flags.bits ++ (bytes16 cf.thisClass ++ (bytes16 cf.superClass ++ (tableBytes cf.interfaces ++
        (countedBytes cf.fields MemberInfo.encode ++ (countedBytes cf.methods MemberInfo.encode ++
          (Attribute.encodeTable cf.attributes ++ [])))))))) := by
    simp only [ClassFile.encode, List.append_assoc, List.append_nil]
  -- every part is shorter than the whole, so the depth suffices for it
  have hlengths := congrArg List.length hencode
  simp only [List.length_append] at hlengths
  have hend : Decodes (do
      let left ← remaining
      if left = 0 then
        return ⟨cf.minor, cf.major, cf.pool, ⟨cf.flags.bits⟩, cf.thisClass, cf.superClass, cf.interfaces, cf.fields,
          cf.methods, cf.attributes⟩
      else fail (.rest left)) [] cf := fun _ => rfl
  have hmembers : Decodes (do
      let fields ← members cf.pool depth .fieldAt (fun n _ => .field n)
      let methods ← members cf.pool depth .methodAt .method
      let attributes ← inside .classAttributes (Decoder.attributes cf.pool depth)
      let left ← remaining
      if left = 0 then
        return ⟨cf.minor, cf.major, cf.pool, ⟨cf.flags.bits⟩, cf.thisClass, cf.superClass, cf.interfaces, fields,
          methods, attributes⟩
      else fail (.rest left)) _ cf :=
    decodes_bind (reads_members hfields h.fields (by omega) _ _)
      (decodes_bind (reads_members hmethods h.methods (by omega) _ _)
        (decodes_bind (reads_inside (reads_attributes hattributes h.attributes (by omega))) hend))
  rw [hencode]
  refine decodes_bind (reads_version h.version) (decodes_bind (reads_constantPool h.pool) ?_)
  refine decodes_bind (reads_u16 _) (decodes_bind (reads_u16 _) (decodes_bind (reads_u16 _) ?_))
  refine decodes_bind (reads_table hinterfaces) (decodes_lookup h.thisClass ?_)
  dsimp only
  split
  · next hsuper => exact decodes_lookup (h.superClass hsuper) (decodes_lookup (exists_mapM_ok h.interfaces) hmembers)
  · exact decodes_lookup (exists_mapM_ok h.interfaces) hmembers

end Decoder

/-- Whatever class file can be read, it is read from its bytes. -/
theorem ClassFile.parse_encode {cf : ClassFile} (h : cf.Legible) : ClassFile.parse cf.encode = .ok cf := by
  have hread := Decoder.decodes_classFile h (Nat.le_refl _) 0
  rw [ClassFile.parse, StateT.run, hread]
  rfl

end JavaMachine
