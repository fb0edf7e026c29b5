import JavaMachine.Proofs.ClassFile.Decoder

/-!
A class file that was read is written back as the same bytes. The proof goes through the parts of a class
file in the order of reading: each part is exact, and a part that holds others is exact because they are.
Main statement: `ClassFile.encode_of_parse`.
-/

namespace JavaMachine

open BigEndian

namespace Decoder

/-! ## Constants -/

theorem toNat_eq_tag {tag : UInt8} {n : Nat} (h : tag.toNat = n) : tag = UInt8.ofNat n := by
  rw [← h, UInt8.ofNat_toNat]

/-- A text constant keeps its bytes, so its spelling does not matter. -/
theorem utf8_exact {i j : Input} {c : Constant}
    (h : (do
      let n ← u16
      let raw ← bytes n.toNat
      match Text.ModifiedUtf8.decode raw with
      | .ok _ => return Constant.utf8 raw
      | .error f => fail (.text f) : Decoder Constant) i = .ok (c, j)) :
    1 :: i.rest = c.encode ++ j.rest := by
  obtain ⟨n, k, hn, h⟩ := bind_ok h
  obtain ⟨raw, l, next, hraw, hnext, h⟩ := bind_next h
  obtain ⟨hrest, hlen⟩ := bytes_ok hraw
  split at hnext <;> subst hnext
  · obtain ⟨rfl, rfl⟩ := pure_ok h
    simp [Constant.encode, Constant.tag, u16_exact hn, hrest, hlen]
  · exact (fail_ok h).elim

/-- A constant of one word. -/
theorem single_exact {α : Type} {d : Decoder α} {write : α → List UInt8} (hd : Exact d write)
    {tag : UInt8} {make : α → Constant} (hmake : ∀ v, (make v).encode = tag :: write v)
    {i j : Input} {c : Constant} (h : (do return make (← d) : Decoder Constant) i = .ok (c, j)) :
    tag :: i.rest = c.encode ++ j.rest := by
  obtain ⟨v, k, hv, h⟩ := bind_ok h
  obtain ⟨rfl, rfl⟩ := pure_ok h
  rw [hmake, hd hv]
  rfl

/-- A constant of two words. -/
theorem pair_exact {α β : Type} {d : Decoder α} {e : Decoder β} {write : α → List UInt8}
    {write' : β → List UInt8} (hd : Exact d write) (he : Exact e write') {tag : UInt8}
    {make : α → β → Constant} (hmake : ∀ v w, (make v w).encode = tag :: (write v ++ write' w))
    {i j : Input} {c : Constant}
    (h : (do return make (← d) (← e) : Decoder Constant) i = .ok (c, j)) :
    tag :: i.rest = c.encode ++ j.rest := by
  obtain ⟨v, k, hv, h⟩ := bind_ok h
  obtain ⟨w, l, hw, h⟩ := bind_ok h
  obtain ⟨rfl, rfl⟩ := pure_ok h
  rw [hmake, hd hv, he hw, List.cons_append, List.append_assoc]

theorem constant_exact : Exact constant Constant.encode := by
  intro i j c h
  obtain ⟨tag, k, next, htag, hnext, h⟩ := bind_next h
  rw [u8_exact htag]
  -- one goal for each tag in the reader's order, and the last for tags that no constant has
  split at hnext <;> rename_i ht <;> subst hnext <;> try rw [toNat_eq_tag ht]
  · exact utf8_exact h
  · exact single_exact u32_exact (fun _ => rfl) h
  · exact single_exact u32_exact (fun _ => rfl) h
  · exact single_exact u64_exact (fun _ => rfl) h
  · exact single_exact u64_exact (fun _ => rfl) h
  · exact single_exact u16_exact (fun _ => rfl) h
  · exact single_exact u16_exact (fun _ => rfl) h
  · exact pair_exact u16_exact u16_exact (fun _ _ => rfl) h
  · exact pair_exact u16_exact u16_exact (fun _ _ => rfl) h
  · exact pair_exact u16_exact u16_exact (fun _ _ => rfl) h
  · exact pair_exact u16_exact u16_exact (fun _ _ => rfl) h
  · exact pair_exact u8_exact u16_exact (fun _ _ => rfl) h
  · exact single_exact u16_exact (fun _ => rfl) h
  · exact pair_exact u16_exact u16_exact (fun _ _ => rfl) h
  · exact (fail_ok h).elim

/-! ## The constant pool -/

theorem poolSlots_exact {left index : Nat} {i j : Input} {slots : List (Option Constant)}
    (h : poolSlots left index i = .ok (slots, j)) :
    i.rest = slots.flatMap Constant.encodeSlot ++ j.rest ∧ slots.length = left := by
  -- the recursion takes one slot away, or two after a wide constant
  fun_induction poolSlots left index generalizing i slots with
  | case1 =>
    obtain ⟨rfl, rfl⟩ := pure_ok h
    exact ⟨rfl, rfl⟩
  | case2 left index ihWide ih =>
    obtain ⟨c, k, next, hc, hnext, h⟩ := bind_next h
    have hfront := constant_exact (inside_ok hc)
    split at hnext
    · cases left with
      | zero =>
        subst hnext
        exact (fail_ok h).elim
      | succ left =>
        subst hnext
        obtain ⟨rest, l, hslots, h⟩ := bind_ok h
        obtain ⟨rfl, rfl⟩ := pure_ok h
        obtain ⟨hrest, rfl⟩ := ihWide hslots
        exact ⟨by simp [hfront, hrest, Constant.encodeSlot], rfl⟩
    · subst hnext
      obtain ⟨rest, l, hslots, h⟩ := bind_ok h
      obtain ⟨rfl, rfl⟩ := pure_ok h
      obtain ⟨hrest, rfl⟩ := ih hslots
      exact ⟨by simp [hfront, hrest, Constant.encodeSlot], rfl⟩

theorem constantPool_exact : Exact constantPool ConstantPool.encode := by
  intro i j pool h
  obtain ⟨count, k, next, hcount, hnext, h⟩ := bind_next h
  split at hnext
  · subst hnext
    exact (fail_ok h).elim
  · next hne =>
    subst hnext
    obtain ⟨slots, l, hslots, h⟩ := bind_ok h
    obtain ⟨rfl, rfl⟩ := pure_ok h
    obtain ⟨hrest, hlen⟩ := poolSlots_exact hslots
    -- the count includes the slot at index 0, which is not in the file
    have hpos : count.toNat ≠ 0 := fun h0 => hne (UInt16.toNat_inj.mp h0)
    have hsize : UInt16.ofNat (none :: slots).toArray.size = count := by
      rw [List.size_toArray, List.length_cons, hlen, Nat.sub_add_cancel (Nat.pos_of_ne_zero hpos),
        UInt16.ofNat_toNat]
    rw [u16_exact hcount, hrest, ConstantPool.encode, hsize, List.append_assoc]
    rfl

/-! ## Rows -/

theorem handlerRow_exact : Exact handlerRow HandlerRow.encode := by
  intro i j r h
  obtain ⟨a, _, ha, h⟩ := bind_ok h
  obtain ⟨b, _, hb, h⟩ := bind_ok h
  obtain ⟨c, _, hc, h⟩ := bind_ok h
  obtain ⟨d, _, hd, h⟩ := bind_ok h
  obtain ⟨rfl, rfl⟩ := pure_ok h
  simp [HandlerRow.encode, u16_exact ha, u16_exact hb, u16_exact hc, u16_exact hd]

theorem lineRow_exact : Exact lineRow LineRow.encode := by
  intro i j r h
  obtain ⟨a, _, ha, h⟩ := bind_ok h
  obtain ⟨b, _, hb, h⟩ := bind_ok h
  obtain ⟨rfl, rfl⟩ := pure_ok h
  simp [LineRow.encode, u16_exact ha, u16_exact hb]

theorem localRow_exact : Exact localRow LocalRow.encode := by
  intro i j r h
  obtain ⟨a, _, ha, h⟩ := bind_ok h
  obtain ⟨b, _, hb, h⟩ := bind_ok h
  obtain ⟨c, _, hc, h⟩ := bind_ok h
  obtain ⟨d, _, hd, h⟩ := bind_ok h
  obtain ⟨e, _, he, h⟩ := bind_ok h
  obtain ⟨rfl, rfl⟩ := pure_ok h
  simp [LocalRow.encode, u16_exact ha, u16_exact hb, u16_exact hc, u16_exact hd, u16_exact he]

theorem innerRow_exact : Exact innerRow InnerRow.encode := by
  intro i j r h
  obtain ⟨a, _, ha, h⟩ := bind_ok h
  obtain ⟨b, _, hb, h⟩ := bind_ok h
  obtain ⟨c, _, hc, h⟩ := bind_ok h
  obtain ⟨d, _, hd, h⟩ := bind_ok h
  obtain ⟨rfl, rfl⟩ := pure_ok h
  simp [InnerRow.encode, u16_exact ha, u16_exact hb, u16_exact hc, u16_exact hd]

theorem bootstrapRow_exact : Exact bootstrapRow BootstrapRow.encode := by
  intro i j r h
  obtain ⟨a, _, ha, h⟩ := bind_ok h
  obtain ⟨b, _, hb, h⟩ := bind_ok h
  obtain ⟨rfl, rfl⟩ := pure_ok h
  simp [BootstrapRow.encode, u16_exact ha, table_exact hb]

/-! ## Attributes -/

/-- A decoder whose result is made from one part. -/
theorem map_exact {α β : Type} {d : Decoder α} {write : α → List UInt8} (hd : Exact d write)
    {make : α → β} {write' : β → List UInt8} (hmake : ∀ v, write' (make v) = write v) :
    Exact (do return make (← d)) write' := by
  intro i j x h
  obtain ⟨v, k, hv, h⟩ := bind_ok h
  obtain ⟨rfl, rfl⟩ := pure_ok h
  rw [hmake, hd hv]

theorem ite_exact {α : Type} {c : Prop} {_ : Decidable c} {d e : Decoder α} {write : α → List UInt8}
    (hd : Exact d write) (he : Exact e write) : Exact (if c then d else e) write := by
  split
  · exact hd
  · exact he

theorem bytes_exact (n : Nat) : Exact (bytes n) id := fun _ _ _ h => (bytes_ok h).1

theorem enclosing_exact :
    Exact (do return AttributeBody.enclosing (← u16) (← u16)) AttributeBody.encode := by
  intro i j x h
  obtain ⟨a, _, ha, h⟩ := bind_ok h
  obtain ⟨b, _, hb, h⟩ := bind_ok h
  obtain ⟨rfl, rfl⟩ := pure_ok h
  rw [AttributeBody.encode, u16_exact ha, u16_exact hb, List.append_assoc]

theorem marker_exact : Exact (return AttributeBody.marker) AttributeBody.encode := by
  intro i j x h
  obtain ⟨rfl, rfl⟩ := pure_ok h
  rw [AttributeBody.encode, List.nil_append]

theorem plainBody_exact (name : String) (length : Nat) :
    Exact (plainBody name length) AttributeBody.encode := by
  have index (kind : IndexKind) : Exact (do return .index kind (← u16)) AttributeBody.encode :=
    map_exact u16_exact fun _ => by rw [AttributeBody.encode]
  have raw (kind : RawKind) : Exact (do return .raw kind (← bytes length)) AttributeBody.encode :=
    map_exact (bytes_exact length) fun _ => by rw [AttributeBody.encode, id]
  unfold plainBody
  -- one step for each name that fixes its contents, and the last for all other names
  refine ite_exact (index .constantValue) ?_
  refine ite_exact (map_exact table_exact fun _ => by rw [AttributeBody.encode]) ?_
  refine ite_exact (map_exact (counted_exact lineRow_exact) fun _ => by rw [AttributeBody.encode]) ?_
  refine ite_exact (index .sourceFile) ?_
  refine ite_exact (raw .stackMap) ?_
  refine ite_exact marker_exact ?_
  refine ite_exact (raw .annotations) ?_
  refine ite_exact (map_exact (counted_exact localRow_exact) fun _ => by rw [AttributeBody.encode]) ?_
  refine ite_exact enclosing_exact ?_
  refine ite_exact (map_exact (counted_exact innerRow_exact) fun _ => by rw [AttributeBody.encode]) ?_
  refine ite_exact (map_exact (counted_exact bootstrapRow_exact) fun _ => by
    rw [AttributeBody.encode]) ?_
  exact ite_exact (index .signature) (raw .unknown)

/-- The bytes around and in the contents of an attribute. -/
theorem attributeFrame_ok {pool : ConstantPool} {i j : Input} {index : UInt16} {name : String}
    {content : List UInt8} (h : attributeFrame pool i = .ok ((index, name, content), j)) :
    i.rest = attributeBytes index content ++ j.rest := by
  obtain ⟨index', k, hindex, h⟩ := bind_ok h
  obtain ⟨length, l, hlength, h⟩ := bind_ok h
  obtain ⟨name', l', hname, h⟩ := bind_ok h
  obtain rfl := lookup_ok (inside_ok hname)
  split at h
  · next front rest hs =>
    cases h
    obtain ⟨hrest, hlen⟩ := split?_eq hs
    rw [u16_exact hindex, u32_exact hlength, hrest, attributeBytes, hlen, UInt32.ofNat_toNat]
    simp
  · cases h

theorem plainAttribute_ok {index : UInt16} {name : String} {content : List UInt8} {i j : Input}
    {a : Attribute} (h : plainAttribute index name content i = .ok (a, j)) :
    i = j ∧ a.encode = attributeBytes index content := by
  obtain ⟨body, k, hbody, h⟩ := bind_ok h
  obtain ⟨rfl, rfl⟩ := pure_ok h
  obtain ⟨rfl, l, hl, hnil⟩ := within_ok hbody
  have hcontent := plainBody_exact name content.length (mapFault_ok hl)
  rw [hnil, List.append_nil] at hcontent
  exact ⟨rfl, by rw [Attribute.encode, ← hcontent]⟩

theorem flatMap_encode (attributes : List Attribute) :
    attributes.flatMap Attribute.encode = Attribute.encodeAll attributes := by
  induction attributes with
  | nil => rw [Attribute.encodeAll, List.flatMap_nil]
  | cons a rest ih => rw [Attribute.encodeAll, List.flatMap_cons, ih]

theorem codeHead_ok {i j : Input} {head : CodeHead} (h : codeHead i = .ok (head, j)) :
    i.rest = bytes16 head.maxStack ++ bytes16 head.maxLocals ++
      bytes32 (UInt32.ofNat head.code.length) ++ head.code ++
      countedBytes head.handlers HandlerRow.encode ++ j.rest := by
  obtain ⟨stack, _, hstack, h⟩ := bind_ok h
  obtain ⟨locals, _, hlocals, h⟩ := bind_ok h
  obtain ⟨length, _, next, hlength, hnext, h⟩ := bind_next h
  split at hnext <;> subst hnext
  · exact (fail_ok h).elim
  · obtain ⟨code, _, hcode, h⟩ := bind_ok h
    obtain ⟨handlers, _, hhandlers, h⟩ := bind_ok h
    obtain ⟨rfl, rfl⟩ := pure_ok h
    obtain ⟨hrest, hlen⟩ := bytes_ok (inside_ok hcode)
    rw [u16_exact (inside_ok hstack), u16_exact (inside_ok hlocals), u32_exact (inside_ok hlength),
      hrest, counted_ok handlerRow_exact (inside_ok hhandlers), hlen, UInt32.ofNat_toNat]
    simp

/-- The contents of a code attribute, if the attributes in it are exact. -/
theorem codeBody_exact {d : Decoder Attribute} (hd : Exact d Attribute.encode) :
    Exact (do
      let head ← codeHead
      let nested ← inside .code (counted d)
      return CodeBody.mk head.maxStack head.maxLocals head.code head.handlers nested)
      CodeBody.encode := by
  intro i j body h
  obtain ⟨head, k, hhead, h⟩ := bind_ok h
  obtain ⟨nested, l, hnested, h⟩ := bind_ok h
  obtain ⟨rfl, rfl⟩ := pure_ok h
  rw [codeHead_ok hhead, counted_ok hd (inside_ok hnested), CodeBody.encode]
  simp [countedBytes, flatMap_encode]

/-- Every attribute is exact, however deep code attributes nest. -/
theorem anyAttribute_exact (pool : ConstantPool) (depth : Nat) :
    Exact (anyAttribute pool depth) Attribute.encode := by
  -- the induction is on how deep code attributes may still nest; other attributes do not use it
  induction depth with
  | zero =>
    intro i j a h
    obtain ⟨⟨index, name, content⟩, k, next, hframe, hnext, h⟩ := bind_next h
    dsimp only at hnext
    split at hnext <;> subst hnext
    · exact (fail_ok h).elim
    · obtain ⟨rfl, ha⟩ := plainAttribute_ok h
      rw [attributeFrame_ok hframe, ha]
  | succ depth ih =>
    intro i j a h
    obtain ⟨⟨index, name, content⟩, k, next, hframe, hnext, h⟩ := bind_next h
    dsimp only at hnext
    split at hnext <;> subst hnext
    · obtain ⟨body, l, hbody, h⟩ := bind_ok h
      obtain ⟨rfl, rfl⟩ := pure_ok h
      obtain ⟨rfl, r, hr, hnil⟩ := within_ok hbody
      have hcontent := codeBody_exact ih hr
      rw [hnil, List.append_nil] at hcontent
      rw [attributeFrame_ok hframe, Attribute.encode, AttributeBody.encode, ← hcontent]
    · obtain ⟨rfl, ha⟩ := plainAttribute_ok h
      rw [attributeFrame_ok hframe, ha]

theorem attributes_exact (pool : ConstantPool) (depth : Nat) :
    Exact (attributes pool depth) Attribute.encodeTable := by
  intro i j as h
  rw [counted_ok (anyAttribute_exact pool depth) h, countedBytes, flatMap_encode]
  rfl

/-! ## Members -/

theorem member_exact (pool : ConstantPool) (depth : Nat) (place : Nat → Part)
    (named : String → String → Part) (p : Nat) :
    Exact (member pool depth place named p) MemberInfo.encode := by
  intro i j info h
  obtain ⟨⟨flags, name, descriptor, nameText, descriptorText⟩, k, hnames, h⟩ := bind_ok h
  obtain ⟨as, l, has, h⟩ := bind_ok h
  obtain ⟨rfl, rfl⟩ := pure_ok h
  -- the texts of the name and the descriptor are looked up, which takes no bytes away
  have hnames := inside_ok hnames
  obtain ⟨flags', _, hflags, hnames⟩ := bind_ok hnames
  obtain ⟨name', _, hname, hnames⟩ := bind_ok hnames
  obtain ⟨descriptor', _, hdescriptor, hnames⟩ := bind_ok hnames
  obtain ⟨_, _, ht, hnames⟩ := bind_ok hnames
  obtain ⟨_, _, hd, hnames⟩ := bind_ok hnames
  cases hnames
  obtain rfl := lookup_ok ht
  obtain rfl := lookup_ok hd
  simp [MemberInfo.encode, u16_exact hflags, u16_exact hname, u16_exact hdescriptor,
    attributes_exact pool depth (inside_ok has)]

theorem members_ok {pool : ConstantPool} {depth : Nat} {place : Nat → Part}
    {named : String → String → Part} {i j : Input} {infos : List MemberInfo}
    (h : members pool depth place named i = .ok (infos, j)) :
    i.rest = countedBytes infos MemberInfo.encode ++ j.rest := by
  obtain ⟨count, k, hcount, h⟩ := bind_ok h
  obtain ⟨hrest, hlen⟩ := indexed_exact (member_exact pool depth place named) h
  rw [u16_exact (inside_ok hcount), hrest, countedBytes, hlen, UInt16.ofNat_toNat,
    List.append_assoc]

/-! ## Class files -/

theorem version_exact :
    Exact version fun v => bytes32 ClassFile.magic ++ bytes16 v.1 ++ bytes16 v.2 := by
  intro i j v h
  obtain ⟨word, k, next, hword, hnext, h⟩ := bind_next h
  split at hnext <;> subst hnext
  · exact (fail_ok h).elim
  · next hmagic =>
    obtain ⟨minor, l, hminor, h⟩ := bind_ok h
    obtain ⟨major, r, next, hmajor, hnext, h⟩ := bind_next h
    split at hnext <;> subst hnext
    · obtain ⟨rfl, rfl⟩ := pure_ok h
      rw [u32_exact hword, u16_exact hminor, u16_exact hmajor, Classical.not_not.mp hmagic]
      simp
    · exact (fail_ok h).elim

theorem classFile_ok {depth : Nat} {i j : Input} {cf : ClassFile}
    (h : classFile depth i = .ok (cf, j)) : i.rest = cf.encode := by
  obtain ⟨⟨minor, major⟩, _, hversion, h⟩ := bind_ok h
  obtain ⟨pool, _, hpool, h⟩ := bind_ok h
  obtain ⟨flags, _, hflags, h⟩ := bind_ok h
  obtain ⟨thisClass, _, hthis, h⟩ := bind_ok h
  obtain ⟨superClass, _, hsuper, h⟩ := bind_ok h
  obtain ⟨interfaces, k, hinterfaces, h⟩ := bind_ok h
  -- the class, its superclass and its interfaces are only looked up
  obtain ⟨_, k', hk, h⟩ := bind_ok h
  obtain rfl := lookup_ok (inside_ok hk)
  have h := check_ok h
  obtain ⟨_, k', hk, h⟩ := bind_ok h
  obtain rfl := lookup_ok (inside_ok hk)
  obtain ⟨fields, _, hfields, h⟩ := bind_ok h
  obtain ⟨methods, _, hmethods, h⟩ := bind_ok h
  obtain ⟨as, l, has, h⟩ := bind_ok h
  obtain ⟨left, l', next, hleft, hnext, h⟩ := bind_next h
  cases hleft
  split at hnext <;> subst hnext
  · next hnil =>
    obtain ⟨rfl, rfl⟩ := pure_ok h
    rw [version_exact hversion, constantPool_exact hpool, u16_exact hflags, u16_exact hthis,
      u16_exact hsuper, table_exact hinterfaces, members_ok hfields, members_ok hmethods,
      attributes_exact pool depth (inside_ok has), List.eq_nil_of_length_eq_zero hnil]
    simp [ClassFile.encode]
  · exact (fail_ok h).elim

end Decoder

/-- Whatever bytes are read as a class file, the class file is written as these bytes. -/
theorem ClassFile.encode_of_parse {bytes : List UInt8} {cf : ClassFile}
    (h : ClassFile.parse bytes = .ok cf) : cf.encode = bytes := by
  unfold ClassFile.parse at h
  cases hd : (Decoder.classFile bytes.length).run ⟨bytes, 0⟩ with
  | error f =>
    rw [hd] at h
    cases h
  | ok p =>
    rw [hd] at h
    cases h
    exact (Decoder.classFile_ok hd).symm

/-- The class `A`: its name is spelled in two bytes, a long takes two slots of its pool, and the code of
its method holds a code attribute. -/
def ClassFile.nestedSample : List UInt8 :=
  [0xCA, 0xFE, 0xBA, 0xBE, 0, 0, 0, 52, 0, 6,
   1, 0, 2, 0xC1, 0x81,
   7, 0, 1,
   5, 0, 0, 0, 0, 0, 0, 0, 9,
   1, 0, 4, 67, 111, 100, 101,
   0, 0x21, 0, 2, 0, 0, 0, 0, 0, 0,
   0, 1, 0, 9, 0, 1, 0, 1, 0, 1,
   0, 5, 0, 0, 0, 32, 0, 1, 0, 1, 0, 0, 0, 1, 0xB1, 0, 0, 0, 1,
   0, 5, 0, 0, 0, 13, 0, 0, 0, 0, 0, 0, 0, 1, 0xB1, 0, 0, 0, 0,
   0, 0]

theorem ClassFile.encode_of_parse_nestedSample :
    ∃ cf, ClassFile.parse nestedSample = .ok cf ∧ cf.encode = nestedSample := by
  have hread : (ClassFile.parse nestedSample).toOption.isSome = true := by decide +kernel
  cases h : ClassFile.parse nestedSample with
  | error f =>
    rw [h] at hread
    cases hread
  | ok cf => exact ⟨cf, rfl, encode_of_parse h⟩

end JavaMachine
