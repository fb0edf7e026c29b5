import JavaMachine.Proofs.ClassFile.Reading
import JavaMachine.Proofs.ClassFile.RoundTrip

/-!
Where a class file ends. A decoder is `Delimited` if the bytes it takes away fix the value on their own: it
reads the same value whatever follows them, and whatever is cut off at their end, it finds the rest
truncated. Every part of a class file is delimited, however deep code attributes nest. Main statement:
`ClassFile.parse_delimited`.
-/

namespace JavaMachine

namespace Decoder

open BigEndian

variable {α β : Type} {d : Decoder α}

/-- Of a strict prefix of the bytes the decoder says that they are truncated. -/
def Misses (d : Decoder α) (bytes : List UInt8) : Prop :=
  ∀ ⦃front⦄ offset, front <+: bytes → front ≠ bytes →
    ∃ f, d ⟨front, offset⟩ = .error f ∧ f.kind = .truncated

/-- What the decoder takes away is read as the same value whatever follows, and no strict prefix of it
is enough. -/
def Delimited (d : Decoder α) : Prop :=
  ∀ ⦃i x j⦄, d i = .ok (x, j) → ∃ bytes, i.rest = bytes ++ j.rest ∧ Reads d bytes x ∧ Misses d bytes

/-! ## Putting decoders together -/

theorem misses_nil : Misses d [] := fun _ _ hshorter hne => absurd (List.prefix_nil.mp hshorter) hne

/-- A strict prefix of two parts ends in the first or in the second. -/
theorem prefix_append_cases {front bs cs : List α} (hshorter : front <+: bs ++ cs) (hne : front ≠ bs ++ cs) :
    (front <+: bs ∧ front ≠ bs) ∨ ∃ rest, front = bs ++ rest ∧ rest <+: cs ∧ rest ≠ cs := by
  by_cases hfront : bs <+: front
  · obtain ⟨rest, rfl⟩ := hfront
    exact .inr ⟨rest, rfl, (List.prefix_append_right_inj bs).mp hshorter, fun heq => hne (by rw [heq])⟩
  · have hshort := (List.prefix_or_prefix_of_prefix hshorter (List.prefix_append bs cs)).resolve_right hfront
    exact .inl ⟨hshort, fun heq => hfront (heq ▸ List.prefix_refl _)⟩

theorem misses_bind {f : α → Decoder β} {bs cs : List UInt8} {x : α} (hreads : Reads d bs x)
    (hd : Misses d bs) (hf : Misses (f x) cs) : Misses (d >>= f) (bs ++ cs) := by
  intro front offset hshorter hne
  change ∃ g, (d ⟨front, offset⟩ >>= fun p => f p.1 p.2) = .error g ∧ _
  obtain ⟨hshort, hless⟩ | ⟨rest, rfl, hrest, hless⟩ := prefix_append_cases hshorter hne
  · obtain ⟨g, hg, hkind⟩ := hd offset hshort hless
    exact ⟨g, by rw [hg]; rfl, hkind⟩
  · rw [hreads]
    exact hf _ hrest hless

theorem delimited_bind {f : α → Decoder β} (hd : Delimited d) (hf : ∀ x, Delimited (f x)) :
    Delimited (d >>= f) := by
  intro i y j h
  obtain ⟨x, k, hx, hy⟩ := bind_ok h
  obtain ⟨bs, hbs, hreads, hmisses⟩ := hd hx
  obtain ⟨cs, hcs, hreads', hmisses'⟩ := hf x hy
  exact ⟨bs ++ cs, by rw [hbs, hcs, List.append_assoc], reads_bind hreads hreads',
    misses_bind hreads hmisses hmisses'⟩

/-- A decoder that takes nothing away and does not look at the input. -/
theorem delimited_still (h : ∀ ⦃i x j⦄, d i = .ok (x, j) → i = j ∧ ∀ k, d k = .ok (x, k)) :
    Delimited d := by
  intro i x j hd
  obtain ⟨rfl, hall⟩ := h hd
  exact ⟨[], rfl, fun _ _ => hall _, misses_nil⟩

theorem delimited_pure (x : α) : Delimited (pure x : Decoder α) := by
  refine delimited_still fun i y j h => ?_
  obtain ⟨rfl, rfl⟩ := pure_ok h
  exact ⟨rfl, fun _ => rfl⟩

theorem delimited_fail (f : FormatFault) : Delimited (fail f : Decoder α) := fun _ _ _ h => (fail_ok h).elim

theorem delimited_inside (p : Part) (hd : Delimited d) : Delimited (inside p d) := by
  intro i x j h
  obtain ⟨bs, hbs, hreads, hmisses⟩ := hd (inside_ok h)
  refine ⟨bs, hbs, reads_inside hreads, fun front offset hshorter hne => ?_⟩
  obtain ⟨f, hf, hkind⟩ := hmisses offset hshorter hne
  exact ⟨.inside p f, by rw [inside, mapFault, hf], hkind⟩

theorem delimited_lookup (r : Except IndexFault α) : Delimited (lookup r) := by
  refine delimited_still fun i x j h => ?_
  cases r with
  | ok y =>
    cases h
    exact ⟨rfl, fun _ => rfl⟩
  | error f => cases h

theorem delimited_within (name : String) (content : List UInt8) (d : Decoder α) :
    Delimited (within name content d) := by
  refine delimited_still fun i x j h => ?_
  obtain ⟨rfl, k, hd, hrest⟩ := within_ok h
  refine ⟨rfl, fun l => ?_⟩
  unfold within
  rw [hd]
  exact if_pos hrest

theorem delimited_ite {c : Prop} {_ : Decidable c} {d e : Decoder α} (hd : Delimited d)
    (he : Delimited e) : Delimited (if c then d else e) := by
  split
  · exact hd
  · exact he

/-! ## Bytes and words -/

/-- A decoder that asks for a number of bytes and finds fewer. -/
theorem misses_of_length {n : Nat} {bytes : List UInt8} (hlength : bytes.length = n)
    (h : ∀ i : Input, i.rest.length < n → ∃ f, d i = .error f ∧ f.kind = .truncated) :
    Misses d bytes := by
  intro front offset hshorter hne
  refine h _ (hlength ▸ ?_)
  exact Nat.lt_of_le_of_ne hshorter.length_le fun heq => hne (hshorter.eq_of_length heq)

theorem delimited_of_exact {write : α → List UInt8} (hexact : Exact d write)
    (hreads : ∀ x, Reads d (write x) x) (hmisses : ∀ x, Misses d (write x)) : Delimited d :=
  fun _ x _ hd => ⟨write x, hexact hd, hreads x, hmisses x⟩

theorem misses_u8 {v : UInt8} : Misses u8 [v] := by
  refine misses_of_length rfl fun i hlt => ?_
  match i, hlt with
  | ⟨[], _⟩, _ => exact ⟨_, rfl, rfl⟩

theorem misses_u16 {v : UInt16} : Misses u16 (bytes16 v) := by
  refine misses_of_length rfl fun i hlt => ?_
  match i, hlt with
  | ⟨[], _⟩, _ | ⟨[_], _⟩, _ => exact ⟨_, rfl, rfl⟩

theorem misses_u32 {v : UInt32} : Misses u32 (bytes32 v) := by
  refine misses_of_length rfl fun i hlt => ?_
  match i, hlt with
  | ⟨[], _⟩, _ | ⟨[_], _⟩, _ | ⟨[_, _], _⟩, _ | ⟨[_, _, _], _⟩, _ => exact ⟨_, rfl, rfl⟩

theorem misses_u64 {v : UInt64} : Misses u64 (bytes64 v) := by
  refine misses_of_length rfl fun i hlt => ?_
  match i, hlt with
  | ⟨[], _⟩, _ | ⟨[_], _⟩, _ | ⟨[_, _], _⟩, _ | ⟨[_, _, _], _⟩, _ | ⟨[_, _, _, _], _⟩, _
  | ⟨[_, _, _, _, _], _⟩, _ | ⟨[_, _, _, _, _, _], _⟩, _ | ⟨[_, _, _, _, _, _, _], _⟩, _ =>
    exact ⟨_, rfl, rfl⟩

theorem delimited_u8 : Delimited u8 := delimited_of_exact u8_exact reads_u8 fun _ => misses_u8

theorem delimited_u16 : Delimited u16 := delimited_of_exact u16_exact reads_u16 fun _ => misses_u16

theorem delimited_u32 : Delimited u32 := delimited_of_exact u32_exact reads_u32 fun _ => misses_u32

theorem delimited_u64 : Delimited u64 := delimited_of_exact u64_exact reads_u64 fun _ => misses_u64

theorem split?_eq_none {α : Type} {n : Nat} {xs : List α} (h : xs.length < n) : split? n xs = none := by
  cases hs : split? n xs with
  | none => rfl
  | some p =>
    obtain ⟨rfl, rfl⟩ := split?_eq hs
    rw [List.length_append] at h
    omega

theorem delimited_bytes (n : Nat) : Delimited (bytes n) := by
  intro i raw j h
  obtain ⟨hrest, rfl⟩ := bytes_ok h
  refine ⟨raw, hrest, reads_bytes raw, misses_of_length rfl fun k hlt => ?_⟩
  exact ⟨_, by rw [bytes, split?_eq_none hlt], rfl⟩

/-! ## Counted rows -/

theorem delimited_repeated (hd : Delimited d) (n : Nat) : Delimited (repeated n d) := by
  induction n with
  | zero => exact delimited_pure []
  | succ n ih => exact delimited_bind hd fun _ => delimited_bind ih fun _ => delimited_pure _

theorem delimited_indexed {d : Nat → Decoder α} (hd : ∀ p, Delimited (d p)) (p n : Nat) :
    Delimited (indexed d p n) := by
  induction n generalizing p with
  | zero => exact delimited_pure []
  | succ n ih => exact delimited_bind (hd p) fun _ => delimited_bind (ih _) fun _ => delimited_pure _

theorem delimited_counted (hd : Delimited d) : Delimited (counted d) :=
  delimited_bind delimited_u16 fun n => delimited_repeated hd n.toNat

/-- The words of a table are found to be missing before the first of them is read. -/
theorem delimited_table : Delimited table := by
  intro i vs j h
  have hlength : vs.length ≤ 65535 := by
    unfold table at h
    split at h
    · cases h
    · next n k hn =>
      split at h
      · cases h
      · rw [(repeated_exact u16_exact h).2]
        exact Nat.le_of_lt_succ n.toNat_lt
  refine ⟨tableBytes vs, table_exact h, reads_table hlength, fun front offset hshorter hne => ?_⟩
  unfold table
  obtain ⟨hshort, hless⟩ | ⟨rest, rfl, hrest, hless⟩ := prefix_append_cases hshorter hne
  · obtain ⟨g, hg, hkind⟩ := misses_u16 offset hshort hless
    exact ⟨g, by rw [hg], hkind⟩
  · have hlt : rest.length < 2 * vs.length := by
      rw [← length_flatMap_of_const length_bytes16 vs]
      exact Nat.lt_of_le_of_ne hrest.length_le fun heq => hless (hrest.eq_of_length heq)
    rw [reads_u16]
    dsimp only
    rw [toNat_length hlength, split?_eq_none hlt]
    exact ⟨_, rfl, rfl⟩

/-! ## The constant pool -/

theorem delimited_constant : Delimited constant := by
  have word (make : UInt16 → Constant) : Delimited (do return make (← u16)) :=
    delimited_bind delimited_u16 fun _ => delimited_pure _
  have words (make : UInt16 → UInt16 → Constant) : Delimited (do return make (← u16) (← u16)) :=
    delimited_bind delimited_u16 fun _ => word _
  refine delimited_bind delimited_u8 fun tag => ?_
  -- one goal for each tag in the reader's order, and the last for tags that no constant has
  split
  · refine delimited_bind delimited_u16 fun n => delimited_bind (delimited_bytes _) fun raw => ?_
    split
    · exact delimited_pure _
    · exact delimited_fail _
  · exact delimited_bind delimited_u32 fun _ => delimited_pure _
  · exact delimited_bind delimited_u32 fun _ => delimited_pure _
  · exact delimited_bind delimited_u64 fun _ => delimited_pure _
  · exact delimited_bind delimited_u64 fun _ => delimited_pure _
  · exact word _
  · exact word _
  · exact words _
  · exact words _
  · exact words _
  · exact words _
  · exact delimited_bind delimited_u8 fun _ => word _
  · exact word _
  · exact words _
  · exact delimited_fail _

theorem delimited_poolSlots (left index : Nat) : Delimited (poolSlots left index) := by
  -- the recursion takes one slot away, or two after a wide constant
  fun_induction poolSlots left index with
  | case1 => exact delimited_pure []
  | case2 left index ihWide ih =>
    refine delimited_bind (delimited_inside _ delimited_constant) fun c => delimited_ite ?_ ?_
    · cases left with
      | zero => exact delimited_fail _
      | succ left => exact delimited_bind ihWide fun _ => delimited_pure _
    · exact delimited_bind ih fun _ => delimited_pure _

theorem delimited_constantPool : Delimited constantPool :=
  delimited_bind delimited_u16 fun _ =>
    delimited_ite (delimited_fail _) (delimited_bind (delimited_poolSlots _ _) fun _ => delimited_pure _)

/-! ## Attributes and members -/

theorem delimited_attributeFrame (pool : ConstantPool) : Delimited (attributeFrame pool) := by
  refine delimited_bind delimited_u16 fun index => delimited_bind delimited_u32 fun length => ?_
  refine delimited_bind (delimited_inside _ (delimited_lookup _)) fun name i x j h => ?_
  split at h
  · next content rest hs =>
    cases h
    obtain ⟨hrest, hlength⟩ := split?_eq hs
    refine ⟨content, hrest, fun rest' offset => ?_, misses_of_length hlength fun k hlt => ?_⟩
    · dsimp only
      rw [← hlength, split?_append]
    · rw [split?_eq_none hlt]
      exact ⟨_, rfl, rfl⟩
  · cases h

theorem delimited_codeHead : Delimited codeHead := by
  refine delimited_bind (delimited_inside _ delimited_u16) fun _ => ?_
  refine delimited_bind (delimited_inside _ delimited_u16) fun _ => ?_
  refine delimited_bind (delimited_inside _ delimited_u32) fun _ => delimited_ite (delimited_fail _) ?_
  refine delimited_bind (delimited_inside _ (delimited_bytes _)) fun _ => ?_
  have hrow : Delimited handlerRow :=
    delimited_bind delimited_u16 fun _ => delimited_bind delimited_u16 fun _ =>
      delimited_bind delimited_u16 fun _ => delimited_bind delimited_u16 fun _ => delimited_pure _
  exact delimited_bind (delimited_inside _ (delimited_counted hrow)) fun _ => delimited_pure _

theorem delimited_plainAttribute (index : UInt16) (name : String) (content : List UInt8) :
    Delimited (plainAttribute index name content) :=
  delimited_bind (delimited_within _ _ _) fun _ => delimited_pure _

/-- An attribute tells its length before its contents, which are read from bytes of their own. -/
theorem delimited_anyAttribute (pool : ConstantPool) (depth : Nat) : Delimited (anyAttribute pool depth) := by
  cases depth with
  | zero =>
    exact delimited_bind (delimited_attributeFrame pool) fun _ =>
      delimited_ite (delimited_fail _) (delimited_plainAttribute _ _ _)
  | succ depth =>
    exact delimited_bind (delimited_attributeFrame pool) fun _ =>
      delimited_ite (delimited_bind (delimited_within _ _ _) fun _ => delimited_pure _)
        (delimited_plainAttribute _ _ _)

theorem delimited_attributes (pool : ConstantPool) (depth : Nat) : Delimited (attributes pool depth) :=
  delimited_counted (delimited_anyAttribute pool depth)

theorem delimited_memberNames (pool : ConstantPool) : Delimited (memberNames pool) :=
  delimited_bind delimited_u16 fun _ => delimited_bind delimited_u16 fun _ =>
    delimited_bind delimited_u16 fun _ => delimited_bind (delimited_lookup _) fun _ =>
      delimited_bind (delimited_lookup _) fun _ => delimited_pure _

theorem delimited_member (pool : ConstantPool) (depth : Nat) (place : Nat → Part)
    (named : String → String → Part) (p : Nat) : Delimited (member pool depth place named p) :=
  delimited_bind (delimited_inside _ (delimited_memberNames pool)) fun _ =>
    delimited_bind (delimited_inside _ (delimited_attributes pool depth)) fun _ => delimited_pure _

theorem delimited_members (pool : ConstantPool) (depth : Nat) (place : Nat → Part)
    (named : String → String → Part) : Delimited (members pool depth place named) :=
  delimited_bind (delimited_inside _ delimited_u16) fun _ =>
    delimited_indexed (delimited_member pool depth place named) _ _

theorem delimited_version : Delimited version :=
  delimited_bind delimited_u32 fun _ => delimited_ite (delimited_fail _) <|
    delimited_bind delimited_u16 fun _ => delimited_bind delimited_u16 fun _ =>
      delimited_ite (delimited_pure _) (delimited_fail _)

/-- A class file without the check that nothing follows it. -/
def contents (depth : Nat) : Decoder ClassFile := do
  let (minor, major) ← version
  let pool ← constantPool
  let flags ← u16
  let thisClass ← u16
  let superClass ← u16
  let interfaces ← table
  let _ ← inside .thisClass (lookup (pool.className thisClass))
  if superClass ≠ 0 then
    let _ ← inside .superClass (lookup (pool.className superClass))
  let _ ← inside .interfaces (lookup (interfaces.mapM pool.className))
  let fields ← members pool depth .fieldAt (fun n _ => .field n)
  let methods ← members pool depth .methodAt .method
  let attributes ← inside .classAttributes (attributes pool depth)
  return ⟨minor, major, pool, ⟨flags⟩, thisClass, superClass, interfaces, fields, methods, attributes⟩

theorem classFile_eq (depth : Nat) : classFile depth = (do
    let cf ← contents depth
    let left ← remaining
    if left = 0 then return cf else fail (.rest left)) := by
  simp only [classFile, contents, bind_assoc]
  refine bind_congr fun v => bind_congr fun pool => bind_congr fun flags => bind_congr fun thisClass => ?_
  refine bind_congr fun superClass => bind_congr fun interfaces => bind_congr fun _ => ?_
  split <;> simp only [bind_assoc, pure_bind]

theorem delimited_contents (depth : Nat) : Delimited (contents depth) := by
  refine delimited_bind delimited_version fun v => delimited_bind delimited_constantPool fun pool => ?_
  refine delimited_bind delimited_u16 fun flags => delimited_bind delimited_u16 fun thisClass => ?_
  refine delimited_bind delimited_u16 fun superClass => delimited_bind delimited_table fun interfaces => ?_
  have hmembers : ∀ fields, Delimited (do
      let methods ← members pool depth .methodAt .method
      let attributes ← inside .classAttributes (attributes pool depth)
      return ClassFile.mk v.1 v.2 pool ⟨flags⟩ thisClass superClass interfaces fields methods attributes) :=
    fun fields => delimited_bind (delimited_members pool depth _ _) fun _ =>
      delimited_bind (delimited_inside _ (delimited_attributes pool depth)) fun _ => delimited_pure _
  refine delimited_bind (delimited_inside _ (delimited_lookup _)) fun _ => delimited_ite ?_ ?_
  · refine delimited_bind (delimited_inside _ (delimited_lookup _)) fun _ => ?_
    refine delimited_bind (delimited_inside _ (delimited_lookup _)) fun _ => ?_
    exact delimited_bind (delimited_members pool depth _ _) hmembers
  · refine delimited_bind (delimited_inside _ (delimited_lookup _)) fun _ => ?_
    exact delimited_bind (delimited_members pool depth _ _) hmembers

/-! ## How deep attributes may nest -/

/-- The decoders do the same on inputs of at most `n` bytes. -/
def AgreeUpTo (n : Nat) (d e : Decoder α) : Prop := ∀ i : Input, i.rest.length ≤ n → d i = e i

variable {e : Decoder α} {n : Nat}

theorem agree_refl : AgreeUpTo n d d := fun _ _ => rfl

theorem agree_bind {f g : α → Decoder β} (hd : Delimited d) (hde : AgreeUpTo n d e)
    (hfg : ∀ x, AgreeUpTo n (f x) (g x)) : AgreeUpTo n (d >>= f) (e >>= g) := by
  intro i hi
  change (d i >>= fun p => f p.1 p.2) = (e i >>= fun p => g p.1 p.2)
  rw [← hde i hi]
  cases h : d i with
  | error _ => rfl
  | ok p =>
    obtain ⟨bytes, hrest, -, -⟩ := hd h
    have hle : p.2.rest.length ≤ i.rest.length := by
      rw [hrest, List.length_append]
      exact Nat.le_add_left _ _
    exact hfg p.1 p.2 (Nat.le_trans hle hi)

theorem agree_inside (p : Part) (hde : AgreeUpTo n d e) : AgreeUpTo n (inside p d) (inside p e) := by
  intro i hi
  rw [inside, inside, mapFault, mapFault, hde i hi]

theorem agree_repeated (hd : Delimited d) (hde : AgreeUpTo n d e) (k : Nat) :
    AgreeUpTo n (repeated k d) (repeated k e) := by
  induction k with
  | zero => exact agree_refl
  | succ k ih =>
    exact agree_bind hd hde fun _ => agree_bind (delimited_repeated hd k) ih fun _ => agree_refl

theorem agree_indexed {d e : Nat → Decoder α} (hd : ∀ p, Delimited (d p))
    (hde : ∀ p, AgreeUpTo n (d p) (e p)) (p k : Nat) :
    AgreeUpTo n (indexed d p k) (indexed e p k) := by
  induction k generalizing p with
  | zero => exact agree_refl
  | succ k ih =>
    exact agree_bind (hd p) (hde p) fun _ =>
      agree_bind (delimited_indexed hd (p + 1) k) (ih (p + 1)) fun _ => agree_refl

theorem agree_counted (hd : Delimited d) (hde : AgreeUpTo n d e) :
    AgreeUpTo n (counted d) (counted e) :=
  agree_bind delimited_u16 agree_refl fun _ => agree_repeated hd hde _

/-- The contents of an attribute are shorter than the attribute. -/
theorem length_content_lt {pool : ConstantPool} {i j : Input} {index : UInt16} {name : String}
    {content : List UInt8} (h : attributeFrame pool i = .ok ((index, name, content), j)) :
    content.length < i.rest.length := by
  rw [attributeFrame_ok h, attributeBytes]
  simp only [List.length_append, length_bytes16]
  omega

theorem agree_frame {pool : ConstantPool} {f g : UInt16 × String × List UInt8 → Decoder α}
    (hfg : ∀ index name content, content.length < n → f (index, name, content) = g (index, name, content)) :
    AgreeUpTo n (attributeFrame pool >>= f) (attributeFrame pool >>= g) := by
  intro i hi
  change (attributeFrame pool i >>= fun p => f p.1 p.2) = (attributeFrame pool i >>= fun p => g p.1 p.2)
  cases h : attributeFrame pool i with
  | error _ => rfl
  | ok p =>
    obtain ⟨⟨index, name, content⟩, j⟩ := p
    exact congrFun (hfg index name content (Nat.lt_of_lt_of_le (length_content_lt h) hi)) j

theorem within_congr {name : String} {content : List UInt8} (hlength : content.length ≤ n)
    (hde : AgreeUpTo n d e) : within name content d = within name content e := by
  funext i
  rw [within, within, hde _ hlength]

/-- Every attribute starts with its frame, whatever the bound. -/
theorem anyAttribute_frame (pool : ConstantPool) (depth : Nat) :
    ∃ f, anyAttribute pool depth = attributeFrame pool >>= f := by
  cases depth with
  | zero => exact ⟨_, by rw [anyAttribute]⟩
  | succ depth => exact ⟨_, by rw [anyAttribute]⟩

/-- The number of bytes bounds how deep attributes nest in them, so a larger bound makes no difference. -/
theorem agree_anyAttribute (pool : ConstantPool) {n depth depth' : Nat} (h : n ≤ depth) (h' : n ≤ depth') :
    AgreeUpTo n (anyAttribute pool depth) (anyAttribute pool depth') := by
  -- the induction is on the number of bytes; what an attribute holds has fewer than the attribute
  induction n generalizing depth depth' with
  | zero =>
    obtain ⟨f, hf⟩ := anyAttribute_frame pool depth
    obtain ⟨g, hg⟩ := anyAttribute_frame pool depth'
    rw [hf, hg]
    exact agree_frame fun _ _ _ hlt => absurd hlt (Nat.not_lt_zero _)
  | succ n ih =>
    obtain ⟨depth, rfl⟩ := Nat.exists_eq_add_of_le' (Nat.le_trans (Nat.le_add_left 1 n) h)
    obtain ⟨depth', rfl⟩ := Nat.exists_eq_add_of_le' (Nat.le_trans (Nat.le_add_left 1 n) h')
    have hnested := ih (Nat.le_of_succ_le_succ h) (Nat.le_of_succ_le_succ h')
    rw [anyAttribute, anyAttribute]
    refine agree_frame fun index name content hlt => ?_
    dsimp only
    split
    · rw [within_congr (Nat.le_of_lt_succ hlt)]
      refine agree_bind delimited_codeHead agree_refl fun head => ?_
      exact agree_bind (delimited_inside _ (delimited_attributes pool depth))
        (agree_inside _ (agree_counted (delimited_anyAttribute pool depth) hnested)) fun _ => agree_refl
    · rfl

theorem agree_attributes (pool : ConstantPool) {n depth depth' : Nat} (h : n ≤ depth) (h' : n ≤ depth') :
    AgreeUpTo n (attributes pool depth) (attributes pool depth') :=
  agree_counted (delimited_anyAttribute pool depth) (agree_anyAttribute pool h h')

theorem agree_members (pool : ConstantPool) (place : Nat → Part) (named : String → String → Part)
    {n depth depth' : Nat} (h : n ≤ depth) (h' : n ≤ depth') :
    AgreeUpTo n (members pool depth place named) (members pool depth' place named) := by
  refine agree_bind (delimited_inside _ delimited_u16) agree_refl fun count => ?_
  refine agree_indexed (delimited_member pool depth place named) (fun p => ?_) _ _
  refine agree_bind (delimited_inside _ (delimited_memberNames pool)) agree_refl fun names => ?_
  exact agree_bind (delimited_inside _ (delimited_attributes pool depth))
    (agree_inside _ (agree_attributes pool h h')) fun _ => agree_refl

theorem agree_contents {n depth depth' : Nat} (h : n ≤ depth) (h' : n ≤ depth') :
    AgreeUpTo n (contents depth) (contents depth') := by
  refine agree_bind delimited_version agree_refl fun v => ?_
  refine agree_bind delimited_constantPool agree_refl fun pool => ?_
  refine agree_bind delimited_u16 agree_refl fun flags => ?_
  refine agree_bind delimited_u16 agree_refl fun thisClass => ?_
  refine agree_bind delimited_u16 agree_refl fun superClass => ?_
  refine agree_bind delimited_table agree_refl fun interfaces => ?_
  have hmembers : AgreeUpTo n _ _ := agree_bind (delimited_members pool depth .fieldAt fun n _ => .field n)
    (agree_members pool _ _ h h') fun fields => agree_bind (delimited_members pool depth .methodAt .method)
      (agree_members pool _ _ h h') fun methods =>
        agree_bind (delimited_inside .classAttributes (delimited_attributes pool depth))
          (agree_inside _ (agree_attributes pool h h')) fun as => agree_refl (d := (pure
            (ClassFile.mk v.1 v.2 pool ⟨flags⟩ thisClass superClass interfaces fields methods as) : Decoder ClassFile))
  refine agree_bind (delimited_inside _ (delimited_lookup _)) agree_refl fun _ => ?_
  dsimp only
  split
  · refine agree_bind (delimited_inside _ (delimited_lookup _)) agree_refl fun _ => ?_
    exact agree_bind (delimited_inside _ (delimited_lookup _)) agree_refl fun _ => hmembers
  · exact agree_bind (delimited_inside _ (delimited_lookup _)) agree_refl fun _ => hmembers

end Decoder

/-! ## Whole files -/

/-- Reading a class file is reading its contents, under any bound on the nesting that its bytes cannot
exceed, and then finding nothing behind them. -/
theorem ClassFile.parse_eq {bytes : List UInt8} {depth : Nat} (h : bytes.length ≤ depth) :
    ClassFile.parse bytes =
      match Decoder.contents depth ⟨bytes, 0⟩ with
      | .error f => .error f
      | .ok (cf, left) => if left.rest.length = 0 then .ok cf else .error (.rest left.rest.length) := by
  rw [ClassFile.parse, StateT.run, Decoder.classFile_eq, ← Decoder.agree_contents (Nat.le_refl _) h _ (Nat.le_refl _)]
  change (Decoder.contents bytes.length ⟨bytes, 0⟩ >>= fun p => _) >>= _ = _
  cases Decoder.contents bytes.length ⟨bytes, 0⟩ with
  | error f => rfl
  | ok p =>
    obtain ⟨cf, left⟩ := p
    change ((if left.rest.length = 0 then pure cf else Decoder.fail (.rest left.rest.length) : Decoder ClassFile)
      left >>= fun r => pure r.1) = _
    dsimp only
    split <;> rfl

/-- The class files that can be read form a prefix-free set: of one that can be read, every strict prefix
is refused as truncated, and with anything appended it is refused for what is left over. -/
theorem ClassFile.parse_delimited {bytes : List UInt8} {cf : ClassFile} (h : ClassFile.parse bytes = .ok cf) :
    (∀ front, front <+: bytes → front ≠ bytes →
      ∃ f, ClassFile.parse front = .error f ∧ f.kind = .truncated) ∧
    ∀ extra, extra ≠ [] →
      ∃ f, ClassFile.parse (bytes ++ extra) = .error f ∧ f.kind = .badAttribute := by
  have hlength (extra : List UInt8) : bytes.length ≤ (bytes ++ extra).length := by
    rw [List.length_append]
    exact Nat.le_add_right _ _
  -- one bound for the bytes and for what they are compared with
  have hcontents (depth : Nat) (hdepth : bytes.length ≤ depth) :
      Decoder.Reads (Decoder.contents depth) bytes cf ∧ Decoder.Misses (Decoder.contents depth) bytes := by
    rw [ClassFile.parse_eq hdepth] at h
    split at h
    · cases h
    · next cf' left hleft =>
      split at h
      · next hnil =>
        cases h
        obtain ⟨bs, hbs, hreads, hmisses⟩ := Decoder.delimited_contents depth hleft
        rw [List.eq_nil_of_length_eq_zero hnil, List.append_nil] at hbs
        obtain rfl : bytes = bs := hbs
        exact ⟨hreads, hmisses⟩
      · cases h
  refine ⟨fun front hshorter hne => ?_, fun extra hne => ?_⟩
  · obtain ⟨f, hf, hkind⟩ := (hcontents _ (Nat.le_refl _)).2 0 hshorter hne
    exact ⟨f, by rw [ClassFile.parse_eq hshorter.length_le, hf], hkind⟩
  · refine ⟨.rest extra.length, ?_, rfl⟩
    rw [ClassFile.parse_eq (Nat.le_refl _), (hcontents _ (hlength extra)).1]
    exact if_neg fun hnil => hne (List.eq_nil_of_length_eq_zero hnil)

/-- Cut off before its last count, and with a byte appended, the class file with nested code is refused. -/
theorem ClassFile.parse_delimited_nestedSample :
    (∃ cf, ClassFile.parse nestedSample = .ok cf) ∧
    (∃ f, ClassFile.parse nestedSample.dropLast = .error f ∧ f.kind = .truncated) ∧
    ∃ f, ClassFile.parse (nestedSample ++ [0]) = .error f ∧ f.kind = .badAttribute := by
  have hread : (ClassFile.parse nestedSample).toOption.isSome = true := by decide +kernel
  cases h : ClassFile.parse nestedSample with
  | error f =>
    rw [h] at hread
    cases hread
  | ok cf =>
    obtain ⟨hfront, hextra⟩ := parse_delimited h
    exact ⟨⟨cf, rfl⟩, hfront _ (List.dropLast_prefix _) (by decide), hextra [0] (by decide)⟩

end JavaMachine
