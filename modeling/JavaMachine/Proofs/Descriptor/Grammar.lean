import JavaMachine.Descriptor

/-!
The grammar of method descriptors. A field descriptor ends where it ends whatever follows it, even in a name with
parentheses, brackets and letters of types in it; so the parameters of a method and what it returns can be told apart in
one way only, which is the one that reading finds. Main results: `splitField?_eq_some_iff`, `parseMethod_eq_ok_iff`,
`method_types_decompose`.
-/

namespace JavaMachine.Descriptor

/-- The characters of a field descriptor. -/
inductive Spells : List Char → Prop
  | primitive {c : Char} : c ∈ ['B', 'C', 'D', 'F', 'I', 'J', 'S', 'Z'] → Spells [c]
  | object {name : List Char} : name ≠ [] → ';' ∉ name → Spells ('L' :: name ++ [';'])
  | array {f : List Char} : Spells f → Spells ('[' :: f)

/-- A text that is a field descriptor. -/
def IsField (s : String) : Prop := Spells s.toList

/-- A method descriptor in its parts. -/
structure Decomposes (s : String) (t : MethodType) : Prop where
  text : s = "(" ++ String.join t.params ++ ")" ++ t.result
  params : ∀ p ∈ t.params, IsField p
  result : IsField t.result ∨ t.result = "V"

/-! ## Fields -/

theorem isPrimitiveLetter_iff (c : Char) :
    isPrimitiveLetter c = true ↔ c ∈ ['B', 'C', 'D', 'F', 'I', 'J', 'S', 'Z'] := by
  simp [isPrimitiveLetter, or_assoc]

/-- The end of a name is the first semicolon. -/
theorem split_name {name rest : List Char} (h : ';' ∉ name) :
    (name ++ ';' :: rest).takeWhile (· != ';') = name ∧ (name ++ ';' :: rest).dropWhile (· != ';') = ';' :: rest := by
  have hkept : ∀ c ∈ name, (c != ';') = true := fun c hc => bne_iff_ne.2 fun heq => h (heq ▸ hc)
  rw [List.takeWhile_append_of_pos hkept, List.dropWhile_append_of_pos hkept]
  simp

theorem splitField?_append {f : List Char} (h : Spells f) (rest : List Char) :
    splitField? (f ++ rest) = some (f, rest) := by
  induction h with
  | @primitive c hc =>
    have hbracket : c ≠ '[' := by rintro rfl; simp at hc
    rw [List.singleton_append, splitField?, if_neg hbracket, if_pos ((isPrimitiveLetter_iff c).2 hc)]
  | @object name hne hname =>
    obtain ⟨htake, hdrop⟩ := @split_name name rest hname
    have hempty : name.isEmpty = false := by simpa using hne
    rw [List.append_assoc, List.cons_append, List.singleton_append, splitField?, if_neg (by decide), if_neg (by decide),
      if_pos rfl]
    simp only [htake, hdrop, hempty]
    rfl
  | array _ ih =>
    rw [List.cons_append, splitField?, if_pos rfl, ih]
    rfl

theorem spells_of_splitField? {cs f rest : List Char} (h : splitField? cs = some (f, rest)) :
    Spells f ∧ cs = f ++ rest := by
  induction cs generalizing f with
  | nil => cases h
  | cons c cs ih =>
    rw [splitField?] at h
    split at h
    · next hbracket =>
      obtain ⟨⟨g, after⟩, hg, heq⟩ := Option.map_eq_some_iff.1 h
      obtain ⟨rfl, rfl⟩ := Prod.mk.inj heq
      obtain ⟨hspells, rfl⟩ := ih hg
      exact ⟨.array hspells, by rw [hbracket, List.cons_append]⟩
    · split at h
      · next hletter =>
        obtain ⟨rfl, rfl⟩ := Prod.mk.inj (Option.some.inj h)
        exact ⟨.primitive ((isPrimitiveLetter_iff c).1 hletter), rfl⟩
      · split at h
        · next hobject =>
          have hwhole := List.takeWhile_append_dropWhile (p := (· != ';')) (l := cs)
          have hname : ';' ∉ cs.takeWhile (· != ';') := fun hmem =>
            absurd (List.all_eq_true.1 List.all_takeWhile _ hmem) (by decide)
          dsimp only at h
          split at h
          · next d after hdrop =>
            have hend : d = ';' := by
              have hstop := List.head_dropWhile_not (· != ';') (l := cs) (by rw [hdrop]; exact List.cons_ne_nil _ _)
              simpa [hdrop] using hstop
            split at h
            · cases h
            · next hempty =>
              obtain ⟨rfl, rfl⟩ := Prod.mk.inj (Option.some.inj h)
              rw [hdrop, hend] at hwhole
              refine ⟨.object (by simpa using hempty) hname, ?_⟩
              rw [hobject, List.append_assoc]
              exact congrArg ('L' :: ·) hwhole.symm
          · cases h
        · cases h

/-- What is split off is the one field descriptor at the front. -/
theorem splitField?_eq_some_iff {cs f rest : List Char} :
    splitField? cs = some (f, rest) ↔ Spells f ∧ cs = f ++ rest :=
  ⟨spells_of_splitField?, by rintro ⟨hf, rfl⟩; exact splitField?_append hf rest⟩

theorem isField_iff (s : String) : isField s = true ↔ IsField s := by
  unfold isField IsField
  split
  · next f hsplit =>
    obtain ⟨hspells, hwhole⟩ := spells_of_splitField? hsplit
    rw [List.append_nil] at hwhole
    exact iff_of_true rfl (hwhole ▸ hspells)
  · next hsplit =>
    refine iff_of_false Bool.false_ne_true fun hspells => hsplit s.toList ?_
    simpa using splitField?_append hspells []

/-! ## Parameters -/

/-- A field descriptor begins with no parenthesis. -/
theorem Spells.cons {f : List Char} (h : Spells f) : ∃ c rest, f = c :: rest ∧ c ≠ ')' := by
  cases h with
  | @primitive c hc => exact ⟨c, [], rfl, by rintro rfl; simp at hc⟩
  | object => exact ⟨'L', _, rfl, by decide⟩
  | array => exact ⟨'[', _, rfl, by decide⟩

theorem splitParams_append {f : List Char} (h : Spells f) (rest : List Char) :
    splitParams (f ++ rest) = (f :: (splitParams rest).1, (splitParams rest).2) := by
  obtain ⟨c, tail, rfl, hc⟩ := h.cons
  have hsplit := splitField?_append h rest
  rw [List.cons_append] at hsplit ⊢
  rw [splitParams, if_neg hc]
  split
  · next hnone => cases hnone.symm.trans hsplit
  · next f after hsome =>
    obtain ⟨rfl, rfl⟩ := Prod.mk.inj (Option.some.inj (hsome.symm.trans hsplit))
    rfl

theorem splitParams_flatten {fields : List (List Char)} (h : ∀ f ∈ fields, Spells f) (rest : List Char) :
    splitParams (fields.flatten ++ ')' :: rest) = (fields, .closed rest) := by
  induction fields with
  | nil => rw [List.flatten_nil, List.nil_append, splitParams, if_pos rfl]
  | cons f fields ih =>
    rw [List.flatten_cons, List.append_assoc, splitParams_append (h f List.mem_cons_self),
      ih fun g hg => h g (List.mem_cons_of_mem f hg)]

theorem spells_of_splitParams {cs rest : List Char} {fields : List (List Char)}
    (h : splitParams cs = (fields, .closed rest)) :
    (∀ f ∈ fields, Spells f) ∧ cs = fields.flatten ++ ')' :: rest := by
  fun_induction splitParams cs generalizing fields with
  | case1 => nomatch h
  | case2 after =>
    cases h
    exact ⟨by simp, rfl⟩
  | case3 => nomatch h
  | case4 c cs hc f after hsplit _ params last hparams ih =>
    obtain ⟨rfl, rfl⟩ := Prod.mk.inj h
    obtain ⟨hspells, hwhole⟩ := spells_of_splitField? hsplit
    obtain ⟨hall, rfl⟩ := ih hparams
    refine ⟨List.forall_mem_cons.2 ⟨hspells, hall⟩, ?_⟩
    rw [hwhole, List.flatten_cons, List.append_assoc]

/-! ## Methods -/

/-- A descriptor by its characters. -/
theorem text_iff (s : String) (t : MethodType) : s = "(" ++ String.join t.params ++ ")" ++ t.result ↔
    s.toList = '(' :: ((t.params.map String.toList).flatten ++ ')' :: t.result.toList) := by
  rw [← String.toList_inj, String.toList_append, String.toList_append, String.toList_append, String.toList_join,
    List.flatMap_def, List.append_assoc, List.append_assoc]
  rfl

theorem isField_of_spells {fields : List (List Char)} (h : ∀ f ∈ fields, Spells f) :
    ∀ p ∈ fields.map String.ofList, IsField p := by
  intro p hp
  obtain ⟨f, hf, rfl⟩ := List.mem_map.1 hp
  rw [IsField, String.toList_ofList]
  exact h f hf

theorem toList_ofList_map (fields : List (List Char)) : (fields.map String.ofList).map String.toList = fields := by
  simp

theorem decomposes_of_parseMethod {s : String} {t : MethodType} (h : parseMethod s = .ok t) : Decomposes s t := by
  unfold parseMethod at h
  split at h
  · next rest hs =>
    split at h
    · nomatch h
    · cases hsplit : splitParams rest with
      | mk fields last =>
        rw [hsplit] at h
        dsimp only at h
        cases last with
        | bad => nomatch h
        | «open» => nomatch h
        | closed result =>
          dsimp only at h
          split at h
          · next hresult =>
            obtain rfl := Except.ok.inj h
            obtain ⟨hspells, rfl⟩ := spells_of_splitParams hsplit
            refine ⟨?_, isField_of_spells hspells, hresult.symm.imp_left (isField_iff _).1⟩
            rw [text_iff, hs, toList_ofList_map, String.toList_ofList]
          · nomatch h
  · nomatch h

theorem Decomposes.result_length {s : String} {t : MethodType} (h : Decomposes s t) : 0 < t.result.toList.length := by
  rcases h.result with hfield | hvoid
  · obtain ⟨c, rest, heq, -⟩ := hfield.cons
    rw [heq]
    exact Nat.succ_pos _
  · rw [hvoid]
    decide

theorem parseMethod_of_decomposes {s : String} {t : MethodType} (h : Decomposes s t) : parseMethod s = .ok t := by
  have htext := (text_iff s t).1 h.text
  have hlong : ¬((t.params.map String.toList).flatten ++ ')' :: t.result.toList).length < 2 := by
    have hresult := h.result_length
    rw [List.length_append, List.length_cons]
    omega
  have hfields : ∀ f ∈ t.params.map String.toList, Spells f := by
    intro f hf
    obtain ⟨p, hp, rfl⟩ := List.mem_map.1 hf
    exact h.params p hp
  unfold parseMethod
  rw [htext]
  split
  · next rest hrest =>
    obtain ⟨-, rfl⟩ := List.cons.inj hrest
    rw [if_neg hlong, splitParams_flatten hfields]
    dsimp only
    rw [String.ofList_toList, if_pos (h.result.symm.imp_right (isField_iff _).2)]
    simp
  · next hother => exact absurd rfl (hother _)

/-- Reading finds the parts of a method descriptor where there are any. -/
theorem parseMethod_eq_ok_iff {s : String} {t : MethodType} : parseMethod s = .ok t ↔ Decomposes s t :=
  ⟨decomposes_of_parseMethod, parseMethod_of_decomposes⟩

/-! ## Slots -/

theorem slotWidth_of_isField {p : String} (h : IsField p) : slotWidth p = if p = "J" ∨ p = "D" then 2 else 1 := by
  have hlong : p = "J" ↔ p.toList = ['J'] := String.toList_inj.symm
  have hdouble : p = "D" ↔ p.toList = ['D'] := String.toList_inj.symm
  simp only [hlong, hdouble, slotWidth]
  unfold IsField at h
  generalize p.toList = cs at h
  cases h with
  | @primitive c hc =>
    have hvoid : c ≠ 'V' := by rintro rfl; simp at hc
    simp [hvoid]
  | object => simp
  | array => simp

/-- Arguments take a slot each, and the longs and doubles among them one more. -/
theorem argSlots_eq {t : MethodType} (h : ∀ p ∈ t.params, IsField p) :
    t.argSlots = t.params.length + t.params.countP fun p => p = "J" ∨ p = "D" := by
  obtain ⟨params, result⟩ := t
  change params.foldr (fun p n => slotWidth p + n) 0 = params.length + _
  induction params with
  | nil => rfl
  | cons p params ih =>
    rw [List.foldr_cons, ih fun q hq => h q (List.mem_cons_of_mem p hq), slotWidth_of_isField (h p List.mem_cons_self),
      List.length_cons, List.countP_cons]
    simp only [decide_eq_true_eq]
    split <;> omega

/-! ## Whatever the text is -/

/-- Every fault says that the descriptor is malformed, and quotes it. -/
theorem message_eq (f : Fault) : ∃ detail, f.message = "malformed descriptor: " ++ detail := by
  obtain ⟨cause, text, params⟩ := f
  cases cause with
  | malformed => exact ⟨Text.Quoted.encode text, rfl⟩
  | unterminated =>
    refine ⟨"unterminated " ++ Text.Quoted.encode text, ?_⟩
    rw [← String.append_assoc]
    rfl
  | returnType =>
    refine ⟨"return type of " ++ Text.Quoted.encode text, ?_⟩
    rw [← String.append_assoc]
    rfl

/-- A text is either in one way only the descriptor of a method, which is how it is read, with the slots of the
parameters counted by their types; or in none, and it is refused as malformed. -/
theorem method_types_decompose (s : String) :
    (∃ t, parseMethod s = .ok t ∧ Decomposes s t ∧ (∀ t', Decomposes s t' → t' = t) ∧
        (∀ p ∈ t.params, isField p = true) ∧
        t.argSlots = t.params.length + t.params.countP fun p => p = "J" ∨ p = "D") ∨
      ∃ f, parseMethod s = .error f ∧ (∃ detail, f.message = "malformed descriptor: " ++ detail) ∧
        ∀ t, ¬Decomposes s t := by
  cases hparse : parseMethod s with
  | ok t =>
    have hparts := decomposes_of_parseMethod hparse
    refine .inl ⟨t, rfl, hparts, fun t' h => ?_, fun p hp => (isField_iff p).2 (hparts.params p hp), argSlots_eq hparts.params⟩
    exact Except.ok.inj ((parseMethod_of_decomposes h).symm.trans hparse)
  | error f =>
    refine .inr ⟨f, rfl, message_eq f, fun t h => ?_⟩
    cases hparse.symm.trans (parseMethod_of_decomposes h)

end JavaMachine.Descriptor
