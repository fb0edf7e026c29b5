import JavaMachine.Proofs.Assembler.Keys
import JavaMachine.Proofs.Machine.Natives

/-!
Which methods the table of native methods tells apart. The key of a method joins its class, its name and its descriptor by
underscores, so a method with an underscore in its class or its name can have the key of another one. A key with no more than
two underscores is that of one method. Every key that the machine registers itself is like that, so its own table gives a
method the last implementation that is registered for it and no other. Main results: `find?_registered_exact`,
`find?_standard_exact`.
-/

namespace JavaMachine.Natives

variable {owner owner' name name' desc desc' : String}

/-- Only the members of a list decide what is found in it. -/
theorem find?_congr_of_mem {α : Type} {p q : α → Bool} {xs : List α} (h : ∀ x ∈ xs, p x = q x) :
    xs.find? p = xs.find? q := by
  induction xs with
  | nil => rfl
  | cons x rest ih =>
    obtain ⟨hx, hrest⟩ := List.forall_mem_cons.1 h
    rw [List.find?_cons, List.find?_cons, hx, ih hrest]

theorem toList_key (owner name desc : String) :
    (key owner name desc).toList = owner.toList ++ '_' :: (name.toList ++ '_' :: desc.toList) := by
  have hkey : key owner name desc = owner ++ "_" ++ (name ++ "_" ++ desc) := by
    rw [← String.append_assoc, ← String.append_assoc]
    rfl
  rw [hkey]
  simp only [String.toList_append, List.append_assoc]
  rfl

/-- A key with no underscores but those between its parts. -/
def Simple (key : String) : Prop := key.toList.count '_' ≤ 2

theorem Simple.parts (h : Simple (key owner name desc)) : '_' ∉ owner.toList ∧ '_' ∉ name.toList := by
  rw [Simple, toList_key] at h
  simp only [List.count_append, List.count_cons_self] at h
  exact ⟨List.count_eq_zero.1 (by omega), List.count_eq_zero.1 (by omega)⟩

/-- A simple key is that of one method. -/
theorem Simple.key_inj (h : Simple (key owner name desc)) :
    key owner name desc = key owner' name' desc' ↔ owner = owner' ∧ name = name' ∧ desc = desc' := by
  refine ⟨fun hkey => ?_, ?_⟩
  · obtain ⟨howner, hname⟩ := h.parts
    obtain ⟨howner', hname'⟩ := (hkey ▸ h : Simple (key owner' name' desc')).parts
    have hlists := congrArg String.toList hkey
    rw [toList_key, toList_key] at hlists
    obtain ⟨hfirst, hrest⟩ := parts_of_append_cons howner howner' hlists
    obtain ⟨hsecond, hthird⟩ := parts_of_append_cons hname hname' hrest
    exact ⟨String.toList_inj.1 hfirst, String.toList_inj.1 hsecond, String.toList_inj.1 hthird⟩
  · rintro ⟨rfl, rfl, rfl⟩
    rfl

/-- A text whose bytes are no underscores has none. The bytes of a text that is written out are faster to evaluate than its
characters. -/
theorem not_mem_of_bytes {s : String} (h : 0x5F ∉ s.toByteArray.data.toList) : '_' ∉ s.toList := by
  intro hmem
  refine h ?_
  rw [← String.utf8Encode_toList, List.utf8Encode, List.data_toByteArray, List.toList_toArray]
  exact List.mem_flatMap.2 ⟨'_', hmem, by decide⟩

theorem simple_of_not_mem (howner : '_' ∉ owner.toList) (hname : '_' ∉ name.toList) (hdesc : '_' ∉ desc.toList) :
    Simple (key owner name desc) := by
  rw [Simple, toList_key]
  simp [List.count_eq_zero.2 howner, List.count_eq_zero.2 hname, List.count_eq_zero.2 hdesc]

/-- The keys that the machine registers are simple. -/
theorem simple_entries : ∀ e ∈ entries, Simple e.key := by
  have hbytes : ∀ f ∈ families, 0x5F ∉ f.1.toByteArray.data.toList ∧ ∀ e ∈ f.2,
      0x5F ∉ e.1.toByteArray.data.toList ∧ 0x5F ∉ e.2.1.toByteArray.data.toList := by decide +kernel
  intro e he
  obtain ⟨f, hf, m, hm, rfl⟩ : ∃ f ∈ families, ∃ m ∈ f.2, (f.1, m) = e := by simpa [entries] using he
  obtain ⟨howner, hmethods⟩ := hbytes f hf
  obtain ⟨hname, hdesc⟩ := hmethods m hm
  exact simple_of_not_mem (not_mem_of_bytes howner) (not_mem_of_bytes hname) (not_mem_of_bytes hdesc)

/-- An entry is for a method. -/
def Entry.isFor (e : Entry) (owner name desc : String) : Bool := e.1 == owner && e.2.1 == name && e.2.2.1 == desc

/-- Where all keys are simple, the last implementation that was registered for a method is found, and nothing if there is
none. -/
theorem find?_registered_exact (es : List Entry) (hes : ∀ e ∈ es, Simple e.key) (owner name desc : String) :
    (es.foldl (fun n e => n.register e.1 e.2.1 e.2.2.1 e.2.2.2) ({} : Natives)).find? owner name desc =
      (es.reverse.find? (·.isFor owner name desc)).map (·.2.2.2) := by
  have hsame : es.reverse.find? (·.key == key owner name desc) = es.reverse.find? (·.isFor owner name desc) := by
    refine find?_congr_of_mem fun e he => ?_
    have hkey : Natives.key e.1 e.2.1 e.2.2.1 = key owner name desc ↔ e.1 = owner ∧ e.2.1 = name ∧ e.2.2.1 = desc :=
      Simple.key_inj (hes e (List.mem_reverse.1 he))
    rw [Bool.eq_iff_iff, beq_iff_eq, Entry.key, hkey]
    simp [Entry.isFor, and_assoc]
  rw [find?_registered, hsame, find?, Std.HashMap.getElem?_empty, Option.or_none]

/-- The table of the machine gives a method the last implementation that is registered for it. -/
theorem find?_standard_exact (owner name desc : String) :
    standard.find? owner name desc = (entries.reverse.find? (·.isFor owner name desc)).map (·.2.2.2) := by
  rw [standard_eq]
  exact find?_registered_exact entries simple_entries owner name desc

/-- An underscore in a class or in a name can stand for the one between them: what is registered for a method is found for
another one too. -/
theorem find?_register_join (n : Natives) (a b c desc : String) (act : Native) :
    (n.register (a ++ "_" ++ b) c desc act).find? a (b ++ "_" ++ c) desc = some act := by
  have hkey : key (a ++ "_" ++ b) c desc = key a (b ++ "_" ++ c) desc := by
    apply String.toList_inj.1
    simp only [toList_key, String.toList_append, List.append_assoc]
    rfl
  rw [register, find?, hkey]
  exact Std.HashMap.getElem?_insert_self

end JavaMachine.Natives
