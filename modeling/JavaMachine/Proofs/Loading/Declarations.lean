import JavaMachine.Proofs.ClassPath.Contents
import JavaMachine.Proofs.Loading.Attained
import Mathlib.Logic.Relation

/-!
The names that a class path declares. A class file declares the names of the supertypes of its class, and before the
class of a name is there the classes of those names have to be. Class paths can change while they are read, where
archives are opened that an index knew: so a machine may declare what a class file can say by the time it is read, and
must declare what it says in any case.

A search through what is declared marks names. Its depth is bounded by `Machine.depth`: there are only so many class
files to define a name that is not marked, and between two definitions only names of array classes are taken apart.
Main results: `depth_element` and `depth_supertype`, that the bound goes down on the way.
-/

namespace JavaMachine

/-! ## Declarations -/

/-- The names of the supertypes that a class file declares. -/
def ClassFile.supertypeNames (cf : ClassFile) : List String :=
  (if cf.superName = "" then [] else [cf.superName]) ++ cf.interfaceNames

/-- The names of the supertypes that a class was declared with. -/
def Class.supertypeNames (k : Class) : List String :=
  (if k.superName = "" then [] else [k.superName]) ++ k.interfaceNames

/-- The name of the class of the elements, where arrays of a name have elements of a class that can be loaded. The
supertypes of array classes are known to every machine that was set up. -/
def elementNames (name : String) : List String :=
  let element := (name.drop 1).toString
  if Descriptor.isField element ∧ element.length ≠ 1 then [Descriptor.toClassName element] else []

namespace Entry

/-- The class file that a class path has under a name. -/
def file? (e : Entry) (s : Storage) (name : String) : Option ClassFile :=
  match e.read name s with
  | .ok (data, _) _ => (ClassFile.parse data).toOption.filter (·.className = name)
  | .error _ _ => none

/-- Storage after a class was asked for. -/
def next (e : Entry) (s : Storage) (name : String) : Storage :=
  match e.read name s with
  | .ok _ s' => s'
  | .error _ s' => s'

/-- Storage after any number of classes were asked for. -/
inductive Asked (e : Entry) (s : Storage) : Storage → Prop
  | refl : Asked e s s
  | next {s' : Storage} (name : String) : Asked e s s' → Asked e s (e.next s' name)

theorem Asked.trans {e : Entry} {s s' s'' : Storage} (h : e.Asked s s') (h' : e.Asked s' s'') : e.Asked s s'' := by
  induction h' with
  | refl => exact h
  | next name _ ih => exact ih.next name

theorem contents_next (e : Entry) (s : Storage) (name : String) : (e.next s name).contents = s.contents := by
  have h := answers_read name e s
  unfold next
  generalize e.read name s = r at *
  cases r with
  | ok a s' => exact h.2
  | error f s' => exact h

theorem Asked.contents {e : Entry} {s s' : Storage} (h : e.Asked s s') : s'.contents = s.contents := by
  induction h with
  | refl => rfl
  | next name _ ih => rw [contents_next, ih]

/-- Tables in memory are left as they are. -/
theorem Asked.of_memory {id : Nat} {label : String} {s s' : Storage} (h : (Entry.memory id label).Asked s s') :
    s' = s := by
  induction h with
  | refl => rfl
  | @next s' name _ ih =>
    rw [Entry.next, read, run_readTable, ← ih]
    cases (s'.tables.getD id default).classes.lookup name <;> rfl

end Entry

namespace Machine

/-- The names that have to stand for classes before one does, on some storage. What the bootstrap loader knows
declares what it was defined with. -/
def declares (m : Machine) (s : Storage) (name : String) : List String :=
  if name.startsWith "[" then elementNames name
  else
    match m.loaded? 0 name with
    | some c => (m.classAt c).supertypeNames
    | none => ((m.options.classPath.file? s name).map ClassFile.supertypeNames).getD []

/-- A name may be found to declare another. -/
def MayDeclare (m : Machine) (n n' : String) : Prop :=
  ∃ s, m.options.classPath.Asked m.storage s ∧ n' ∈ m.declares s n

/-- A name is found to declare another whenever its class file is read. -/
def MustDeclare (m : Machine) (n n' : String) : Prop :=
  ∀ s, m.options.classPath.Asked m.storage s → n' ∈ m.declares s n

end Machine

/-- There is a cycle among the names that a name leads to. -/
def LeadsToCycle (R : String → String → Prop) (n : String) : Prop :=
  ∃ x, Relation.ReflTransGen R n x ∧ Relation.TransGen R x x

theorem LeadsToCycle.head {R : String → String → Prop} {n n' : String} (hn : R n n') (h : LeadsToCycle R n') :
    LeadsToCycle R n := by
  obtain ⟨x, hx, hcycle⟩ := h
  exact ⟨x, hx.head hn, hcycle⟩

/-- No cycle is among names that have a rank, where each is above those that it leads to. -/
theorem not_leadsToCycle {R : String → String → Prop} {P : String → Nat → Prop} (hP : ∀ {n i j}, P n i → P n j → i = j)
    (hR : ∀ {n n' i}, P n i → R n n' → ∃ j, P n' j ∧ j < i) {n : String} {i : Nat} (hn : P n i) :
    ¬ LeadsToCycle R n := by
  rintro ⟨x, hx, hcycle⟩
  have hrank : ∃ j, P x j := by
    clear hcycle
    induction hx with
    | refl => exact ⟨i, hn⟩
    | tail _ hstep ih =>
      obtain ⟨j, hj⟩ := ih
      obtain ⟨k, hk, -⟩ := hR hj hstep
      exact ⟨k, hk⟩
  have hdown {y : String} {j : Nat} (hj : P x j) (h : Relation.TransGen R x y) : ∃ k, P y k ∧ k < j := by
    induction h with
    | single hstep => exact hR hj hstep
    | tail _ hstep ih =>
      obtain ⟨k, hk, hlt⟩ := ih
      obtain ⟨l, hl, hlt'⟩ := hR hk hstep
      exact ⟨l, hl, Nat.lt_trans hlt' hlt⟩
  obtain ⟨j, hj⟩ := hrank
  obtain ⟨k, hk, hlt⟩ := hdown hj hcycle
  exact absurd (hP hk hj) (Nat.ne_of_lt hlt)

/-! ## How deep a search can go -/

/-- The class files that storage has. -/
def Storage.classFiles (s : Storage) : List ClassFile := s.contents.filterMap fun data => (ClassFile.parse data).toOption

theorem Entry.mem_classFiles {e : Entry} {s : Storage} {name : String} {cf : ClassFile} (h : e.file? s name = some cf) :
    cf ∈ s.classFiles ∧ cf.className = name := by
  have hread := e.answers_read name s
  unfold file? at h
  generalize e.read name s = r at *
  cases r with
  | error f s' => cases h
  | ok a s' =>
    obtain ⟨hcf, hname⟩ := Option.filter_eq_some_iff.1 h
    exact ⟨List.mem_filterMap.2 ⟨a.1, hread.1, hcf⟩, of_decide_eq_true hname⟩

theorem Entry.Asked.classFiles {e : Entry} {s s' : Storage} (h : e.Asked s s') : s'.classFiles = s.classFiles := by
  rw [Storage.classFiles, h.contents, Storage.classFiles]

/-- How much there is of a name to take apart. -/
def arrayNameLength (name : String) : Nat := if name.startsWith "[" then name.length else 0

namespace Storage

/-- How many class files there are that could define a name which is not marked. -/
def unmarked (s : Storage) (marks : List String) : Nat := (s.classFiles.filter (·.className ∉ marks)).length

/-- No name that is declared is longer. -/
def longest (s : Storage) : Nat := ((s.classFiles.flatMap ClassFile.supertypeNames).map String.length).max?.getD 0

/-- How many levels a search from a name can go through. -/
def depth (s : Storage) (marks : List String) (name : String) : Nat :=
  1 + arrayNameLength name + s.unmarked marks * (s.longest + 2)

variable {s : Storage} {marks : List String} {name name' : String} {cf : ClassFile}

theorem length_le_longest (hcf : cf ∈ s.classFiles) (h : name ∈ cf.supertypeNames) : name.length ≤ s.longest :=
  List.le_max?_getD_of_mem (List.mem_map.2 ⟨name, List.mem_flatMap.2 ⟨cf, hcf, h⟩, rfl⟩)

/-- There is one class file less to define a name when one is marked that there was a class file for. -/
theorem unmarked_cons_lt (hcf : cf ∈ s.classFiles) (hfree : cf.className ∉ marks) :
    s.unmarked (cf.className :: marks) < s.unmarked marks := by
  have hfilter : s.classFiles.filter (·.className ∉ cf.className :: marks) =
      (s.classFiles.filter (·.className ∉ marks)).filter (·.className ≠ cf.className) := by
    rw [List.filter_filter]
    refine List.filter_congr fun f _ => ?_
    simp
  rw [unmarked, hfilter, unmarked, List.length_filter_lt_length_iff_exists]
  exact ⟨cf, List.mem_filter.2 ⟨hcf, by simpa using hfree⟩, by simp⟩

theorem arrayNameLength_le (name : String) : arrayNameLength name ≤ name.length := by
  unfold arrayNameLength
  split
  · exact Nat.le_refl _
  · exact Nat.zero_le _

theorem length_toClassName {desc : String} (h : desc.length ≠ 1) : (Descriptor.toClassName desc).length ≤ desc.length := by
  rw [← String.length_toList] at h
  unfold Descriptor.toClassName
  split
  · exact Nat.zero_le _
  · next hd => simp [hd] at h
  · next rest hd =>
    split
    · rw [String.length_ofList, List.length_dropLast, ← String.length_toList, hd, List.length_cons]
      omega
    · exact Nat.le_refl _
  · exact Nat.le_refl _

theorem arrayNameLength_of_startsWith (h : name.startsWith "[") : arrayNameLength name = name.length ∧ 0 < name.length := by
  have hstart := (String.startsWith_string_iff.1 h).length_le
  rw [String.length_toList] at hstart
  exact ⟨if_pos h, hstart⟩

theorem arrayNameLength_element (h : name.startsWith "[") (h' : name' ∈ elementNames name) :
    arrayNameLength name' < arrayNameLength name := by
  obtain ⟨hname, hpos⟩ := arrayNameLength_of_startsWith h
  have hdrop : (name.drop 1).toString.length = name.length - 1 := by simp [← String.length_toList]
  unfold elementNames at h'
  dsimp only at h'
  split at h'
  · next helement =>
    have hlength := length_toClassName helement.2
    rw [← List.mem_singleton.1 h', hdrop] at hlength
    rw [hname]
    exact Nat.lt_of_le_of_lt (Nat.le_trans (arrayNameLength_le name') hlength) (Nat.sub_one_lt_of_lt hpos)
  · cases h'

/-- A search goes down from a name of an array class to that of its elements. -/
theorem depth_element (h : name.startsWith "[") (h' : name' ∈ elementNames name) :
    s.depth marks name' < s.depth marks name := by
  have hlt := arrayNameLength_element h h'
  unfold depth
  omega

/-- A search goes down from a name to those of the supertypes that its class file declares. -/
theorem depth_supertype (hcf : cf ∈ s.classFiles) (hfree : cf.className ∉ marks) (h : name ∈ cf.supertypeNames) :
    s.depth (cf.className :: marks) name < s.depth marks cf.className := by
  have hlength := Nat.le_trans (arrayNameLength_le name) (length_le_longest hcf h)
  have hmarked := Nat.mul_le_mul_right (s.longest + 2) (Nat.succ_le_of_lt (unmarked_cons_lt hcf hfree))
  rw [Nat.succ_mul] at hmarked
  unfold depth
  omega

end Storage

end JavaMachine
