import JavaMachine.ClassPath.Entry

/-!
What storage has to read. Reading a class may open an archive and changes nothing else, so a class path answers with
nothing but what storage had from the start. Main result: `answers_read`.
-/

namespace JavaMachine

/-! ## Contents -/

/-- The members of an archive that can be read once it is open. -/
def ArchiveFile.contents (a : ArchiveFile) (d : Disk) : List (List UInt8) :=
  match a.openFile d with
  | .ok { path, opened := some (n, ms), .. } =>
    ms.filterMap fun m => (Archive.contents path (d.data n) m).toOption.map (·.toList)
  | _ => []

namespace Storage

/-- The data of files, of members of archives and of classes in tables. A node that is no file is read like an empty
one. -/
def contents (s : Storage) : List (List UInt8) :=
  [] :: (List.range s.disk.nodes.size).map (fun n => (s.disk.data n).toList) ++
    s.archives.toList.flatMap (·.contents s.disk) ++ s.tables.toList.flatMap fun t => t.classes.map (·.2)

/-- An action that answers with contents, and leaves them as they are. -/
def Answers {α : Type} (data : α → List UInt8) (act : Action α) : Prop :=
  ∀ s, match act s with
    | .ok a s' => data a ∈ s.contents ∧ s'.contents = s.contents
    | .error _ s' => s'.contents = s.contents

end Storage

section contents

variable {s : Storage} {data : List UInt8}

theorem Storage.data_mem_contents (s : Storage) (n : Nat) : (s.disk.data n).toList ∈ s.contents := by
  rcases Nat.lt_or_ge n s.disk.nodes.size with hlt | hge
  · simp only [contents, List.mem_append, List.mem_cons, List.mem_map, List.mem_range]
    exact .inl (.inl (.inr ⟨n, hlt, rfl⟩))
  · have hnone : s.disk.nodes[n]? = none := Array.getElem?_eq_none hge
    have hempty : s.disk.data n = #[] := by rw [Disk.data, hnone]
    rw [hempty]
    simp [contents]

theorem Storage.mem_contents_of_archive {a : ArchiveFile} (ha : a ∈ s.archives) (h : data ∈ a.contents s.disk) :
    data ∈ s.contents := by
  simp only [contents, List.mem_append, List.mem_flatMap, Array.mem_toList_iff]
  exact .inl (.inr ⟨a, ha, h⟩)

theorem Storage.mem_contents_of_table {t : ClassTable} (ht : t ∈ s.tables) {name : String}
    (h : t.classes.lookup name = some data) : data ∈ s.contents := by
  obtain ⟨_, _, hclasses, -⟩ := List.lookup_eq_some_iff.1 h
  simp only [contents, List.mem_append, List.mem_flatMap, List.mem_map, Array.mem_toList_iff]
  exact .inr ⟨t, ht, (name, data), by simp [hclasses], rfl⟩

end contents

/-! ## Archives -/

namespace ArchiveFile

variable {a a' : ArchiveFile} {d : Disk}

/-- An archive that was opened stays open. -/
theorem openFile_openFile (h : a.openFile d = .ok a') : a'.opened.isSome ∧ a'.openFile d = .ok a' := by
  have hsome : a'.opened.isSome := by
    unfold openFile at h
    split at h
    · next hopened =>
      cases h
      exact hopened
    · revert h
      simp only [bind, Except.bind, pure, Except.pure, throw, throwThe, MonadExceptOf.throw]
      grind
  refine ⟨hsome, ?_⟩
  unfold openFile
  rw [if_pos hsome]
  rfl

/-- An archive has the same contents open and before. -/
theorem contents_openFile (h : a.openFile d = .ok a') : a'.contents d = a.contents d := by
  rw [contents, (openFile_openFile h).2, contents, h]

/-- What an open archive has under a name is among its contents. -/
theorem member_mem_contents {name : String} {data : Array UInt8} (h : a.openFile d = .ok a')
    (hmember : a'.member d name = .ok data) : data.toList ∈ a.contents d := by
  obtain ⟨path, opened, names⟩ := a'
  rw [contents, h]
  cases opened with
  | none => cases hmember
  | some entry =>
    obtain ⟨n, ms⟩ := entry
    unfold member at hmember
    dsimp only at hmember ⊢
    split at hmember
    · cases hmember
    · next m hm =>
      refine List.mem_filterMap.2 ⟨m, List.mem_reverse.1 (List.mem_of_find?_eq_some hm), ?_⟩
      cases hcontents : Archive.contents path (d.data n) m with
      | error f =>
        rw [hcontents] at hmember
        cases hmember
      | ok bytes =>
        rw [hcontents] at hmember
        cases hmember
        rfl

end ArchiveFile

namespace Storage

/-- Storage has the same contents when one of its archives is opened. -/
theorem contents_opened {s : Storage} {id : Nat} {a : ArchiveFile} (h : (s.archive id).openFile s.disk = .ok a) :
    { s with archives := s.archives.setIfInBounds id a }.contents = s.contents := by
  have hsame : (s.archives.setIfInBounds id a).toList.map (·.contents s.disk) =
      s.archives.toList.map (·.contents s.disk) := by
    apply List.ext_getElem?
    intro i
    rw [List.getElem?_map, List.getElem?_map, Array.getElem?_toList, Array.getElem?_toList,
      Array.getElem?_setIfInBounds]
    split
    · next hi =>
      subst hi
      split
      · next hlt =>
        have harchive : s.archive id = s.archives[id] := by simp [archive, Array.getD, hlt]
        rw [Array.getElem?_eq_getElem hlt, Option.map_some, Option.map_some, ArchiveFile.contents_openFile h, harchive]
      · next hge => rw [Array.getElem?_eq_none (Nat.le_of_not_lt hge)]
    · rfl
  have hflat : (s.archives.setIfInBounds id a).toList.flatMap (·.contents s.disk) =
      s.archives.toList.flatMap (·.contents s.disk) := by
    rw [List.flatMap_def, hsame, List.flatMap_def]
  rw [contents, contents]
  dsimp only
  rw [hflat]

/-- An archive that has a member is there. -/
theorem archive_mem {s : Storage} {id : Nat} (h : (s.archive id).names ≠ []) : s.archive id ∈ s.archives := by
  rw [archive, Array.getD] at h ⊢
  split
  · exact Array.getElem_mem _
  · next hge =>
    rw [dif_neg hge] at h
    exact absurd rfl h

theorem run_get_bind {α : Type} (f : Storage → Action α) (s : Storage) : ((get : Action Storage) >>= f) s = f s s := rfl

theorem run_modify_bind {α : Type} (g : Storage → Storage) (f : PUnit → Action α) (s : Storage) :
    ((modify g : Action PUnit) >>= f) s = f ⟨⟩ (g s) := rfl

theorem run_readMember (id : Nat) (name : String) (s : Storage) :
    readMember id name s =
      if (s.archive id).names.contains name then
        match (s.archive id).openFile s.disk with
        | .error f => .error f s
        | .ok a =>
          match a.member s.disk name with
          | .ok data => .ok data { s with archives := s.archives.setIfInBounds id a }
          | .error f => .error f { s with archives := s.archives.setIfInBounds id a }
      else .error .memberNotFound s := by
  rw [readMember, run_get_bind]
  cases hnames : (s.archive id).names.contains name with
  | false => rfl
  | true =>
    rw [if_neg (by decide), if_pos rfl]
    dsimp only
    rw [run_get_bind]
    cases (s.archive id).openFile s.disk with
    | error f => rfl
    | ok a =>
      dsimp only
      rw [run_modify_bind, run_get_bind]
      cases a.member s.disk name <;> rfl

theorem answers_readMember (id : Nat) (name : String) : Answers Array.toList (readMember id name) := by
  intro s
  rw [run_readMember]
  cases hnames : (s.archive id).names.contains name with
  | false => rfl
  | true =>
    have hmem : s.archive id ∈ s.archives := archive_mem fun hnil => by simp [hnil] at hnames
    rw [if_pos rfl]
    cases hopen : (s.archive id).openFile s.disk with
    | error f => rfl
    | ok a =>
      dsimp only
      cases hmember : a.member s.disk name with
      | error f => exact contents_opened hopen
      | ok data =>
        exact ⟨mem_contents_of_archive hmem (ArchiveFile.member_mem_contents hopen hmember), contents_opened hopen⟩

end Storage

/-! ## Entries -/

namespace Entry

open Storage

theorem answers_throw (f : ReadFault) : Answers Prod.fst (throw f : Action (List UInt8 × String)) := fun _ => rfl

theorem answers_orElseNotFound {first second : Action (List UInt8 × String)} (h : Answers Prod.fst first)
    (h' : Answers Prod.fst second) : Answers Prod.fst (orElseNotFound first second) := by
  intro s
  have h := h s
  rw [orElseNotFound]
  cases hfirst : first s with
  | ok a s' =>
    rw [hfirst] at h
    exact h
  | error f s' =>
    rw [hfirst] at h
    have h : s'.contents = s.contents := h
    -- the second action starts from other storage with the same contents
    have h' := h' s'
    rw [h] at h'
    dsimp only
    cases f.isNotFound with
    | true => exact h'
    | false => exact h

theorem run_readTable (id : Nat) (name : String) (s : Storage) :
    readTable id name s =
      match (s.tables.getD id default).classes.lookup name with
      | some bytes => .ok (bytes, (s.tables.getD id default).label) s
      | none => .error (.classNotFound name) s := by
  rw [readTable, run_get_bind]
  cases (s.tables.getD id default).classes.lookup name <;> rfl

theorem answers_readTable (id : Nat) (name : String) : Answers Prod.fst (readTable id name) := by
  intro s
  rw [run_readTable]
  cases hlookup : (s.tables.getD id default).classes.lookup name with
  | none => rfl
  | some data =>
    refine ⟨?_, rfl⟩
    rw [Array.getD] at hlookup
    split at hlookup
    · exact mem_contents_of_table (Array.getElem_mem _) hlookup
    · cases hlookup

theorem answers_readDirectory (path name : String) : Answers Prod.fst (readDirectory path name) := by
  intro s
  rw [readDirectory, run_get_bind]
  cases hread : s.disk.read (Path.join [path, name ++ ".class"]) with
  | error f => rfl
  | ok data =>
    refine ⟨?_, rfl⟩
    unfold Disk.read at hread
    cases hfind : s.disk.find "open" (Path.join [path, name ++ ".class"]) with
    | error f =>
      rw [hfind] at hread
      cases hread
    | ok n =>
      rw [hfind] at hread
      change (if s.disk.isDirectory n then _ else .ok (s.disk.data n)) = Except.ok data at hread
      split at hread
      · cases hread
      · cases hread
        exact s.data_mem_contents n

theorem run_readArchive (id : Nat) (path name : String) (s : Storage) :
    readArchive id path name s =
      match readMember id (name ++ ".class") s with
      | .ok data s' => .ok (data.toList, path) s'
      | .error f s' => .error (if f = .memberNotFound then .classNotFound name else f) s' := by
  unfold readArchive
  generalize readMember id (name ++ ".class") = act
  simp only [bind, tryCatch, tryCatchThe, MonadExceptOf.tryCatch]
  delta EStateM.tryCatch EStateM.bind
  dsimp only
  cases act s <;> rfl

theorem answers_readArchive (id : Nat) (path name : String) : Answers Prod.fst (readArchive id path name) := by
  intro s
  have h := answers_readMember id (name ++ ".class") s
  rw [run_readArchive]
  cases hmember : readMember id (name ++ ".class") s with
  | ok data s' =>
    rw [hmember] at h
    exact h
  | error f s' =>
    rw [hmember] at h
    exact h

mutual

/-- A class path answers with contents of storage, and leaves them as they are. -/
theorem answers_read (name : String) (e : Entry) : Answers Prod.fst (e.read name) := by
  cases e with
  | memory id label =>
    rw [read]
    exact answers_readTable id name
  | directory path =>
    rw [read]
    exact answers_readDirectory path name
  | archive id path =>
    rw [read]
    exact answers_readArchive id path name
  | failing text =>
    rw [read]
    exact answers_throw _
  | composite label members =>
    rw [read]
    exact answers_readFirst name members (answers_throw _)
  | layered library boot extensions user =>
    rw [read]
    refine answers_orElseNotFound (answers_read name boot) (answers_readFirst name extensions ?_)
    exact answers_orElseNotFound (answers_read name user) (answers_throw _)

theorem answers_readFirst (name : String) (entries : List Entry) {last : Action (List UInt8 × String)}
    (h : Answers Prod.fst last) : Answers Prod.fst (readFirst name entries last) := by
  cases entries with
  | nil =>
    rw [readFirst]
    exact h
  | cons e rest =>
    rw [readFirst]
    exact answers_orElseNotFound (answers_read name e) (answers_readFirst name rest h)

end

end Entry

end JavaMachine
