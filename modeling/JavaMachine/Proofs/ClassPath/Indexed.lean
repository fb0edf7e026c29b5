import JavaMachine.Archive.Builder
import JavaMachine.ClassPath.Locate
import JavaMachine.Proofs.ClassPath.Contents

/-!
What an index makes of an archive. An archive that is opened leaves its names in the index, and one that the index knows has
those names and is not opened until a member is asked for. Both answer alike, from the directory of the archive and nothing
else. Main results: `ArchiveFile.answers_of_serves`, `Entry.indexed_answers`.
-/

namespace JavaMachine

/-! ## Names in order -/

section once

/-- Neighbours that are equal, taken together. -/
def once (names : List String) : List String :=
  names.foldr (fun n acc => if acc.head? = some n then acc else n :: acc) []

variable {names : List String} {n : String}

theorem once_cons : once (n :: names) = if (once names).head? = some n then once names else n :: once names := rfl

theorem sublist_once (names : List String) : List.Sublist (once names) names := by
  induction names with
  | nil => exact .slnil
  | cons n rest ih =>
    rw [once_cons]
    split
    · exact ih.cons n
    · exact ih.cons_cons n

theorem once_once (names : List String) : once (once names) = once names := by
  induction names with
  | nil => rfl
  | cons n rest ih =>
    rw [once_cons]
    split
    · exact ih
    · next hnew => rw [once_cons, ih, if_neg hnew]

theorem pairwise_sortedOnce (names : List String) : (sortedOnce names).Pairwise fun a b => decide (a ≤ b) := by
  refine List.Pairwise.sublist (sublist_once _) (List.pairwise_mergeSort ?_ ?_ names)
  · intro a b c hab hbc
    exact decide_eq_true (String.le_trans (of_decide_eq_true hab) (of_decide_eq_true hbc))
  · intro a b
    simpa using String.le_total a b

/-- Names that are in order already. -/
theorem sortedOnce_sortedOnce (names : List String) : sortedOnce (sortedOnce names) = sortedOnce names := by
  change once ((sortedOnce names).mergeSort _) = _
  rw [List.mergeSort_of_pairwise (pairwise_sortedOnce names)]
  exact once_once _

end once

/-! ## Records -/

namespace ArchiveIndex

/-- Records with one more, which takes the place of older ones of its path. -/
def put (rs : List IndexRecord) (r : IndexRecord) : List IndexRecord := r :: rs.filter (·.path != r.path)

variable {d : Disk} {i : Nat}

theorem records_store (h : i < d.nodes.size) (r : IndexRecord) : records (store d i r) i = put (records d i) r := by
  have hnode : (store d i r).nodes[i]? = some ⟨.index (put (records d i) r), d.clock⟩ := by
    simp only [store, Disk.update, Array.getElem?_modify, if_pos, Array.getElem?_eq_getElem h, Option.map_some]
    rfl
  rw [records, hnode]

/-- A record for another path changes nothing for this one. -/
theorem find_put {rs : List IndexRecord} {r : IndexRecord} {path : String} {modified size : Int} (h : r.path ≠ path) :
    (put rs r).find? (fun r => r.path == path && r.modified == modified && r.size == size) =
      rs.find? fun r => r.path == path && r.modified == modified && r.size == size := by
  rw [put, List.find?_cons_of_neg (by simp [h]), List.find?_filter]
  congr 1
  funext r'
  by_cases hpath : r'.path = path
  · simp [hpath, h.symm, BEq.beq]
  · simp [hpath]

/-- What was stored last of a path is found if its time and its size are asked for. -/
theorem lookup_of_put {r : IndexRecord} {rs others : List IndexRecord} (hothers : ∀ r' ∈ others, r'.path ≠ r.path)
    (h : records d i = others.foldl put (put rs r)) : lookup d i r.path r.modified r.size = some r.names := by
  have hkept (rs : List IndexRecord) :
      (others.foldl put rs).find? (fun r' => r'.path == r.path && r'.modified == r.modified && r'.size == r.size) =
        rs.find? fun r' => r'.path == r.path && r'.modified == r.modified && r'.size == r.size := by
    clear h
    induction others generalizing rs with
    | nil => rfl
    | cons r' others ih =>
      obtain ⟨hr', hothers⟩ := List.forall_mem_cons.1 hothers
      rw [List.foldl_cons, ih hothers, find_put hr']
  rw [lookup, h, hkept, put, List.find?_cons_of_pos (by simp), Option.map_some]

end ArchiveIndex

/-! ## Requests -/

/-- A request to an archive on a class path. -/
inductive ArchiveCall where
  | readFile (name : String)
  | readClass (name : String)
  | entryNames
  | classNames
  | manifest
  | close

/-- What a request is answered with. -/
inductive ArchiveAnswer where
  | file (data : Except ReadFault (Array UInt8))
  | class (found : Except ReadFault (List UInt8 × String))
  | names (names : Option (Except ReadFault (List String)))
  | manifest (m : Except ReadFault Manifest)
  | closed

/-- The outcome of an action as an answer, with storage after it. -/
def ArchiveAnswer.ofAction {α : Type} (make : Except ReadFault α → ArchiveAnswer) (act : Storage.Action α) (s : Storage) :
    ArchiveAnswer × Storage :=
  match act s with
  | .ok a s => (make (.ok a), s)
  | .error f s => (make (.error f), s)

namespace ArchiveCall

/-- The answer of the archive of a number, with storage after it. -/
def perform (id : Nat) (path : String) (s : Storage) : ArchiveCall → ArchiveAnswer × Storage
  | .readFile name => ArchiveAnswer.ofAction .file (Storage.readMember id name) s
  | .readClass name => ArchiveAnswer.ofAction .class ((Entry.archive id path).read name) s
  | .entryNames => (.names (some (.ok (s.archive id).names)), s)
  | .classNames => (.names ((Entry.archive id path).classNames? s), s)
  | .manifest => ArchiveAnswer.ofAction .manifest (Entry.manifest id) s
  | .close => (.closed, (Entry.archive id path).close s)

/-- The answers to requests one after another. -/
def answers (id : Nat) (path : String) : List ArchiveCall → Storage → List ArchiveAnswer
  | [], _ => []
  | call :: rest, s =>
    let (a, s) := call.perform id path s
    a :: answers id path rest s

end ArchiveCall

/-! ## Answers of a directory -/

theorem Entry.run_manifest (id : Nat) (s : Storage) :
    Entry.manifest id s =
      match Storage.readMember id "META-INF/MANIFEST.MF" s with
      | .ok data s' => .ok (Manifest.ofBytes data.toList) s'
      | .error f s' => .error f s' := by
  unfold Entry.manifest
  generalize Storage.readMember id "META-INF/MANIFEST.MF" = act
  change EStateM.bind act _ s = _
  rw [EStateM.bind]
  cases act s <;> rfl

namespace ArchiveFile

/-- A member of an archive with an open file. -/
def find (a : ArchiveFile) (d : Disk) (name : String) : Except ReadFault (Array UInt8) :=
  if a.names.contains name then a.member d name else .error .memberNotFound

/-- What an archive with an open file answers. -/
def answer (a : ArchiveFile) (d : Disk) : ArchiveCall → ArchiveAnswer
  | .readFile name => .file (a.find d name)
  | .readClass name => .class (match a.find d (name ++ ".class") with
    | .ok data => .ok (data.toList, a.path)
    | .error f => .error (if f = .memberNotFound then .classNotFound name else f))
  | .entryNames => .names (some (.ok a.names))
  | .classNames => .names (some (.ok (Entry.archiveClasses a.names)))
  | .manifest => .manifest ((fun data => Manifest.ofBytes data.toList) <$> a.find d "META-INF/MANIFEST.MF")
  | .close => .closed

/-- The archive of a number is the given one, open or closed, and the file can be opened again. -/
structure Serves (a : ArchiveFile) (id : Nat) (s : Storage) : Prop where
  lt : id < s.archives.size
  same : s.archive id = a ∨ s.archive id = a.close
  reopens : a.close.openFile s.disk = .ok a

variable {a : ArchiveFile} {s : Storage} {id : Nat}

theorem Serves.names (h : a.Serves id s) : (s.archive id).names = a.names := by
  rcases h.same with hsame | hsame
  · rw [hsame]
  · rw [hsame]
    rfl

theorem Serves.openFile (h : a.Serves id s) : (s.archive id).openFile s.disk = .ok a := by
  rcases h.same with hsame | hsame
  · rw [hsame]
    exact (openFile_openFile h.reopens).2
  · rw [hsame]
    exact h.reopens

/-- An archive that was opened stands for the number from then on. -/
theorem Serves.opened (h : a.Serves id s) : a.Serves id { s with archives := s.archives.setIfInBounds id a } := by
  refine ⟨by simpa using h.lt, .inl ?_, h.reopens⟩
  simp [Storage.archive, Array.getD, h.lt]

theorem Serves.run_readMember (h : a.Serves id s) (name : String) : ∃ s', s'.disk = s.disk ∧ a.Serves id s' ∧
    Storage.readMember id name s = match a.find s.disk name with
      | .ok data => .ok data s'
      | .error f => .error f s' := by
  rw [Storage.run_readMember, h.names, h.openFile, find]
  cases a.names.contains name with
  | false => exact ⟨s, rfl, h, rfl⟩
  | true => exact ⟨{ s with archives := s.archives.setIfInBounds id a }, rfl, h.opened, rfl⟩

/-- An archive that serves answers a request from its directory, and still serves. -/
theorem Serves.perform (h : a.Serves id s) (call : ArchiveCall) : ∃ s', s'.disk = s.disk ∧ a.Serves id s' ∧
    call.perform id a.path s = (a.answer s.disk call, s') := by
  cases call with
  | readFile name =>
    obtain ⟨s', hdisk, hs', hrun⟩ := h.run_readMember name
    refine ⟨s', hdisk, hs', ?_⟩
    rw [ArchiveCall.perform, ArchiveAnswer.ofAction, hrun, answer]
    cases a.find s.disk name <;> rfl
  | readClass name =>
    obtain ⟨s', hdisk, hs', hrun⟩ := h.run_readMember (name ++ ".class")
    refine ⟨s', hdisk, hs', ?_⟩
    rw [ArchiveCall.perform, Entry.read, ArchiveAnswer.ofAction, Entry.run_readArchive, hrun, answer]
    cases a.find s.disk (name ++ ".class") <;> rfl
  | entryNames =>
    refine ⟨s, rfl, h, ?_⟩
    rw [ArchiveCall.perform, h.names, answer]
  | classNames =>
    refine ⟨s, rfl, h, ?_⟩
    rw [ArchiveCall.perform, Entry.classNames?, h.names, answer]
  | manifest =>
    obtain ⟨s', hdisk, hs', hrun⟩ := h.run_readMember "META-INF/MANIFEST.MF"
    refine ⟨s', hdisk, hs', ?_⟩
    rw [ArchiveCall.perform, ArchiveAnswer.ofAction, Entry.run_manifest, hrun, answer]
    cases a.find s.disk "META-INF/MANIFEST.MF" <;> rfl
  | close =>
    refine ⟨(Entry.archive id a.path).close s, rfl, ⟨?_, .inr ?_, ?_⟩, rfl⟩
    · rw [Entry.close]
      simpa using h.lt
    · have hclosed : ((Entry.archive id a.path).close s).archive id = (s.archive id).close := by
        simp [Entry.close, Storage.archive, Array.getD, h.lt, Array.getElem_modify]
      rw [hclosed]
      rcases h.same with hsame | hsame <;> rw [hsame]
      rfl
    · exact h.reopens

/-- Whether an archive was opened or closed before, it answers from its directory. -/
theorem answers_of_serves (h : a.Serves id s) (calls : List ArchiveCall) :
    ArchiveCall.answers id a.path calls s = calls.map (a.answer s.disk) := by
  induction calls generalizing s with
  | nil => rfl
  | cons call rest ih =>
    obtain ⟨s', hdisk, hs', hperform⟩ := h.perform call
    rw [ArchiveCall.answers, hperform, List.map_cons, ← hdisk]
    exact congrArg _ (ih hs')

end ArchiveFile

/-! ## Opening -/

namespace Entry

open Storage

/-- What the opening of an archive does, by what the index knows of it. -/
theorem run_ofArchive (path : String) (index : Option Nat) (s : Storage) :
    ofArchive path index s =
      let full := Path.absolute s.disk.cwd path
      let add (d : Disk) (a : ArchiveFile) : EStateM.Result ReadFault Storage Entry :=
        .ok (.archive s.archives.size full) { s with disk := d, archives := s.archives.push a }
      match s.disk.resolve full with
      | .error _ => add s.disk { path := full }
      | .ok n =>
        match index.bind fun i => ArchiveIndex.lookup s.disk i full (s.disk.modifiedOf n) (s.disk.sizeOf n) with
        | some names => add s.disk { path := full, names := sortedOnce names }
        | none =>
          match ({ path := full } : ArchiveFile).openFile s.disk with
          | .error f => .error f s
          | .ok a =>
            match index with
            | none => add s.disk a
            | some i =>
              add (ArchiveIndex.store s.disk i ⟨full, s.disk.modifiedOf n, s.disk.sizeOf n, a.names⟩) a := by
  rw [ofArchive, run_get_bind]
  dsimp only
  cases s.disk.resolve (Path.absolute s.disk.cwd path) with
  | error e => rfl
  | ok n =>
    dsimp only
    cases index.bind fun i => ArchiveIndex.lookup s.disk i (Path.absolute s.disk.cwd path) (s.disk.modifiedOf n)
        (s.disk.sizeOf n) with
    | some names => rfl
    | none =>
      cases ({ path := Path.absolute s.disk.cwd path } : ArchiveFile).openFile s.disk with
      | error f => rfl
      | ok a => cases index <;> rfl

end Entry

/-! ## Archives that are unchanged -/

/-- A path leads to a node that is the same on two disks. -/
def Disk.SameAt (path : String) (d d' : Disk) : Prop :=
  ∃ n n', d.resolve path = .ok n ∧ d'.resolve path = .ok n' ∧ d'.nodes[n']? = d.nodes[n]?

namespace ArchiveIndex

/-- The last record that an index has for a path was stored when the archive there was opened on an earlier disk. -/
def Remembers (d : Disk) (i : Nat) (earlier : Disk) (full : String) : Prop :=
  ∃ n a, ∃ rs others : List IndexRecord, earlier.resolve full = .ok n ∧
    ({ path := full } : ArchiveFile).openFile earlier = .ok a ∧ (∀ r ∈ others, r.path ≠ full) ∧
    records d i = others.foldl put (put rs ⟨full, earlier.modifiedOf n, earlier.sizeOf n, a.names⟩)

/-- A record for another path leaves what is remembered of this one. -/
theorem Remembers.store {d earlier : Disk} {i : Nat} {full : String} (h : Remembers d i earlier full)
    {r : IndexRecord} (hr : r.path ≠ full) : Remembers (store d i r) i earlier full := by
  obtain ⟨n, a, rs, others, hresolve, hopen, hothers, hrecords⟩ := h
  have hlt : i < d.nodes.size := by
    refine Nat.lt_of_not_le fun hge => ?_
    have hnone : d.nodes[i]? = none := Array.getElem?_eq_none hge
    have hfound := lookup_of_put hothers hrecords
    rw [lookup, records, hnone] at hfound
    cases hfound
  refine ⟨n, a, rs, others ++ [r], hresolve, hopen, ?_, ?_⟩
  · simpa [or_imp, forall_and] using ⟨hothers, hr⟩
  · rw [records_store hlt, hrecords, List.foldl_append]
    rfl

end ArchiveIndex

namespace ArchiveFile

variable {a a' : ArchiveFile} {d d' : Disk} {full : String}

/-- What the opening of a closed archive gives. -/
theorem openFile_of_closed (hclosed : a.opened = none) (d : Disk) :
    a.openFile d =
      match d.resolve a.path with
      | .error e => .error (.within s!"open archive {a.path}" (.disk ⟨"open", a.path, e⟩))
      | .ok n =>
        if d.isDirectory n then .error (.within s!"open archive {a.path}" (.disk ⟨"read", a.path, .isDirectory⟩))
        else
          match Archive.members a.path (d.data n) with
          | .error f => .error (.within s!"open archive {a.path}" (.archive f))
          | .ok ms => .ok { a with opened := some (n, ms), names := sortedOnce (ms.map (·.name)) } := by
  rw [openFile, if_neg (by simp [hclosed]), Disk.find]
  cases d.resolve a.path with
  | error e => rfl
  | ok n =>
    change (if d.isDirectory n then _ else _) = if d.isDirectory n then _ else _
    cases d.isDirectory n with
    | true => rfl
    | false => cases Archive.members a.path (d.data n) <;> rfl

/-- A closed archive is opened where its path leads to a file with a directory. -/
theorem openFile_eq_ok_iff (hclosed : a.opened = none) :
    a.openFile d = .ok a' ↔ ∃ n ms, d.resolve a.path = .ok n ∧ d.isDirectory n = false ∧
      Archive.members a.path (d.data n) = .ok ms ∧
      a' = { a with opened := some (n, ms), names := sortedOnce (ms.map (·.name)) } := by
  rw [openFile_of_closed hclosed]
  refine ⟨fun h => ?_, ?_⟩
  · split at h
    · cases h
    · next n hresolve =>
      split at h
      · cases h
      · next hfile =>
        split at h
        · cases h
        · next ms hmembers =>
          cases h
          exact ⟨n, ms, hresolve, Bool.eq_false_iff.mpr hfile, hmembers, rfl⟩
  · rintro ⟨n, ms, hresolve, hfile, hmembers, rfl⟩
    simp [hresolve, hfile, hmembers]

/-- An archive that was opened is opened in the same way once it is closed. -/
theorem openFile_close (h : ({ path := full } : ArchiveFile).openFile d = .ok a) :
    a.path = full ∧ sortedOnce a.names = a.names ∧ a.close.openFile d = .ok a := by
  obtain ⟨n, ms, hresolve, hfile, hmembers, rfl⟩ := (openFile_eq_ok_iff rfl).1 h
  exact ⟨rfl, sortedOnce_sortedOnce _, (openFile_eq_ok_iff rfl).2 ⟨n, ms, hresolve, hfile, hmembers, rfl⟩⟩

theorem openFile_sameAt (hsame : Disk.SameAt full d d') (h : ({ path := full } : ArchiveFile).openFile d = .ok a) :
    ∃ a', ({ path := full } : ArchiveFile).openFile d' = .ok a' ∧ a'.names = a.names := by
  obtain ⟨n, n', hn, hn', hnode⟩ := hsame
  obtain ⟨m, ms, hm, hfile, hmembers, rfl⟩ := (openFile_eq_ok_iff rfl).1 h
  cases hn.symm.trans hm
  refine ⟨_, (openFile_eq_ok_iff rfl).2 ⟨n', ms, hn', ?_, ?_, rfl⟩, rfl⟩
  · rw [Disk.isDirectory, Disk.entries?, hnode]
    exact hfile
  · rw [Disk.data, hnode]
    exact hmembers

end ArchiveFile

namespace Entry

open Storage

variable {s s' : Storage} {path full : String} {i : Nat} {e : Entry} {earlier : Disk}

/-- An archive that was added serves. -/
theorem serves_push {a b : ArchiveFile} {d : Disk} (hsame : b = a ∨ b = a.close) (hreopens : a.close.openFile d = .ok a) :
    a.Serves s.archives.size { s with disk := d, archives := s.archives.push b } := by
  have hlast : ({ s with disk := d, archives := s.archives.push b } : Storage).archive s.archives.size = b := by
    simp [Storage.archive, Array.getD]
  exact ⟨by simp, by rwa [hlast], hreopens⟩

/-- An archive that the index did not know is remembered from its opening on. -/
theorem remembers_ofArchive {n : Nat} (hindex : i < s.disk.nodes.size) (hfull : Path.absolute s.disk.cwd path = full)
    (hresolve : s.disk.resolve full = .ok n)
    (hnew : ArchiveIndex.lookup s.disk i full (s.disk.modifiedOf n) (s.disk.sizeOf n) = none)
    (h : ofArchive path (some i) s = .ok e s') : ArchiveIndex.Remembers s'.disk i s.disk full := by
  rw [run_ofArchive, hfull] at h
  simp only [hresolve, Option.bind_some, hnew] at h
  split at h
  · cases h
  · next a hopen =>
    cases h
    exact ⟨n, a, ArchiveIndex.records s.disk i, [], hresolve, hopen, nofun, ArchiveIndex.records_store hindex _⟩

/-- The opening of an archive of another path leaves what is remembered of this one. -/
theorem remembers_ofArchive_of_ne (hremembers : ArchiveIndex.Remembers s.disk i earlier full)
    (hne : Path.absolute s.disk.cwd path ≠ full) (h : ofArchive path (some i) s = .ok e s') :
    ArchiveIndex.Remembers s'.disk i earlier full := by
  rw [run_ofArchive] at h
  dsimp only at h
  split at h
  · cases h
    exact hremembers
  · split at h
    · cases h
      exact hremembers
    · split at h
      · cases h
      · cases h
        exact hremembers.store hne

/-- An archive that an index knows of an earlier opening, and that is unchanged since, answers any requests like one that is
opened without the index, though it is not opened at first. -/
theorem indexed_answers (hremembers : ArchiveIndex.Remembers s.disk i earlier full)
    (hsame : Disk.SameAt full earlier s.disk) (hfull : Path.absolute s.disk.cwd path = full) :
    ∃ hit plain, ofArchive path (some i) s = .ok (.archive s.archives.size full) hit ∧
      ofArchive path none s = .ok (.archive s.archives.size full) plain ∧
      (hit.archive s.archives.size).opened = none ∧ hit.disk = s.disk ∧
      ∀ calls, ArchiveCall.answers s.archives.size full calls hit = ArchiveCall.answers s.archives.size full calls plain := by
  obtain ⟨n, a, rs, others, hresolve, hopen, hothers, hrecords⟩ := hremembers
  have hfound := ArchiveIndex.lookup_of_put hothers hrecords
  obtain ⟨a', hopen', hnames⟩ := ArchiveFile.openFile_sameAt hsame hopen
  obtain ⟨m, m', hm, hm', hnode⟩ := hsame
  cases hresolve.symm.trans hm
  have hmodified : s.disk.modifiedOf m' = earlier.modifiedOf n := by rw [Disk.modifiedOf, hnode, Disk.modifiedOf]
  have hsize : s.disk.sizeOf m' = earlier.sizeOf n := by rw [Disk.sizeOf, hnode, Disk.sizeOf]
  rw [run_ofArchive, run_ofArchive, hfull]
  simp only [hm', hmodified, hsize, hopen', hfound, Option.bind_some, Option.bind_none]
  obtain ⟨rfl, hordered, hreopens⟩ := ArchiveFile.openFile_close hopen'
  have hclosed : ({ path := a'.path, names := sortedOnce a.names } : ArchiveFile) = a'.close := by
    rw [← hnames, hordered]
    rfl
  refine ⟨_, _, rfl, rfl, ?_, rfl, fun calls => ?_⟩
  · simp [Storage.archive, Array.getD]
  · rw [hclosed, ArchiveFile.answers_of_serves (serves_push (.inr rfl) hreopens),
      ArchiveFile.answers_of_serves (serves_push (.inl rfl) hreopens)]

/-- A disk with an archive that has two members of one name, at node 1, and an index that knows it. -/
def indexedDisk : Disk where
  nodes := #[⟨.directory [("a", 1), ("i", 2)], 0⟩, ⟨.file (Archive.build [("A", #[1]), ("A", #[2])]), 5⟩,
    ⟨.index [⟨"/a", 5, 180, ["A"]⟩], 7⟩]

theorem elements_root_child : Path.elements "/a" = ["", "a"] := by
  rw [Path.elements, String.splitOn, if_neg (by decide)]
  rw [String.splitOnAux, if_neg (by decide +kernel), if_pos (by decide +kernel)]
  dsimp only
  rw [if_pos (by decide +kernel)]
  rw [String.splitOnAux, if_neg (by decide +kernel), if_neg (by decide +kernel)]
  rw [String.splitOnAux, if_pos (by decide +kernel)]
  decide +kernel

theorem isAbsolute_root_child : Path.isAbsolute "/a" = true := by simp [Path.isAbsolute]

theorem resolve_indexedDisk : indexedDisk.resolve "/a" = .ok 1 := by
  rw [Disk.resolve, if_neg (by decide), if_neg (by simp), if_neg (by decide)]
  dsimp only
  rw [if_pos isAbsolute_root_child, elements_root_child]
  rfl

theorem openFile_indexedDisk : ∃ a, ({ path := "/a" } : ArchiveFile).openFile indexedDisk = .ok a ∧ a.names = ["A"] := by
  have hnames : (Archive.members "/a" (indexedDisk.data 1)).toOption.map (·.map (·.name)) = some ["A", "A"] := by
    decide +kernel
  cases hmembers : Archive.members "/a" (indexedDisk.data 1) with
  | error f =>
    rw [hmembers] at hnames
    cases hnames
  | ok ms =>
    rw [hmembers] at hnames
    have hboth : ms.map (·.name) = ["A", "A"] := Option.some.inj hnames
    refine ⟨_, (ArchiveFile.openFile_eq_ok_iff rfl).2 ⟨1, ms, resolve_indexedDisk, rfl, hmembers, rfl⟩, ?_⟩
    have hordered : (["A", "A"] : List String).mergeSort (· ≤ ·) = ["A", "A"] :=
      List.mergeSort_of_pairwise (by simp)
    change sortedOnce (ms.map (·.name)) = ["A"]
    rw [hboth, sortedOnce, hordered]
    rfl

theorem remembers_indexedDisk : ArchiveIndex.Remembers indexedDisk 2 indexedDisk "/a" := by
  obtain ⟨a, hopen, hnames⟩ := openFile_indexedDisk
  refine ⟨1, a, [], [], resolve_indexedDisk, hopen, nofun, ?_⟩
  have hsize : indexedDisk.sizeOf 1 = 180 := by decide +kernel
  rw [hnames, hsize]
  rfl

theorem indexed_answers_sample : ∃ hit plain,
    ofArchive "/a" (some 2) { disk := indexedDisk } = .ok (.archive 0 "/a") hit ∧
      ofArchive "/a" none { disk := indexedDisk } = .ok (.archive 0 "/a") plain ∧
      (hit.archive 0).opened = none ∧ hit.disk = indexedDisk ∧
      ∀ calls, ArchiveCall.answers 0 "/a" calls hit = ArchiveCall.answers 0 "/a" calls plain := by
  have hfull : Path.absolute indexedDisk.cwd "/a" = "/a" := by
    rw [Path.absolute, if_pos isAbsolute_root_child, Path.clean, elements_root_child, isAbsolute_root_child]
    decide +kernel
  exact indexed_answers (s := { disk := indexedDisk }) remembers_indexedDisk
    ⟨1, 1, resolve_indexedDisk, resolve_indexedDisk, rfl⟩ hfull

end Entry

end JavaMachine
