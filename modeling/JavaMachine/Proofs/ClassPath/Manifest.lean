import JavaMachine.ClassPath.Manifest
import JavaMachine.Proofs.Text.Tables

/-!
Headers of manifests as they are written: the first chunk of a value stands on the line of the name, and each further
one on a line of its own, after a blank. What is read is the value, but without the white space at the end of its first
chunk, since white space is taken away before the further chunks are joined. Main results: `read_written`,
`trimEnd_eq_self_iff`.
-/

namespace JavaMachine.Text

/-- Bytes that start with white space. -/
def startsBlank (bytes : List UInt8) : Bool := (Utf8.first? bytes).any fun c => isBlank c.1

/-- Bytes that end with white space. -/
def endsBlank (bytes : List UInt8) : Bool := (Utf8.last? bytes.reverse).any fun c => isBlank c.1

/-- What is told of the first bytes does not depend on what follows. -/
theorem Utf8.first?_append {a : List UInt8} {r : Char × Nat} (h : first? a = some r) (b : List UInt8) :
    first? (a ++ b) = some r := by
  unfold first? at h ⊢
  grind

theorem startsBlank_append {a : List UInt8} (h : startsBlank a = true) (b : List UInt8) :
    startsBlank (a ++ b) = true := by
  obtain ⟨r, hr, hblank⟩ := (Option.any_eq_true _ _).1 h
  rw [startsBlank, Utf8.first?_append hr, Option.any_some]
  exact hblank

section dropBlanks

variable (char? : List UInt8 → Option (Char × Nat))

theorem dropBlanks_eq_self {bytes : List UInt8} (h : (char? bytes).any (fun c => isBlank c.1) = false) :
    dropBlanks char? 0 bytes = bytes := by
  cases bytes with
  | nil => rfl
  | cons a rest =>
    rw [dropBlanks]
    cases hc : char? (a :: rest) with
    | none => rfl
    | some c =>
      rw [hc, Option.any_some] at h
      exact if_neg (by simp [h])

theorem length_dropBlanks_le (skip : Nat) (bytes : List UInt8) :
    (dropBlanks char? skip bytes).length ≤ bytes.length := by
  induction bytes generalizing skip with
  | nil => simp [dropBlanks]
  | cons a rest ih =>
    unfold dropBlanks
    split
    · exact Nat.le_succ_of_le (ih _)
    · split
      · split
        · exact Nat.le_succ_of_le (ih _)
        · exact Nat.le_refl _
      · exact Nat.le_refl _

/-- Bytes stay as they are exactly if they do not start with white space. -/
theorem dropBlanks_eq_self_iff (hnil : char? [] = none) (bytes : List UInt8) :
    dropBlanks char? 0 bytes = bytes ↔ (char? bytes).any (fun c => isBlank c.1) = false := by
  refine ⟨fun hsame => ?_, dropBlanks_eq_self char?⟩
  cases bytes with
  | nil => rw [hnil, Option.any_none]
  | cons a rest =>
    cases hc : char? (a :: rest) with
    | none => rfl
    | some c =>
      rw [Option.any_some, Bool.eq_false_iff]
      intro hblank
      have hdrop : dropBlanks char? 0 (a :: rest) = dropBlanks char? (c.2 - 1) rest := by
        rw [dropBlanks, hc]
        exact if_pos hblank
      have hshort := length_dropBlanks_le char? (c.2 - 1) rest
      rw [← hdrop, hsame] at hshort
      exact absurd hshort (Nat.not_succ_le_self _)

end dropBlanks

theorem trimStart_eq_self {bytes : List UInt8} (h : startsBlank bytes = false) : trimStart bytes = bytes :=
  dropBlanks_eq_self _ h

/-- Bytes that end with white space are the ones that lose some. -/
theorem trimEnd_eq_self_iff (bytes : List UInt8) : trimEnd bytes = bytes ↔ endsBlank bytes = false := by
  rw [trimEnd, List.reverse_eq_iff, dropBlanks_eq_self_iff _ rfl]
  rfl

theorem trim_eq_self {bytes : List UInt8} (hstart : startsBlank bytes = false) (hend : endsBlank bytes = false) :
    trim bytes = bytes := by
  rw [trim, trimStart_eq_self hstart, (trimEnd_eq_self_iff bytes).2 hend]

end JavaMachine.Text

namespace JavaMachine.Headers

open Text

/-! ## Headers as they are written -/

/-- How a line ends. -/
inductive LineEnd where
  | lf
  | crlf
deriving DecidableEq, Repr

/-- The bytes at the end of a line. -/
def LineEnd.bytes : LineEnd → List UInt8
  | .lf => [lineFeed]
  | .crlf => [carriageReturn, lineFeed]

/-- Bytes that stand within one line. -/
def OnLine (bytes : List UInt8) : Prop := lineFeed ∉ bytes ∧ carriageReturn ∉ bytes

instance (bytes : List UInt8) : Decidable (OnLine bytes) := inferInstanceAs (Decidable (_ ∧ _))

theorem OnLine.append {a b : List UInt8} (ha : OnLine a) (hb : OnLine b) : OnLine (a ++ b) :=
  ⟨by simp [ha.1, hb.1], by simp [ha.2, hb.2]⟩

/-- Bytes that can be a name or a value: they stand within one line, with no white space at their ends. -/
structure Bare (bytes : List UInt8) : Prop where
  onLine : OnLine bytes
  start : startsBlank bytes = false
  finish : endsBlank bytes = false

/-- A header with its value cut into chunks, and how the line of each chunk ends. -/
structure Written where
  name : List UInt8
  first : List UInt8
  firstEnd : LineEnd
  further : List (List UInt8 × LineEnd)
  named : name ≠ []
  colonless : colon ∉ name
  bareName : Bare name
  bareValue : Bare (first ++ (further.map (·.1)).flatten)

namespace Written

/-- The value after its first chunk. -/
def rest (h : Written) : List UInt8 := (h.further.map (·.1)).flatten

/-- The value. -/
def value (h : Written) : List UInt8 := h.first ++ h.rest

/-- The lines, each with its end. -/
def lines (h : Written) : List (List UInt8 × LineEnd) :=
  (h.name ++ colon :: space :: h.first, h.firstEnd) :: h.further.map fun c => (space :: c.1, c.2)

/-- The bytes of the lines. -/
def bytes (h : Written) : List UInt8 := h.lines.flatMap fun l => l.1 ++ l.2.bytes

theorem onLine_of_mem_further {h : Written} {c : List UInt8 × LineEnd} (hc : c ∈ h.further) : OnLine c.1 := by
  have hmem : c.1 ∈ h.further.map (·.1) := List.mem_map_of_mem hc
  exact ⟨fun hb => h.bareValue.onLine.1 (List.mem_append_right _ (List.mem_flatten_of_mem hmem hb)),
    fun hb => h.bareValue.onLine.2 (List.mem_append_right _ (List.mem_flatten_of_mem hmem hb))⟩

theorem onLine_of_mem_lines {h : Written} {l : List UInt8 × LineEnd} (hl : l ∈ h.lines) : OnLine l.1 := by
  rcases List.mem_cons.1 hl with rfl | hl
  · have hfirst : OnLine h.first :=
      ⟨fun hb => h.bareValue.onLine.1 (List.mem_append_left _ hb),
        fun hb => h.bareValue.onLine.2 (List.mem_append_left _ hb)⟩
    exact h.bareName.onLine.append (OnLine.append (a := [colon, space]) (by decide) hfirst)
  · obtain ⟨c, hc, rfl⟩ := List.mem_map.1 hl
    exact OnLine.append (a := [space]) (by decide) (onLine_of_mem_further hc)

theorem ne_nil_of_mem_lines {h : Written} {l : List UInt8 × LineEnd} (hl : l ∈ h.lines) : l.1 ≠ [] := by
  rcases List.mem_cons.1 hl with rfl | hl
  · simp
  · obtain ⟨c, -, rfl⟩ := List.mem_map.1 hl
    simp

end Written

/-! ## Lines are found -/

theorem joinLineEnds_cons {b : UInt8} (h : b ≠ carriageReturn) (rest : List UInt8) :
    joinLineEnds (b :: rest) = b :: joinLineEnds rest := by
  cases rest with
  | nil => rfl
  | cons => rw [joinLineEnds, if_neg fun hb => h hb.1]

theorem joinLineEnds_line {l : List UInt8} (h : OnLine l) (e : LineEnd) (rest : List UInt8) :
    joinLineEnds (l ++ (e.bytes ++ rest)) = l ++ lineFeed :: joinLineEnds rest := by
  induction l with
  | nil =>
    cases e with
    | lf => exact joinLineEnds_cons (by decide) rest
    | crlf => exact if_pos ⟨rfl, rfl⟩
  | cons b l ih =>
    have hb : b ≠ carriageReturn := fun hb => h.2 (hb ▸ List.mem_cons_self)
    rw [List.cons_append, joinLineEnds_cons hb, ih ⟨fun hmem => h.1 (List.mem_cons_of_mem _ hmem), fun hmem =>
      h.2 (List.mem_cons_of_mem _ hmem)⟩, List.cons_append]

/-- The lines of a text. -/
def split (bytes : List UInt8) : List (List UInt8) := (joinLineEnds bytes).splitOn lineFeed

theorem split_line {l : List UInt8} (h : OnLine l) (e : LineEnd) (rest : List UInt8) :
    split (l ++ (e.bytes ++ rest)) = l :: split rest := by
  rw [split, joinLineEnds_line h, List.splitOn_append_cons_self_of_not_mem h.1]
  rfl

theorem split_lines {ls : List (List UInt8 × LineEnd)} (h : ∀ l ∈ ls, OnLine l.1) (rest : List UInt8) :
    split (ls.flatMap (fun l => l.1 ++ l.2.bytes) ++ rest) = ls.map (·.1) ++ split rest := by
  induction ls with
  | nil => rfl
  | cons l ls ih =>
    rw [List.flatMap_cons, List.append_assoc, List.append_assoc, split_line (h l List.mem_cons_self),
      ih fun l hl => h l (List.mem_cons_of_mem _ hl)]
    rfl

/-- The rest of a text after the main section: there is none, or it starts with an empty line. -/
inductive Closed : List UInt8 → Prop
  | nil : Closed []
  | line (e : LineEnd) (rest : List UInt8) : Closed (e.bytes ++ rest)

theorem Closed.split {rest : List UInt8} (h : Closed rest) : ∃ more, Headers.split rest = [] :: more := by
  cases h with
  | nil => exact ⟨[], rfl⟩
  | line e rest => exact ⟨_, split_line (l := []) (by decide) e rest⟩

/-! ## Lines are read -/

theorem lookup_set (hs : Headers) (name value name' : List UInt8) :
    (hs.set name value).lookup name' = if name' == name then some value else hs.lookup name' :=
  Table.lookup_replaced hs name value name'

/-- Reads lines, with the name of the header before them. -/
def readLines (hs : Headers) (last : List UInt8) (ls : List (List UInt8)) : Headers × List UInt8 :=
  ls.foldl (fun r l => r.1.line r.2 l) (hs, last)

theorem readLines_append (hs : Headers) (last : List UInt8) (a b : List (List UInt8)) :
    readLines hs last (a ++ b) = readLines (readLines hs last a).1 (readLines hs last a).2 b := List.foldl_append

theorem lines_append {ls : List (List UInt8)} (h : ∀ l ∈ ls, l ≠ []) (hs : Headers) (last : List UInt8)
    (rest : List (List UInt8)) :
    lines hs last (ls ++ rest) = lines (readLines hs last ls).1 (readLines hs last ls).2 rest := by
  induction ls generalizing hs last with
  | nil => rfl
  | cons l ls ih =>
    rw [List.cons_append, lines, if_neg (h l List.mem_cons_self)]
    exact ih (fun l hl => h l (List.mem_cons_of_mem _ hl)) _ _

/-- The line of a name gives the header its first chunk. -/
theorem line_name (h : Written) (hs : Headers) (last : List UInt8) :
    hs.line last (h.name ++ colon :: space :: h.first) = (hs.set h.name (trimEnd h.first), h.name) := by
  have hfirst : startsBlank h.first = false :=
    Bool.eq_false_iff.2 fun hblank => Bool.eq_false_iff.1 h.bareValue.start (startsBlank_append hblank _)
  have hvalue : trim (space :: h.first) = trimEnd h.first := congrArg trimEnd (trimStart_eq_self hfirst)
  have hname : trim h.name = h.name := trim_eq_self h.bareName.start h.bareName.finish
  have hkeep : ∀ b ∈ h.name, (b != colon) = true := fun b hb => by
    simpa using fun heq : b = colon => h.colonless (heq ▸ hb)
  have hstop : ¬(colon != colon) = true := by decide
  have hdrop : (h.name ++ colon :: space :: h.first).dropWhile (· != colon) = colon :: space :: h.first :=
    (List.dropWhile_append_of_pos hkeep).trans (List.dropWhile_cons_of_neg hstop)
  have htake : (h.name ++ colon :: space :: h.first).takeWhile (· != colon) = h.name := by
    have hnone : (colon :: space :: h.first).takeWhile (· != colon) = [] := List.takeWhile_cons_of_neg hstop
    rw [List.takeWhile_append_of_pos hkeep, hnone, List.append_nil]
  have hheader : hs.header last (h.name ++ colon :: space :: h.first) = (hs.set h.name (trimEnd h.first), h.name) := by
    rw [header, hdrop, htake, hname]
    dsimp only
    rw [hvalue]
  -- the line is no continuation, since no name starts with a blank
  obtain ⟨b, name, hb⟩ := List.exists_cons_of_ne_nil h.named
  have hblank : ¬b = space := by
    rintro rfl
    have hstart := h.bareName.start
    rw [hb] at hstart
    exact absurd hstart (by rw [Bool.not_eq_false]; rfl)
  rw [hb, List.cons_append] at hheader ⊢
  rw [line, if_neg fun hc => hblank hc.1, hheader]

/-- A line that starts with a blank goes on with the value of the header before it. -/
theorem line_further {hs : Headers} {last value : List UInt8} (hlast : last ≠ [])
    (hvalue : hs.lookup last = some value) (chunk : List UInt8) :
    hs.line last (space :: chunk) = (hs.set last (value ++ chunk), last) := by
  rw [line, if_pos ⟨rfl, hlast⟩, get, hvalue, Option.getD_some]

/-- Chunks are joined to the value of the header before them, and no other value changes. -/
theorem readLines_further {last : List UInt8} (hlast : last ≠ []) {hs : Headers} {value : List UInt8}
    (hvalue : hs.lookup last = some value) (chunks : List (List UInt8)) :
    ∃ hs', readLines hs last (chunks.map (space :: ·)) = (hs', last) ∧
      hs'.lookup last = some (value ++ chunks.flatten) ∧
      ∀ name, name ≠ last → hs'.lookup name = hs.lookup name := by
  induction chunks generalizing hs value with
  | nil => exact ⟨hs, rfl, by rw [List.flatten_nil, List.append_nil, hvalue], fun _ _ => rfl⟩
  | cons chunk chunks ih =>
    have hset : (hs.set last (value ++ chunk)).lookup last = some (value ++ chunk) := by
      rw [lookup_set, if_pos (beq_self_eq_true last)]
    obtain ⟨hs', hread, hown, hothers⟩ := ih hset
    refine ⟨hs', ?_, by rw [hown, List.flatten_cons, List.append_assoc], fun name hname => ?_⟩
    · rw [List.map_cons, readLines, List.foldl_cons, line_further hlast hvalue]
      exact hread
    · rw [hothers name hname, lookup_set, if_neg (by simpa using hname)]

/-- What is read of a header, and no other value changes. -/
theorem readLines_written (h : Written) (hs : Headers) (last : List UInt8) :
    ∃ hs', readLines hs last (h.lines.map (·.1)) = (hs', h.name) ∧
      hs'.lookup h.name = some (trimEnd h.first ++ h.rest) ∧
      ∀ name, name ≠ h.name → hs'.lookup name = hs.lookup name := by
  have hset : (hs.set h.name (trimEnd h.first)).lookup h.name = some (trimEnd h.first) := by
    rw [lookup_set, if_pos (beq_self_eq_true h.name)]
  obtain ⟨hs', hread, hown, hothers⟩ := readLines_further h.named hset (h.further.map (·.1))
  refine ⟨hs', ?_, hown, fun name hname => ?_⟩
  · rw [Written.lines, List.map_cons, List.map_map, readLines, List.foldl_cons, line_name]
    rw [List.map_map] at hread
    exact hread
  · rw [hothers name hname, lookup_set, if_neg (by simpa using hname)]

/-- The bytes of headers, one after the other. -/
def text (headers : List Written) : List UInt8 := headers.flatMap Written.bytes

/-- Headers with other names leave a value as it is. -/
theorem readLines_others {name : List UInt8} {headers : List Written} (h : ∀ g ∈ headers, g.name ≠ name)
    (hs : Headers) (last : List UInt8) :
    (readLines hs last (headers.flatMap fun g => g.lines.map (·.1))).1.lookup name = hs.lookup name := by
  induction headers generalizing hs last with
  | nil => rfl
  | cons g headers ih =>
    obtain ⟨hs', hread, -, hothers⟩ := readLines_written g hs last
    rw [List.flatMap_cons, readLines_append, hread, ih fun g hg => h g (List.mem_cons_of_mem _ hg)]
    exact hothers name (h g List.mem_cons_self).symm

/-- A text of headers is read line by line. -/
theorem read_text (headers : List Written) {rest : List UInt8} (hrest : Closed rest) :
    read (text headers ++ rest) = (readLines [] [] (headers.flatMap fun g => g.lines.map (·.1))).1 := by
  have honLine : ∀ l ∈ headers.flatMap Written.lines, OnLine l.1 := by
    intro l hl
    obtain ⟨g, -, hl⟩ := List.mem_flatMap.1 hl
    exact Written.onLine_of_mem_lines hl
  have hne : ∀ l ∈ headers.flatMap fun g => g.lines.map (·.1), l ≠ [] := by
    intro l hl
    obtain ⟨g, -, hg⟩ := List.mem_flatMap.1 hl
    obtain ⟨line, hline, rfl⟩ := List.mem_map.1 hg
    exact Written.ne_nil_of_mem_lines hline
  have htext : text headers = (headers.flatMap Written.lines).flatMap fun l => l.1 ++ l.2.bytes :=
    (List.flatMap_assoc ..).symm
  obtain ⟨more, hmore⟩ := hrest.split
  have hlines : split (text headers ++ rest) = (headers.flatMap fun g => g.lines.map (·.1)) ++ [] :: more := by
    rw [htext, split_lines honLine, hmore, List.map_flatMap]
  change lines [] [] (split (text headers ++ rest)) = _
  rw [hlines, lines_append hne, lines, if_pos rfl]

/-- What is read of a header that no header with the same name follows: its value without the white space at the end of
the first chunk. This is the value exactly if it is not cut right after white space there. -/
theorem read_written (before : List Written) {after : List Written} {h : Written}
    (hafter : ∀ g ∈ after, g.name ≠ h.name) {rest : List UInt8} (hrest : Closed rest) :
    (read (text (before ++ h :: after) ++ rest)).lookup h.name = some (trimEnd h.first ++ h.rest) ∧
      ((read (text (before ++ h :: after) ++ rest)).lookup h.name = some h.value ↔ endsBlank h.first = false) := by
  have hread : (read (text (before ++ h :: after) ++ rest)).lookup h.name = some (trimEnd h.first ++ h.rest) := by
    rw [read_text _ hrest, List.flatMap_append, List.flatMap_cons, readLines_append, readLines_append]
    generalize readLines [] [] (before.flatMap fun g => g.lines.map (·.1)) = r
    obtain ⟨hs, hown, hvalue, -⟩ := readLines_written h r.1 r.2
    rw [hown, readLines_others hafter, hvalue]
  refine ⟨hread, ?_⟩
  rw [hread, Option.some_inj, Written.value, List.append_left_inj, trimEnd_eq_self_iff]

namespace Samples

/-- The header `Manifest-Version: 1.0`. -/
def version : Written := {
  name := [0x4D, 0x61, 0x6E, 0x69, 0x66, 0x65, 0x73, 0x74, 0x2D, 0x56, 0x65, 0x72, 0x73, 0x69, 0x6F, 0x6E]
  first := [0x31, 0x2E, 0x30], firstEnd := .crlf, further := []
  named := by decide, colonless := by decide
  bareName := ⟨by decide, by decide, by decide⟩, bareValue := ⟨by decide, by decide, by decide⟩ }

/-- The header `Main-Class: a b`, cut after the blank. -/
def mainClass : Written := {
  name := [0x4D, 0x61, 0x69, 0x6E, 0x2D, 0x43, 0x6C, 0x61, 0x73, 0x73]
  first := [0x61, 0x20], firstEnd := .lf, further := [([0x62], .crlf)]
  named := by decide, colonless := by decide
  bareName := ⟨by decide, by decide, by decide⟩, bareValue := ⟨by decide, by decide, by decide⟩ }

end Samples

open Headers.Samples in
/-- The value `a b` is read as `ab`. -/
theorem read_written_after_blank :
    (∀ g ∈ [version], g.name ≠ mainClass.name) ∧ Closed [lineFeed] ∧
      (read (text [version, mainClass, version] ++ [lineFeed])).lookup mainClass.name = some [0x61, 0x62] ∧
      mainClass.value = [0x61, 0x20, 0x62] ∧
      (read (text [version, mainClass, version] ++ [lineFeed])).lookup mainClass.name ≠ some mainClass.value := by
  have hafter : ∀ g ∈ [version], g.name ≠ mainClass.name := by simp [version, mainClass]
  have hrest : Closed [lineFeed] := .line .lf []
  obtain ⟨hread, hvalue⟩ := read_written [version] hafter hrest
  have htrim : trimEnd mainClass.first ++ mainClass.rest = [0x61, 0x62] := by decide
  have hblank : ¬endsBlank mainClass.first = false := by decide
  exact ⟨hafter, hrest, hread.trans (congrArg some htrim), rfl, fun h => hblank (hvalue.1 h)⟩

end JavaMachine.Headers
