import JavaMachine.Launcher.CommandLine
import JavaMachine.Proofs.Text.Tables
import Mathlib.Data.List.TakeWhile

/-!
Command lines of complete options. The first pass brings each option into the common form, and the second one reads what
the option sets. The first pass does not know that `-Xjre` takes the next argument: it stops at a value there that looks
like no option, and the launcher's own forms after that are unknown to the second pass. Main result: `parse_given`.
-/

namespace JavaMachine

theorem Properties.lookup_set (ps : Properties) (name value name' : String) :
    (ps.set name value).lookup name' = if name' == name then some value else ps.lookup name' :=
  Table.lookup_replaced ps name value name'

theorem Properties.nodup_set {ps : Properties} (h : (ps.map (·.1)).Nodup) (name value : String) :
    ((ps.set name value).map (·.1)).Nodup := by
  have hkeys := Table.keys_replaced ps name value
  rw [set, hkeys]
  split
  · exact h
  · next hnone =>
    refine List.nodup_append.2 ⟨h, List.pairwise_singleton _ name, fun key hkey other hother heq => hnone ?_⟩
    obtain ⟨p, hp, hpkey⟩ := List.mem_map.1 hkey
    exact List.any_eq_true.2 ⟨p, hp, beq_iff_eq.2 (hpkey.trans (heq.trans (List.mem_singleton.1 hother)))⟩

namespace CommandLine

/-! ## Options as they are given -/

/-- A complete option before the main class. -/
inductive Given where
  | classPath (long : Bool) (value : String)
  | logFile (value : String)
  | library (value : String)
  | libraryHere (value : String)
  | logLevel (text : String) (level : Int) (reads : Literal.integer text = .ok level)
  | verbose
  | verboseClass
  | noIndex
  | property (name : String) (value : Option String) (named : name ≠ "") (plain : '=' ∉ name.toList)

namespace Given

/-- The words of an option. -/
def words : Given → List String
  | classPath long value => [if long then "-classpath" else "-cp", value]
  | logFile value => ["-log-file", value]
  | library value => ["-Xjre", value]
  | libraryHere value => ["-Xjre:" ++ value]
  | logLevel text .. => ["-log-level", text]
  | verbose => ["-verbose"]
  | verboseClass => ["-verbose:class"]
  | noIndex => ["-no-cache"]
  | property name none .. => ["-D" ++ name]
  | property name (some value) .. => ["-D" ++ name ++ "=" ++ value]

/-- The words of an option in the common form. -/
def commonWords : Given → List String
  | libraryHere value => ["-Xjre=" ++ value]
  | verboseClass => ["-verbose-class"]
  | property .. => []
  | o => o.words

/-- Whether an option is given in a form of the launcher's own. -/
def isOwn : Given → Bool
  | libraryHere _ | verboseClass | property .. => true
  | _ => false

/-- The property that an option sets. -/
def pair? : Given → Option (String × String)
  | property name value .. => some (name, value.getD "")
  | _ => none

/-- Properties with the one that an option sets. -/
def record (ps : Properties) (o : Given) : Properties := o.pair?.elim ps fun p => ps.set p.1 p.2

/-- What an option sets, but for properties. -/
def apply (c : CommandLine) : Given → CommandLine
  | classPath _ value => { c with classPath := value }
  | logFile value => { c with logFile := value }
  | library value | libraryHere value => { c with library := value }
  | logLevel _ level _ => { c with logLevel := level }
  | verbose => { c with verbose := true }
  | verboseClass => { c with verboseClass := true }
  | noIndex => { c with noIndex := true }
  | property .. => c

/-- Whether the first pass stops in the middle of an option: at the value of `-Xjre`, where this looks like no option. -/
def stops : Given → Bool
  | library value => value == "--" || !value.startsWith "-"
  | _ => false

end Given

/-- What the first pass does not leave as one word. -/
def Rewritten (a : String) : Prop :=
  a = "-verbose:class" ∨ a.startsWith "-Xjre:" = true ∨ (a.startsWith "-D" = true ∧ a ≠ "-D") ∨ a ∈ takesNext

/-- What options, a main class and arguments ask for: the last option counts, for each property by itself. -/
def configured (os : List Given) (mainClass : String) (arguments : List String) : CommandLine :=
  let c := os.foldl Given.apply { properties := os.foldl Given.record [] }
  { c with verboseClass := c.verbose || c.verboseClass, mainClass, arguments }

/-- No option in a form of the launcher's own stands after a value of `-Xjre` at which the first pass stops. -/
def Ordered (os : List Given) : Prop := os.Pairwise fun o o' => o.stops = true → o'.isOwn = false

/-! ## Words -/

theorem startsWith_append (a b : String) : (a ++ b).startsWith a = true := by
  rw [String.startsWith_string_iff, String.toList_append]
  exact List.prefix_append ..

/-- Of two starts of a word, the shorter one starts the longer one. -/
theorem startsWith_of_startsWith {a p q : String} (hp : a.startsWith p = true) (hq : a.startsWith q = true)
    (hlen : p.toList.length ≤ q.toList.length) : q.startsWith p = true := by
  rw [String.startsWith_string_iff] at hp hq ⊢
  exact List.prefix_of_prefix_length_le hp hq hlen

theorem startsWith_trans {a p q : String} (hp : a.startsWith p = true) (hq : p.startsWith q = true) :
    a.startsWith q = true := by
  rw [String.startsWith_string_iff] at hp hq ⊢
  exact hq.trans hp

theorem drop_append {a b : String} {n : Nat} (h : a.toList.length = n) : ((a ++ b).drop n).toString = b := by
  rw [← String.toList_inj]
  simp [← h]

/-- A property that is given is split at the first equals sign. -/
theorem property_given {name : String} (h : '=' ∉ name.toList) :
    property name = (name, "") ∧ ∀ value, property (name ++ "=" ++ value) = (name, value) := by
  have hkeep : ∀ c ∈ name.toList, (c != '=') = true := fun c hc => by
    simpa using fun heq : c = '=' => h (heq ▸ hc)
  constructor
  · simp [property, List.takeWhile_eq_self_iff.2 hkeep, List.dropWhile_eq_nil_iff.2 hkeep]
  · intro value
    simp [property, List.takeWhile_append_of_pos hkeep, List.dropWhile_append_of_pos hkeep]

/-! ## The first pass -/

/-- An option of the common form that takes nothing stays as it is. -/
theorem normalizeFrom_keep {ps : Properties} {a : String} (rest : List String) (hdash : a.startsWith "-" = true)
    (hend : a ≠ "--") (h : ¬Rewritten a) :
    normalizeFrom ps (a :: rest) = (a :: (normalizeFrom ps rest).1, (normalizeFrom ps rest).2) := by
  unfold Rewritten at h
  push Not at h
  obtain ⟨hclass, hlibrary, hproperty, hnext⟩ := h
  rw [normalizeFrom.eq_def]
  dsimp only
  rw [if_neg (by simp [hdash, hend]), if_neg hclass, if_neg hlibrary, if_neg (by simpa using hproperty), if_neg hnext]
  rfl

/-- An option that is known to take the next argument keeps it, whatever it looks like. -/
theorem normalizeFrom_next {ps : Properties} {a : String} (v : String) (rest : List String) (h : a ∈ takesNext) :
    normalizeFrom ps (a :: v :: rest) = (a :: v :: (normalizeFrom ps rest).1, (normalizeFrom ps rest).2) := by
  have hall : ∀ a ∈ takesNext, (a.startsWith "-" = true ∧ a ≠ "--") ∧ a ≠ "-verbose:class" ∧
      ¬a.startsWith "-Xjre:" = true ∧ ¬a.startsWith "-D" = true := by
    simp only [String.startsWith_string_iff]
    decide
  obtain ⟨⟨hdash, hend⟩, hclass, hlibrary, hproperty⟩ := hall a h
  rw [normalizeFrom.eq_def]
  dsimp only
  rw [if_neg (by simp [hdash, hend]), if_neg hclass, if_neg hlibrary, if_neg fun hp => hproperty hp.1, if_pos h]
  rfl

theorem normalizeFrom_stop {ps : Properties} {a : String} (rest : List String)
    (h : (a == "--" || !a.startsWith "-") = true) : normalizeFrom ps (a :: rest) = (a :: rest, ps) := by
  rw [normalizeFrom.eq_def]
  dsimp only
  rw [if_pos (by simpa using h)]

theorem normalizeFrom_verboseClass {ps : Properties} (rest : List String) :
    normalizeFrom ps ("-verbose:class" :: rest) =
      ("-verbose-class" :: (normalizeFrom ps rest).1, (normalizeFrom ps rest).2) := by
  rw [normalizeFrom.eq_def]
  dsimp only
  rw [if_neg (by simp), if_pos rfl]
  rfl

theorem normalizeFrom_libraryHere {ps : Properties} (value : String) (rest : List String) :
    normalizeFrom ps (("-Xjre:" ++ value) :: rest) =
      (("-Xjre=" ++ value) :: (normalizeFrom ps rest).1, (normalizeFrom ps rest).2) := by
  have hlibrary := startsWith_append "-Xjre:" value
  have hdash : ("-Xjre:" ++ value).startsWith "-" = true := startsWith_trans hlibrary (by simp)
  have hend : "-Xjre:" ++ value ≠ "--" := by
    intro heq
    rw [heq] at hlibrary
    simp at hlibrary
  have hclass : "-Xjre:" ++ value ≠ "-verbose:class" := by
    intro heq
    rw [heq] at hlibrary
    simp at hlibrary
  have hdrop : (("-Xjre:" ++ value).drop 6).toString = value := drop_append rfl
  rw [normalizeFrom.eq_def]
  dsimp only
  rw [if_neg (by simp [hdash, hend]), if_neg hclass, if_pos hlibrary, hdrop]
  rfl

theorem normalizeFrom_property {ps : Properties} {body : String} (h : body ≠ "") (rest : List String) :
    normalizeFrom ps (("-D" ++ body) :: rest) = normalizeFrom (ps.set (property body).1 (property body).2) rest := by
  have hproperty := startsWith_append "-D" body
  have hdash : ("-D" ++ body).startsWith "-" = true := startsWith_trans hproperty (by simp)
  have hend : "-D" ++ body ≠ "--" := by
    intro heq
    rw [heq] at hproperty
    simp at hproperty
  have hclass : "-D" ++ body ≠ "-verbose:class" := by
    intro heq
    rw [heq] at hproperty
    simp at hproperty
  have hlibrary : ¬("-D" ++ body).startsWith "-Xjre:" = true := by
    intro hlibrary
    have hboth := startsWith_of_startsWith hproperty hlibrary (by decide)
    simp at hboth
  have hnot : "-D" ++ body ≠ "-D" := by
    intro heq
    refine h ?_
    rw [← String.toList_inj] at heq ⊢
    simpa using heq
  have hdrop : (("-D" ++ body).drop 2).toString = body := drop_append rfl
  rw [normalizeFrom.eq_def]
  dsimp only
  rw [if_neg (by simp [hdash, hend]), if_neg hclass, if_neg hlibrary, if_pos ⟨hproperty, hnot⟩, hdrop]

/-- An option at which the first pass does not stop is brought into the common form. -/
theorem normalizeFrom_given {o : Given} (hstops : o.stops = false) (hplain : ∀ v, o = .library v → ¬Rewritten v)
    (ps : Properties) (rest : List String) :
    normalizeFrom ps (o.words ++ rest) =
      (o.commonWords ++ (normalizeFrom (o.record ps) rest).1, (normalizeFrom (o.record ps) rest).2) := by
  cases o with
  | classPath long value =>
    cases long with
    | false => exact normalizeFrom_next value rest (by decide)
    | true => exact normalizeFrom_next value rest (by decide)
  | logFile value => exact normalizeFrom_next value rest (by decide)
  | library value =>
    have hvalue : ¬(value = "--") ∧ value.startsWith "-" = true := by simpa [Given.stops] using hstops
    have hoption : ¬Rewritten "-Xjre" := by simp [Rewritten, takesNext]
    have hrest : normalizeFrom ps (value :: rest) = _ := normalizeFrom_keep rest hvalue.2 hvalue.1 (hplain value rfl)
    refine (normalizeFrom_keep (value :: rest) (by simp) (by simp) hoption).trans ?_
    rw [hrest]
    rfl
  | libraryHere value => exact normalizeFrom_libraryHere value rest
  | logLevel text level reads => exact normalizeFrom_next text rest (by decide)
  | verbose => exact normalizeFrom_keep rest (by simp) (by simp) (by simp [Rewritten, takesNext])
  | verboseClass => exact normalizeFrom_verboseClass rest
  | noIndex => exact normalizeFrom_keep rest (by simp) (by simp) (by simp [Rewritten, takesNext])
  | property name value named plain =>
    cases value with
    | none =>
      refine (normalizeFrom_property named rest).trans ?_
      rw [(property_given plain).1]
      rfl
    | some value =>
      have hbody : name ++ "=" ++ value ≠ "" := by simp [named]
      have hassoc : "-D" ++ name ++ "=" ++ value = "-D" ++ (name ++ "=" ++ value) := by simp [String.append_assoc]
      rw [Given.words, hassoc]
      refine (normalizeFrom_property hbody rest).trans ?_
      rw [(property_given plain).2 value]
      rfl

/-! ## The second pass -/

theorem splitOption_append {name : List Char} (h : ∀ c ∈ name, (c != '=') = true) (value : List Char) :
    splitOption (name ++ '=' :: value) = (String.ofList name, some (String.ofList value)) := by
  simp [splitOption, List.takeWhile_append_of_pos h]

/-- A word with one dash is an option, unless a dash or an equals sign comes next. -/
theorem classify_option {a : String} {c : Char} {cs : List Char} (ha : a.toList = '-' :: c :: cs) (hdash : c ≠ '-')
    (hequals : c ≠ '=') : classify a = .option (splitOption (c :: cs)).1 (splitOption (c :: cs)).2 := by
  have hend : a ≠ "--" := by
    rintro rfl
    simp [hdash.symm] at ha
  unfold classify
  rw [ha]
  simp [hdash, hequals, hend]

theorem parseOptions_valued {c c' : CommandLine} {a name value : String} {spec : OptionSpec}
    (ha : classify a = .option name (some value)) (hfind : options.find? (·.name == name) = some spec)
    (hset : c.setValue spec value = .ok c') (rest : List String) : parseOptions c (a :: rest) = parseOptions c' rest := by
  rw [parseOptions, ha]
  dsimp only
  rw [hfind]
  dsimp only
  rw [hset]
  rfl

/-- A word that is no option of the second pass is reported. -/
theorem parseOptions_unknown {c : CommandLine} {a name : String} {value : Option String}
    (ha : classify a = .option name value) (hname : ∀ o ∈ options, o.name ≠ name) (hhelp : name ≠ "help" ∧ name ≠ "h")
    (rest : List String) : parseOptions c (a :: rest) = .error (.unknown name) := by
  have hfind : options.find? (·.name == name) = none :=
    List.find?_eq_none.2 fun o ho => by simpa using hname o ho
  rw [parseOptions.eq_def]
  dsimp only
  rw [ha]
  dsimp only
  rw [hfind]
  dsimp only
  rw [if_neg (by simp [hhelp])]

/-- A word without a dash ends the options. -/
theorem classify_rest {a : String} (h : a.startsWith "-" = false) : classify a = .rest := by
  have hdash : ¬['-'] <+: a.toList := by
    rw [← Bool.not_eq_true, String.startsWith_string_iff] at h
    exact h
  unfold classify
  cases hlist : a.toList with
  | nil => rfl
  | cons c cs =>
    have hc : c ≠ '-' := by
      rintro rfl
      exact hdash (hlist ▸ List.prefix_append ['-'] cs)
    simp [hc]

/-- An option of the common form sets what it stands for. -/
theorem parseOptions_given (o : Given) (c : CommandLine) (rest : List String) :
    parseOptions c (o.commonWords ++ rest) = parseOptions (o.apply c) rest := by
  cases o with
  | classPath long value =>
    cases long with
    | false => rfl
    | true => rfl
  | logFile value => rfl
  | library value => rfl
  | libraryHere value =>
    have hlist : ("-Xjre=" ++ value).toList = '-' :: 'X' :: (['j', 'r', 'e'] ++ '=' :: value.toList) := by simp
    have hclassify : classify ("-Xjre=" ++ value) = .option "Xjre" (some value) := by
      have hkeep : ∀ c ∈ ['X', 'j', 'r', 'e'], (c != '=') = true := by simp
      have hsplit := splitOption_append hkeep value.toList
      rw [classify_option hlist (by decide) (by decide)]
      rw [String.ofList_toList] at hsplit
      exact congrArg₂ Argument.option (congrArg Prod.fst hsplit) (congrArg Prod.snd hsplit)
    exact parseOptions_valued hclassify rfl rfl rest
  | logLevel text level reads =>
    have hset : c.setValue ⟨"log-level", .integer fun c v => { c with logLevel := v },
        "Diagnostic log verbosity (overrides kopi.toml) (default -1)"⟩ text = .ok { c with logLevel := level } := by
      rw [setValue]
      dsimp only
      rw [reads]
    exact congrArg (fun r => r >>= fun c => parseOptions c rest) hset
  | verbose => rfl
  | verboseClass => rfl
  | noIndex => rfl
  | property name value named plain => rfl

/-- A word that starts with a capital D is unknown to the second pass. -/
theorem parseOptions_property (body : String) :
    ∃ name, ∀ c rest, parseOptions c (("-D" ++ body) :: rest) = .error (.unknown name) := by
  have hlist : ("-D" ++ body).toList = '-' :: 'D' :: body.toList := by simp
  have hclassify := classify_option hlist (by decide) (by decide)
  have hfirst : (splitOption ('D' :: body.toList)).1.toList.head? = some 'D' := by simp [splitOption]
  have hoptions : ∀ o ∈ options, o.name.toList.head? ≠ some 'D' := by decide
  refine ⟨_, fun c rest => parseOptions_unknown hclassify (fun o ho heq => hoptions o ho (heq ▸ hfirst)) ?_ rest⟩
  constructor
  · intro heq
    rw [heq] at hfirst
    exact absurd hfirst (by decide)
  · intro heq
    rw [heq] at hfirst
    exact absurd hfirst (by decide)

/-- An option in a form of the launcher's own is unknown to the second pass. -/
theorem parseOptions_own {o : Given} (h : o.isOwn = true) :
    ∃ name, ∀ c rest, parseOptions c (o.words ++ rest) = .error (.unknown name) := by
  cases o with
  | libraryHere value =>
    have hlist : ("-Xjre:" ++ value).toList = '-' :: 'X' :: 'j' :: 'r' :: 'e' :: ':' :: value.toList := by simp
    have hclassify := classify_option hlist (by decide) (by decide)
    have hcolon : ':' ∈ (splitOption ('X' :: 'j' :: 'r' :: 'e' :: ':' :: value.toList)).1.toList := by simp [splitOption]
    have hoptions : ∀ o ∈ options, ':' ∉ o.name.toList := by decide
    refine ⟨_, fun c rest => parseOptions_unknown hclassify (fun o ho heq => hoptions o ho (heq ▸ hcolon)) ?_ rest⟩
    constructor
    · intro heq
      rw [heq] at hcolon
      exact absurd hcolon (by decide)
    · intro heq
      rw [heq] at hcolon
      exact absurd hcolon (by decide)
  | verboseClass => exact ⟨"verbose:class", fun c rest => rfl⟩
  | property name value named plain =>
    cases value with
    | none => exact parseOptions_property name
    | some value =>
      obtain ⟨unknown, hunknown⟩ := parseOptions_property (name ++ "=" ++ value)
      refine ⟨unknown, fun c rest => ?_⟩
      have hassoc : "-D" ++ name ++ "=" ++ value = "-D" ++ (name ++ "=" ++ value) := by simp [String.append_assoc]
      rw [Given.words, hassoc]
      exact hunknown c rest
  | classPath | logFile | library | logLevel | verbose | noIndex => cases h

/-! ## Both passes -/

theorem Given.commonWords_of_isOwn {o : Given} (h : o.isOwn = false) : o.commonWords = o.words := by
  cases o with
  | libraryHere | verboseClass | property => cases h
  | classPath | logFile | library | logLevel | verbose | noIndex => rfl

theorem Given.record_of_isOwn {o : Given} (h : o.isOwn = false) (ps : Properties) : o.record ps = ps := by
  cases o with
  | libraryHere | verboseClass | property => cases h
  | classPath | logFile | library | logLevel | verbose | noIndex => rfl

theorem exists_library_of_stops {o : Given} (h : o.stops = true) :
    ∃ v, o = .library v ∧ (v == "--" || !v.startsWith "-") = true := by
  cases o with
  | library v => exact ⟨v, rfl, h⟩
  | classPath | logFile | libraryHere | logLevel | verbose | verboseClass | noIndex | property => cases h

/-- The first pass stops at a value of `-Xjre` that looks like no option. -/
theorem normalizeFrom_stops {o : Given} (h : o.stops = true) (ps : Properties) (rest : List String) :
    normalizeFrom ps (o.words ++ rest) = (o.words ++ rest, ps) := by
  obtain ⟨v, rfl, hv⟩ := exists_library_of_stops h
  have hoption : ¬Rewritten "-Xjre" := by simp [Rewritten, takesNext]
  refine (normalizeFrom_keep (v :: rest) (by simp) (by simp) hoption).trans ?_
  rw [normalizeFrom_stop rest hv]
  rfl

variable {mainClass : String} (hmain : mainClass.startsWith "-" = false)

include hmain

/-- The first pass brings options in order into the common form, and leaves the main class and its arguments alone. -/
theorem normalizeFrom_ordered {os : List Given} (hplain : ∀ v, .library v ∈ os → ¬Rewritten v) (h : Ordered os)
    (ps : Properties) (arguments : List String) :
    normalizeFrom ps (os.flatMap Given.words ++ mainClass :: arguments) =
      (os.flatMap Given.commonWords ++ mainClass :: arguments, os.foldl Given.record ps) := by
  induction os generalizing ps with
  | nil => exact normalizeFrom_stop arguments (by simp [hmain])
  | cons o os ih =>
    obtain ⟨hfirst, hrest⟩ := List.pairwise_cons.1 h
    rw [List.flatMap_cons, List.append_assoc]
    cases hstops : o.stops with
    | false =>
      have hown : ∀ v, o = .library v → ¬Rewritten v := fun v heq => hplain v (heq ▸ List.mem_cons_self)
      rw [normalizeFrom_given hstops hown, ih (fun v hv => hplain v (List.mem_cons_of_mem _ hv)) hrest, List.flatMap_cons,
        List.append_assoc, List.foldl_cons]
    | true =>
      -- what follows is left as it is, but it is in the common form already
      have hcommon : os.flatMap Given.commonWords = os.flatMap Given.words :=
        List.flatMap_congr fun o' ho' => Given.commonWords_of_isOwn (hfirst o' ho' hstops)
      have hrecord : os.foldl Given.record ps = ps := by
        refine List.foldlRecOn (motive := fun ps' => ps' = ps) os _ rfl fun ps' hps' o' ho' => ?_
        rw [Given.record_of_isOwn (hfirst o' ho' hstops), hps']
      have hself : o.isOwn = false := by
        obtain ⟨v, rfl, -⟩ := exists_library_of_stops hstops
        rfl
      rw [normalizeFrom_stops hstops, List.flatMap_cons, hcommon, List.foldl_cons, Given.record_of_isOwn hself, hrecord,
        Given.commonWords_of_isOwn hself, List.append_assoc]

/-- The second pass reads options of the common form one after the other, up to the main class. -/
theorem parseOptions_all (os : List Given) (c : CommandLine) (arguments : List String) :
    parseOptions c (os.flatMap Given.commonWords ++ mainClass :: arguments) =
      .ok (os.foldl Given.apply c, mainClass :: arguments) := by
  induction os generalizing c with
  | nil =>
    rw [List.flatMap_nil, List.nil_append, parseOptions.eq_def]
    dsimp only
    rw [classify_rest hmain]
    rfl
  | cons o os ih => rw [List.flatMap_cons, List.append_assoc, parseOptions_given, ih, List.foldl_cons]

omit hmain

/-- Words of options in the common form are read up to one that is in a form of the launcher's own. -/
theorem parseOptions_own_later {os : List Given} (h : ∃ o ∈ os, o.isOwn = true) :
    ∃ name, ∀ c rest, parseOptions c (os.flatMap Given.words ++ rest) = .error (.unknown name) := by
  induction os with
  | nil => simp at h
  | cons o os ih =>
    cases hown : o.isOwn with
    | true =>
      obtain ⟨name, hname⟩ := parseOptions_own hown
      exact ⟨name, fun c rest => by rw [List.flatMap_cons, List.append_assoc, hname]⟩
    | false =>
      have hlater : ∃ o ∈ os, o.isOwn = true := by simpa [hown] using h
      obtain ⟨name, hname⟩ := ih hlater
      refine ⟨name, fun c rest => ?_⟩
      rw [List.flatMap_cons, List.append_assoc, ← Given.commonWords_of_isOwn hown, parseOptions_given, hname]

/-- Options out of order are not read. -/
theorem parseOptions_disordered {os : List Given} (hplain : ∀ v, .library v ∈ os → ¬Rewritten v) (h : ¬Ordered os) :
    ∃ name, ∀ ps c rest, parseOptions c (normalizeFrom ps (os.flatMap Given.words ++ rest)).1 =
      .error (.unknown name) := by
  induction os with
  | nil => exact absurd List.Pairwise.nil h
  | cons o os ih =>
    cases hstops : o.stops with
    | false =>
      have hrest : ¬Ordered os := fun hrest => h (List.pairwise_cons.2 ⟨fun o' _ hs => by simp [hstops] at hs, hrest⟩)
      have hown : ∀ v, o = .library v → ¬Rewritten v := fun v heq => hplain v (heq ▸ List.mem_cons_self)
      obtain ⟨name, hname⟩ := ih (fun v hv => hplain v (List.mem_cons_of_mem _ hv)) hrest
      refine ⟨name, fun ps c rest => ?_⟩
      rw [List.flatMap_cons, List.append_assoc, normalizeFrom_given hstops hown, parseOptions_given, hname]
    | true =>
      have hlater : ∃ o' ∈ o :: os, o'.isOwn = true := by
        by_contra hnone
        push Not at hnone
        exact h (List.pairwise_of_forall_mem_list fun _ _ o' ho' _ => by simpa using hnone o' ho')
      obtain ⟨name, hname⟩ := parseOptions_own_later hlater
      refine ⟨name, fun ps c rest => ?_⟩
      rw [List.flatMap_cons, List.append_assoc, normalizeFrom_stops hstops]
      have hall := hname c rest
      rwa [List.flatMap_cons, List.append_assoc] at hall

/-! ## What is asked for -/

/-- Options set neither an archive to run nor a class to list, and leave properties to the first pass. -/
theorem foldl_apply (os : List Given) (c : CommandLine) :
    (os.foldl Given.apply c).archive = c.archive ∧ (os.foldl Given.apply c).listed = c.listed ∧
      (os.foldl Given.apply c).properties = c.properties := by
  induction os generalizing c with
  | nil => exact ⟨rfl, rfl, rfl⟩
  | cons o os ih =>
    have happly : (o.apply c).archive = c.archive ∧ (o.apply c).listed = c.listed ∧
        (o.apply c).properties = c.properties := by
      cases o <;> exact ⟨rfl, rfl, rfl⟩
    obtain ⟨harchive, hlisted, hproperties⟩ := ih (o.apply c)
    exact ⟨harchive.trans happly.1, hlisted.trans happly.2.1, hproperties.trans happly.2.2⟩

/-- A property has the last value that it is given. -/
theorem lookup_recorded (os : List Given) (ps : Properties) (name : String) :
    (os.foldl Given.record ps).lookup name = ((os.filterMap Given.pair?).reverse.lookup name).or (ps.lookup name) := by
  induction os generalizing ps with
  | nil => rfl
  | cons o os ih =>
    rw [List.foldl_cons, ih, Given.record]
    cases hpair : o.pair? with
    | none => rw [List.filterMap_cons_none hpair, Option.elim_none]
    | some p =>
      obtain ⟨key, value⟩ := p
      rw [List.filterMap_cons_some hpair, Option.elim_some, List.reverse_cons, List.lookup_append,
        Properties.lookup_set, Option.or_assoc]
      congr 1
      cases hname : name == key with
      | false => simp [List.lookup_cons, hname]
      | true => simp [List.lookup_cons, hname]

theorem nodup_recorded (os : List Given) {ps : Properties} (h : (ps.map (·.1)).Nodup) :
    ((os.foldl Given.record ps).map (·.1)).Nodup := by
  refine List.foldlRecOn (motive := fun ps' : Properties => (ps'.map (·.1)).Nodup) os _ h fun ps' hps' o _ => ?_
  rw [Given.record]
  cases o.pair? with
  | none => exact hps'
  | some p => exact Properties.nodup_set hps' p.1 p.2

theorem properties_configured (os : List Given) (mainClass : String) (arguments : List String) :
    (configured os mainClass arguments).properties = os.foldl Given.record [] := (foldl_apply os _).2.2

include hmain

/-- Complete options before a main class are read if none in a form of the launcher's own stands after a value of `-Xjre`
that looks like no option: then the properties are the ones given, each with its last value, and the main class and its
arguments are what follows. Otherwise the command line is refused. Values of `-Xjre` that look like such a form, or like
an option that takes the next argument, are left out. -/
theorem parse_given {os : List Given} (hplain : ∀ v, .library v ∈ os → ¬Rewritten v) (arguments : List String) :
    (Ordered os →
      parse (os.flatMap Given.words ++ mainClass :: arguments) = .ok (configured os mainClass arguments) ∧
      ((configured os mainClass arguments).properties.map (·.1)).Nodup ∧
      ∀ name, (configured os mainClass arguments).properties.lookup name =
        (os.filterMap Given.pair?).reverse.lookup name) ∧
    (¬Ordered os →
      ∃ name, parse (os.flatMap Given.words ++ mainClass :: arguments) = .error (.unknown name)) := by
  constructor
  · intro hordered
    refine ⟨?_, ?_, fun name => ?_⟩
    · have hnormal := normalizeFrom_ordered hmain hplain hordered [] arguments
      have hrest : ∀ c : CommandLine, c.archive = "" → c.listed = "" → c.withRest (mainClass :: arguments) =
          { c with mainClass, arguments } := fun c harchive hlisted => if_pos ⟨harchive, hlisted⟩
      obtain ⟨harchive, hlisted, -⟩ := foldl_apply os { properties := os.foldl Given.record [] }
      rw [parse, normalize, hnormal]
      dsimp only
      rw [parseOptions_all hmain]
      exact congrArg Except.ok (hrest _ harchive hlisted)
    · rw [properties_configured]
      exact nodup_recorded os List.nodup_nil
    · rw [properties_configured, lookup_recorded, List.lookup_nil, Option.or_none]
  · intro hdisordered
    obtain ⟨name, hname⟩ := parseOptions_disordered hplain hdisordered
    refine ⟨name, ?_⟩
    rw [parse]
    dsimp only
    rw [normalize, hname]
    rfl

omit hmain

namespace Samples

/-- The option `-Dk=v` for some value. -/
def kept (value : String) : Given := .property "k" (some value) (by simp) (by simp)

/-- The options `-Dk=u -Dk=v -Xjre dir -verbose`. -/
def inOrder : List Given := [kept "u", kept "v", .library "dir", .verbose]

/-- The options `-Xjre dir -Dk=v`. -/
def outOfOrder : List Given := [.library "dir", kept "v"]

end Samples

open CommandLine.Samples in
/-- A property before `-Xjre` is taken with its last value, and one after it is refused. -/
theorem parse_given_directory :
    "Main".startsWith "-" = false ∧ (∀ v, .library v ∈ inOrder → ¬Rewritten v) ∧
      (∀ v, .library v ∈ outOfOrder → ¬Rewritten v) ∧ Ordered inOrder ∧ ¬Ordered outOfOrder ∧
      parse ["-Dk=u", "-Dk=v", "-Xjre", "dir", "-verbose", "Main", "-Dz=1"] =
        .ok (configured inOrder "Main" ["-Dz=1"]) ∧
      (configured inOrder "Main" ["-Dz=1"]).properties.lookup "k" = some "v" ∧
      ∃ name, parse ["-Xjre", "dir", "-Dk=v", "Main"] = .error (.unknown name) := by
  have hmain : "Main".startsWith "-" = false := by simp
  have hdir : ¬Rewritten "dir" := by simp [Rewritten, takesNext]
  have hinOrder : ∀ v, .library v ∈ inOrder → ¬Rewritten v := by
    intro v hv
    obtain rfl : v = "dir" := by simpa [inOrder, kept] using hv
    exact hdir
  have houtOfOrder : ∀ v, .library v ∈ outOfOrder → ¬Rewritten v := by
    intro v hv
    obtain rfl : v = "dir" := by simpa [outOfOrder, kept] using hv
    exact hdir
  have hordered : Ordered inOrder := by simp [Ordered, inOrder, kept, Given.stops, Given.isOwn]
  have hdisordered : ¬Ordered outOfOrder := by simp [Ordered, outOfOrder, kept, Given.stops, Given.isOwn]
  obtain ⟨hparse, -, hlookup⟩ := (parse_given hmain hinOrder ["-Dz=1"]).1 hordered
  obtain ⟨name, hrefused⟩ := (parse_given hmain houtOfOrder []).2 hdisordered
  exact ⟨hmain, hinOrder, houtOfOrder, hordered, hdisordered, hparse, (hlookup "k").trans rfl, name, hrefused⟩

/-- A property after `-Xjre` and its value. -/
theorem property_after_library_unknown :
    parse ["-Xjre", "dir", "-Dk=v", "Main"] = .error (.unknown "Dk") := by
  decide +kernel

end CommandLine

end JavaMachine
