import JavaMachine.Proofs.Initialization.Runs
import JavaMachine.Proofs.Loading.Arrays
import JavaMachine.Proofs.Loading.Resolution

/-!
Loading at all levels and over all runs. A class is found with its loader, made as an array class, read from the class path,
or asked of a loader object, whose code may do anything that makes the machine grow. Main results: `leads_loadClass`, and by
induction on the level that everything the machine does makes it grow, also under a watcher (`growing_services`,
`growing_answering`).

A machine is `Attained` if it comes about from an empty one by requests from outside, also by requests that ran out of levels
on their way: so these are the machines in the middle of a request too, on whatever frames and with whatever names marked.
All of them are sound, and chronicles. A name of the bootstrap loader stands for one class, and for the same one after every
request (`bootstrap_names_unique`), but for the class of char arrays, which may be made twice before the first request that
needs it is over (`charArray_made_twice`).
-/

namespace JavaMachine

section growth

open M Attempt

variable {g : Guard} {asked : Prop} {m : Machine} {s : Services}

/-! ## Growth and contracts -/

/-- What keeps growth leads to it, where new classes need not be named well. -/
theorem leads_of_keeps {α : Type} {act : Attempt α} (h : Attempt.Keeps Growing act) (hasked : ¬ asked) :
    Leads (expanding g asked) act m fun _ _ => True := by
  refine ⟨fun ⟨hm, hg⟩ => ?_⟩
  have h := h m
  unfold After at h
  have hexpands {m' : Machine} (hgrows : Grows m m') :
      (expanding g asked).holds m' ∧ (expanding g asked).step m m' := by
    have hstep : Expands g asked m m' := ⟨hgrows.evolves.weaken hg, hgrows.defining, fun h => absurd h hasked⟩
    exact ⟨hstep.holds hg, hstep⟩
  generalize act.run m = r at *
  rcases r with ⟨_ | a, m'⟩ | ⟨e, m'⟩
  all_goals exact ⟨(hexpands (h hm)).1, (hexpands (h hm)).2, trivial⟩

/-- What leads to expansion under the guard of each machine keeps growth. -/
theorem keeps_of_leads {α : Type} {act : Attempt α}
    (h : ∀ m : Machine, ∃ asked Q, Leads (expanding m.guard asked) act m Q) : Attempt.Keeps Growing act := by
  intro m
  obtain ⟨asked, Q, h⟩ := h m
  unfold After
  have hgrows {m' : Machine} (hstep : Expands m.guard asked m m') : Grows m m' := ⟨hstep.evolves, hstep.defining⟩
  have h (hm : m.Sound) := h.outcome ⟨hm, .refl _⟩
  generalize act.run m = r at *
  rcases r with ⟨_ | a, m'⟩ | ⟨e, m'⟩
  all_goals exact fun hm => hgrows (h hm).2.1

namespace Linking

/-! ## Where classes come from -/

theorem leads_loadFile (h : Loads s) {l : Nat} {name : String} (hne : name ≠ "")
    (hname : name.startsWith "[" = false) : Leads (expanding g (l = 0)) (loadFile s name) m (Loaded l name m) := by
  have hstorage (m : Machine) (storage : Storage) : Steady m { m with storage } :=
    .ofSame (List.suffix_refl _) rfl rfl rfl rfl rfl rfl rfl
  have hexpands {storage : Storage} (hm : m.Sound) : Expands g (l = 0) m { m with storage } :=
    .alike hm (hstorage m storage).alike rfl
  unfold loadFile
  rw [leads_get_bind]
  refine Leads.bind (P := fun _ m' => ∃ storage, m' = { m with storage })
    (leads_onStorage (fun _ storage _ hm => ?_) fun _ storage _ hm => ?_) ?_
  · exact ⟨(hexpands hm.1).holds hm.2, hexpands hm.1, storage, rfl⟩
  · exact ⟨(hexpands hm.1).holds hm.2, hexpands hm.1, storage, rfl⟩
  · rintro r _ - ⟨storage, rfl⟩
    split
    · exact leads_throw trivial
    · next data source =>
      refine (leads_defineClass h fun _ => ⟨rfl, hne, hname⟩).mono fun c m' hm' _ ⟨⟨n, hn, hanswers⟩, _, hplain⟩ => ?_
      obtain rfl := hn hne
      have hchars : n ≠ Machine.charArrayName := by
        rintro rfl
        exact absurd hname (by decide +kernel)
      exact ⟨⟨hanswers.valid, hanswers.named, fun _ => hanswers.known rfl⟩, fun _ => hanswers.latest hm'.1 hchars,
        fun _ _ => hplain rfl⟩

theorem leads_loadThrough (h : Hosted Growing s) {l : Nat} {loader : Ref} {name : String} (hl : l ≠ 0)
    (hne : name ≠ "") : Leads (expanding g (l = 0)) (loadThrough s l loader name) m (Loaded l name m) := by
  have hrefuse (m : Machine) (owner : ClassId) :
      Leads (expanding g (l = 0)) (loadThrough.refuse name owner) m (Loaded l name m) := by
    unfold loadThrough.refuse
    rw [leads_classAt_bind]
    exact leads_fail (by decide)
  unfold loadThrough
  rw [leads_get_bind]
  dsimp only
  split
  · split
    · exact hrefuse _ _
    · refine (leads_lift (Q := fun _ _ => True) keeps_newString prompt_newString fun _ _ _ _ => trivial).bind
        fun argument m₁ _ _ => ?_
      refine (leads_of_keeps ?_ hl).bind fun result m₂ _ _ => leads_some!_bind fun slot _ => ?_
      · refine Attempt.keeps_tryCatch (h.invoke _ _) fun f => ?_
        grind
      · rw [leads_get_bind]
        split
        · next c hc =>
          rw [leads_classAt_bind]
          refine leads_failIf_bind (by decide) fun hnamed => ?_
          have hnamed : (m₂.classAt c).name = name := by simpa using hnamed
          -- a class that is not there has no name
          have hvalid : c.index < m₂.classes.size := by
            refine Nat.lt_of_not_le fun hge => hne ?_
            rw [← hnamed, Machine.classAt_of_le hge]
            rfl
          refine .intro fun ⟨hm, hg⟩ => ?_
          have hstep : Expands g (l = 0) m₂ (m₂.record l name c) :=
            expands_record hm hg hvalid hnamed fun h => absurd h hl
          refine Leads.bind (P := fun _ m' => m' = m₂.record l name c)
            (leads_modify fun hm => ⟨hstep.holds hm.2, hstep, rfl⟩) ?_
          rintro - _ - rfl
          exact leads_pure fun _ => ⟨⟨hvalid, hnamed, fun h => absurd h hl⟩, fun h => absurd h hl, fun h => absurd h hl⟩
        · exact leads_fail (by decide)
  · exact hrefuse _ _

theorem leads_loadClass (h : Loads s) (hhosted : Hosted Growing s) {l : Nat} {name : String} :
    Leads (expanding g (l = 0)) (loadClass s l name) m (Loaded l name m) := by
  unfold loadClass
  rw [leads_get_bind]
  refine .intro fun ⟨hm, _⟩ => ?_
  split
  · next c hc =>
    obtain ⟨hvalid, hnamed, -⟩ := hm.named l name c (Machine.mem_of_loaded? hc)
    refine leads_pure fun _ => ⟨⟨hvalid, hnamed, ?_⟩, ?_, fun _ _ => .ofSize (Nat.le_refl _)⟩
    · rintro rfl
      exact Machine.mem_of_loaded? hc
    · rintro rfl
      exact hc
  · next hunknown =>
    split
    · exact leads_fail (by decide)
    · next hne =>
      split
      · next harray =>
        refine leads_arrayClass h harray fun hl => ?_
        rw [← hl]
        exact hunknown
      · next hplain =>
        rw [leads_loaderMirror_bind]
        split
        · exact leads_loadFile h hne (Bool.eq_false_iff.2 hplain)
        · next loader hloader =>
          refine leads_loadThrough hhosted ?_ hne
          rintro rfl
          rw [hm.boot.2] at hloader
          cases hloader

/-- Classes are defined in a machine that grows. -/
theorem growing_defineClass (h : Loads s) (l : Nat) (expected : String) (data : List UInt8) (source : String) :
    Attempt.Keeps Growing (defineClass s l expected data source) :=
  keeps_of_leads fun _ => ⟨False, _, leads_defineClass h nofun⟩

theorem growing_define (h : Loads s) (l : Nat) (data : List UInt8) : Attempt.Keeps Growing (define s l data) :=
  keeps_of_leads fun _ => ⟨False, _, leads_define h⟩

end Linking

/-! ## Levels -/

namespace Watched

open Interpreter

variable {look : Machine → Machine} (hlook : ∀ m, Growing .done m (look m))
include hlook

/-- At every level the machine grows with what it does, and loads lead to classes, if it grows under the watcher. -/
theorem growing_services (n : Nat) :
    Serving Growing (services look Natives.standard n) ∧ Loads (services look Natives.standard n) := by
  induction n with
  | zero =>
    have hloads : Loads .silent := ⟨fun _ _ _ _ => ⟨fun hm => ⟨hm, step_refl hm, trivial⟩⟩⟩
    exact ⟨serving_silent (growing_resolution hloads), hloads⟩
  | succ n ih =>
    obtain ⟨hserving, hloads⟩ := ih
    have hload (g : Guard) (l : Nat) (name : String) (m : Machine) :=
      @Linking.leads_loadClass g m _ hloads hserving.toHosted l name
    have hdefine := Linking.growing_defineClass hloads
    refine ⟨serving_succ hlook hserving (fun l name => ?_) hdefine (.of_careless (hserving.toHosted.workingFrameless hdefine))
      (growing_resolution ⟨hload⟩), ⟨hload⟩⟩
    exact keeps_of_leads fun m => ⟨_, _, hload m.guard l name m⟩

/-- What the outside asks for makes the machine grow. -/
theorem growing_answering (n : Nat) : Answering Growing (services look Natives.standard n) := by
  obtain ⟨hserving, hloads⟩ := growing_services hlook n
  have hstrings := keeps_of_leads fun m => ⟨False, _, Linking.leads_ensureStringClasses hloads⟩
  exact hserving.toHosted.answeringFrameless (Boot.keeps_bootstrap hserving.toHosted hstrings)
    (fun _ => Linking.keeps_newStringArray hserving.toHosted) (Linking.growing_define hloads)

end Watched

namespace Interpreter

theorem growing_services (n : Nat) :
    Serving Growing (services Natives.standard n) ∧ Loads (services Natives.standard n) :=
  Watched.services_id Natives.standard n ▸ Watched.growing_services (fun m => Tolerant.minor (.refl m)) n

theorem growing_answering (n : Nat) : Answering Growing (services Natives.standard n) :=
  Watched.services_id Natives.standard n ▸ Watched.growing_answering (fun m => Tolerant.minor (.refl m)) n

end Interpreter

end growth

open M

/-! ## Attained machines -/

/-- The machines that come about by requests and in the middle of them. -/
inductive Attained : Machine → Prop where
  | empty (options : Options) (storage : Storage) (stdin : List UInt8) :
      Attained (Boot.empty options storage stdin)
  | perform {m : Machine} (level : Nat) (r : Request) : Attained m → Attained (m.perform level r)
  | still {m m' : Machine} : Attained m → Still m m' → Attained m'
  | running {m : Machine} (current : Nat) (frames : List Frame) : Attained m → Attained { m with current, frames }
  | defining {m : Machine} (l : Nat) (name : String) : Attained m → Attained (m.beginDefine l name)

theorem Attained.chronicle {m : Machine} (h : Attained m) : Chronicle m := by
  induction h with
  | empty options storage stdin => exact chronicle_empty options storage stdin
  | perform level r _ ih => exact chronicle_perform ih level r
  | still _ hs ih => exact ih.of_quiet hs.toQuiet
  | running current frames _ ih => exact ih.congr rfl rfl
  | defining l name _ ih => exact ih.congr rfl rfl

/-! ## Empty machines -/

/-- The class of a primitive type. -/
structure Class.OfPrimitive (k : Class) : Prop where
  primitive : k.primitive ≠ none
  loader : k.loader = 0
  super : k.super = none
  superName : k.superName = ""
  interfaces : k.interfaces = []
  interfaceNames : k.interfaceNames = []
  fields : k.fields = []
  methods : k.methods = []
  pool : k.pool.size = 0
  instanceSlots : k.instanceSlots = 0
  statics : k.statics.size = 0
  component : k.component = none

theorem ofPrimitive_empty (options : Options) (storage : Storage) (stdin : List UInt8) :
    ∀ k ∈ (Boot.empty options storage stdin).classes, k.OfPrimitive := by
  have hclasses : (Boot.empty options storage stdin).classes = (Boot.empty default {} []).classes := rfl
  have hall : ∀ k ∈ (Boot.empty default {} []).classes.toList,
      k.primitive ≠ none ∧ k.loader = 0 ∧ k.super = none ∧ k.superName = "" ∧ k.interfaces = [] ∧
        k.interfaceNames = [] ∧ k.fields.length = 0 ∧ k.methods.length = 0 ∧ k.pool.size = 0 ∧
        k.instanceSlots = 0 ∧ k.statics.size = 0 ∧ k.component = none := by decide
  intro k hk
  rw [hclasses] at hk
  obtain ⟨h₁, h₂, h₃, h₄, h₅, h₆, h₇, h₈, h₉, h₁₀, h₁₁, h₁₂⟩ := hall k (Array.mem_toList_iff.2 hk)
  exact ⟨h₁, h₂, h₃, h₄, h₅, h₆, List.length_eq_zero_iff.1 h₇, List.length_eq_zero_iff.1 h₈,
    h₉, h₁₀, h₁₁, h₁₂⟩

theorem sound_empty (options : Options) (storage : Storage) (stdin : List UInt8) :
    (Boot.empty options storage stdin).Sound := by
  have hclass {c : ClassId} (hc : c.index < (Boot.empty options storage stdin).classes.size) :=
    ofPrimitive_empty options storage stdin _ (Machine.classAt_mem hc)
  have hnone {l : Nat} {entry : String × ClassId}
      (h : entry ∈ ((Boot.empty options storage stdin).loaderAt l).classes) : False := by
    have hloader : (Boot.empty options storage stdin).loaderAt l = {} := by
      change (#[{}] : Array Loader).getD l default = {}
      rcases l with _ | l <;> rfl
    rw [hloader] at h
    cases h
  have hannounced : ∀ i, i < (Boot.empty default {} []).classes.size →
      .state ⟨i⟩ .initialized ∈ (Boot.empty default {} []).journal := by decide
  have hprimitives : ∀ entry ∈ (Boot.empty default {} []).primitives,
      entry.2.index < (Boot.empty default {} []).classes.size ∧
        ((Boot.empty default {} []).classAt entry.2).primitive.bind Descriptor.primitiveName? = some entry.1 := by decide
  have hletters : ∀ i, i < (Boot.empty default {} []).classes.size →
      ((Boot.empty default {} []).classAt ⟨i⟩).primitive.bind Descriptor.primitiveName? =
          some ((Boot.empty default {} []).classAt ⟨i⟩).name ∧
        (Boot.empty default {} []).primitives.lookup ((Boot.empty default {} []).classAt ⟨i⟩).name = some ⟨i⟩ := by decide
  have hlaid {c : ClassId} (hc : c.index < (Boot.empty options storage stdin).classes.size) :
      (Boot.empty options storage stdin).Laid c ((Boot.empty options storage stdin).classAt c) := by
    have hk := hclass hc
    refine ⟨fun s hs => ?_, fun _ => hk.superName, fun i hi => ?_, ?_, fun f hf => ?_, fun _ => ?_, ?_, fun d hd => ?_,
      fun h => ?_, fun _ h => absurd h hk.primitive, fun d hd => ?_⟩
    · rw [hk.super] at hs
      cases hs
    · rw [hk.interfaces] at hi
      cases hi
    · rw [hk.interfaces, hk.interfaceNames]
      rfl
    · rw [hk.fields] at hf
      cases hf
    · rw [Machine.inherited, hk.super, hk.instanceSlots, hk.fields]
      rfl
    · rw [hk.statics, hk.fields]
      rfl
    · rw [hk.component] at hd
      cases hd
    · exact absurd hk.component h
    · rw [hk.component] at hd
      cases hd
  refine ⟨⟨⟨fun c => ?_⟩, ⟨Nat.zero_lt_succ _, rfl⟩, ?_, ?_, ?_⟩, ⟨Nat.zero_lt_succ _, rfl⟩, fun c hc => hlaid hc, ?_, ?_,
    ?_, ?_, ?_, trivial, ?_, ?_, fun h => absurd h Bool.false_ne_true, fun h => absurd h Bool.false_ne_true⟩
  · rcases Nat.lt_or_ge c.index (Boot.empty options storage stdin).classes.size with hlt | hge
    · exact (hlaid hlt).follows
    · rw [Machine.classAt_of_le hge]
      refine ⟨fun d hd => ?_, fun d hd => ?_, fun d hd => ?_⟩
      · cases hd
      · cases hd
      · cases hd
  · exact fun o ho => absurd ho (Array.not_mem_empty o)
  · intro c e he
    have hsize := (hclass (Machine.lt_of_mem_pool he)).pool
    rw [Array.size_eq_zero_iff.1 hsize] at he
    exact absurd he (Array.not_mem_empty e)
  · intro c
    refine ⟨fun f hf => ?_, fun method hmethod => ?_⟩
    · rw [(hclass (Machine.lt_of_mem_fields hf)).fields] at hf
      cases hf
    · rw [(hclass (Machine.lt_of_mem_methods hmethod)).methods] at hmethod
      cases hmethod
  · exact fun c hc => ⟨(hclass hc).loader ▸ Nat.zero_lt_succ _, fun _ => (hclass hc).loader⟩
  · exact fun c hc => .inr ⟨.initialized, by decide, hannounced c.index hc⟩
  · exact fun c hc hprimitive => absurd hprimitive (hclass hc).primitive
  · exact fun l n c hc => (hnone hc).elim
  · exact fun n c d _ hc _ => (hnone hc).elim
  · intro n c hmem
    obtain ⟨hc, hletter⟩ := hprimitives (n, c) hmem
    exact ⟨hc, (hclass hc).loader, (hclass hc).component, Option.bind_eq_some_iff.1 hletter⟩
  · intro c hc letter hletter
    obtain ⟨hname, hlookup⟩ := hletters c.index hc
    have hnothing : ((Boot.empty options storage stdin).classAt c).supertypes = [] := by
      rw [Class.supertypes, (hclass hc).super, (hclass hc).interfaces]
      rfl
    refine ⟨?_, hlookup, hnothing⟩
    obtain ⟨letter', hletter', hname⟩ := Option.bind_eq_some_iff.1 hname
    obtain rfl : letter' = letter := Option.some_inj.1 (hletter'.symm.trans hletter)
    exact hname

/-- A request makes a sound machine grow. -/
theorem grows_perform {m : Machine} (h : m.Sound) (level : Nat) (r : Request) : Grows m (m.perform level r) := by
  have hgrowing := r.keeps_perform (Interpreter.growing_answering level) m
  unfold After at hgrowing
  unfold Machine.perform
  split at hgrowing
  · next hr =>
    rw [hr]
    exact hgrowing h
  · next hr =>
    rw [hr]
    exact hgrowing h

theorem Attained.sound {m : Machine} (h : Attained m) : m.Sound := by
  induction h with
  | empty options storage stdin => exact sound_empty options storage stdin
  | perform level r _ ih => exact (grows_perform ih level r).sound
  | still _ hs ih => exact ih.alike hs.toSteady.alike
  | @running m current frames _ ih =>
    have hsteady : Steady m { m with current, frames } :=
      .ofSame (List.suffix_refl _) rfl rfl rfl rfl rfl rfl rfl
    exact ih.alike hsteady.alike
  | defining l name _ ih => exact ih.alike (Linking.alike_beginDefine _ l name)

theorem Attained.performAll {m : Machine} (h : Attained m) (level : Nat) (requests : List Request) :
    Attained (m.performAll level requests) :=
  List.foldlRecOn _ _ h fun _ hm r _ => hm.perform level r

/-! ## Class paths -/

namespace Samples

/-- The class file of a sample class. -/
def bytes (k : ClassSource) : List UInt8 := (k.assemble.map ClassFile.encode).toOption.getD []

/-- A class path of sample classes. -/
def path (classes : List ClassSource) : Storage :=
  { tables := #[{ label := "", classes := classes.map fun k => (k.name, bytes k) }] }

/-- The machine over a class path of sample classes, after requests. -/
def asked (classes : List ClassSource) (requests : List Request) : Machine :=
  (Boot.empty { classPath := .memory 0 "", maxDepth := 8 } (path classes) []).performAll 12 requests

/-- What the bootstrap loader answers to the request for a name, where the machine does not halt. -/
def answer (m : Machine) (name : String) : Option (Option ClassId) :=
  match ((Interpreter.services Natives.standard 12).loadBoot name).run m with
  | .ok r _ => some r.toOption
  | .error _ _ => none

theorem attained_asked (classes : List ClassSource) (requests : List Request) : Attained (asked classes requests) :=
  (Attained.empty ..).performAll ..

/-- What strings need, and a string constant in an interface that every array class needs. -/
def textual : List ClassSource := [
  root, { name := "java/lang/Class" }, { name := "java/io/Serializable", flags := 0x601 },
  { name := "java/lang/Cloneable", flags := 0x601
    fields := [{ flags := 0x19, name := "K", desc := Machine.stringDesc, value := some (.string "x") }] },
  { name := "java/lang/String", fields := [{ flags := 0x11, name := "value", desc := Machine.charArrayName }] }]

/-- Whether a machine loads what it needs itself. -/
def bootstraps (m : Machine) : Bool :=
  match (Boot.bootstrap (Interpreter.services Natives.standard 12)).run m with
  | .ok (.ok _) _ => true
  | _ => false

theorem run_bootstrap {m : Machine} (h : bootstraps m = true) :
    (Boot.bootstrap (Interpreter.services Natives.standard 12)).run m = .ok (.ok ()) (m.perform 12 .bootstrap) := by
  unfold bootstraps at h
  split at h
  · next m' hrun =>
    have hperform : Request.perform (Interpreter.services Natives.standard 12) .bootstrap m = .ok () m' := by
      change ((fun _ => ()) <$> (Boot.bootstrap (Interpreter.services Natives.standard 12)).run : M Unit) m = _
      rw [map_eq_pure_bind, bind_apply, hrun]
      rfl
    rw [hrun, Machine.perform, hperform]
  · cases h

/-- The machine that was started over these. -/
def started : Machine := asked textual [.bootstrap]

end Samples

/-! ## Names of the bootstrap loader -/

/-- The bootstrap loader never knows two classes by a name but that of the char arrays, it has defined no two classes
of a name, and what it takes a name for does not change with a request. -/
theorem bootstrap_names_unique {m : Machine} (h : Attained m) :
    (∀ n c d, n ≠ Machine.charArrayName → (n, c) ∈ (m.loaderAt 0).classes → (n, d) ∈ (m.loaderAt 0).classes →
      c = d) ∧
    (∀ c d, c.index < m.classes.size → d.index < m.classes.size → (m.classAt c).loader = 0 → (m.classAt d).loader = 0 →
      (m.classAt c).primitive = none → (m.classAt d).primitive = none →
      (m.classAt c).name = (m.classAt d).name → (m.classAt c).name ≠ Machine.charArrayName → c = d) ∧
    ∀ level r n c, m.loaded? 0 n = some c → (m.perform level r).loaded? 0 n = some c := by
  have hm := h.sound
  refine ⟨hm.alone, fun c d hc hd hloader hloader' hc' hd' hsame hn => ?_, fun level r n c hknown => ?_⟩
  · have hknown := hm.known c hc hc'
    have hknown' := hm.known d hd hd'
    rw [hloader] at hknown
    rw [hloader', ← hsame] at hknown'
    exact hm.alone _ c d hn hknown hknown'
  · refine (grows_perform hm level r).evolves.loaded? hknown ?_
    rintro rfl
    exact Option.isSome_of_eq_some hknown

open Samples in
/-- After the start the class of strings is the only one of its name, and the class of char arrays stays what it is. -/
theorem bootstrap_names_unique_started :
    ("java/lang/String", ⟨14⟩) ∈ (started.loaderAt 0).classes ∧
      (∀ c, ("java/lang/String", c) ∈ (started.loaderAt 0).classes → c = ⟨14⟩) ∧
      ∀ level r, (started.perform level r).loaded? 0 Machine.charArrayName = some ⟨15⟩ := by
  have hevents : ("java/lang/String", ⟨14⟩) ∈ (started.loaderAt 0).classes ∧
      started.loaded? 0 Machine.charArrayName = some ⟨15⟩ := by decide +kernel
  obtain ⟨hstring, hchars⟩ := hevents
  obtain ⟨hunique, -, hstays⟩ := bootstrap_names_unique (attained_asked textual [.bootstrap])
  exact ⟨hstring, fun c hc => hunique _ c _ (by decide) hc hstring, fun level r => hstays level r _ _ hchars⟩

open Samples in
/-- The class of char arrays is made a second time where making it needs a string: its interface has a constant for
which it is made first. -/
theorem charArray_made_twice :
    (Machine.charArrayName, ⟨13⟩) ∈ (started.loaderAt 0).classes ∧
      (Machine.charArrayName, ⟨15⟩) ∈ (started.loaderAt 0).classes := by
  decide +kernel

end JavaMachine
