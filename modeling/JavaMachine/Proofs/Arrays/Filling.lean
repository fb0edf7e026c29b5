import JavaMachine.Proofs.Initialization.Definition
import JavaMachine.Proofs.Loading.Leads
import JavaMachine.Proofs.Machine.Lax

/-!
Everything the machine does leaves arrays with what they may hold, by the classes of a machine to come. Most of it does not
touch arrays, or tests what it puts there. What is left are the arrays of mirrors, of strings and of descriptions of fields
that the machine itself makes: it asks the bootstrap loader for their classes by name, and loads are `Truthful`, so these are
the classes that the loader knows by those names.

Main results: `stocking_services`, by induction on the level, and `stocking_answering`, also under a watcher that leaves
machines alone which are as they should be.
-/

namespace JavaMachine

open M Throwing

/-- A machine finds another stocked, if its classes can judge and the other persists in it. -/
def Machine.Approves (f m : Machine) : Prop := f.Judges → Persists m f → f.Stocked m

/-- A change that leaves a machine stocked by the classes of another, and its setup alone where that approves. -/
structure Stocking (f : Machine) (_ : Ending) (a b : Machine) : Prop extends Stocks f a b where
  options : f.Approves a → b.options = a.options

variable {f a b c m : Machine} {e e' : Ending} {s : Services}

theorem Stocks.approves (h : Stocks f a b) (ha : f.Approves a) : f.Approves b := fun hf hc =>
  h.stocked hf hc (ha hf (h.persists.trans hc))

/-! ## Changes -/

namespace Stocks

open Machine

/-- A change of a class that keeps its core and its mirror, and events that are noted. -/
theorem updateClass (k : ClassId) (change : Class → Class) (journal : Journal) (core : ∀ k, (change k).core = k.core)
    (mirror : ∀ k, (change k).mirror = k.mirror) :
    Stocks f m { m with classes := m.classes.modify k.index change, journal } :=
  (stocks_updateClass core (mirror _)).trans (.ofSame (fun _ => rfl) rfl (fun _ => rfl) rfl rfl rfl rfl id)

/-- A loader learns of a class that is there. -/
theorem record {l : Nat} {name : String} {c : ClassId} (h : f.Stocked m → c.index < m.classes.size) :
    Stocks f m (m.record l name c) := by
  refine .ofLoaders (by simp) (fun l' => ?_) fun ha l' entry hentry => ?_
  · rw [← Machine.record, classes_record]
    split
    · exact List.subset_cons_self ..
    · exact List.Subset.refl _
  · rw [← Machine.record, classes_record] at hentry
    split at hentry
    · rcases List.mem_cons.1 hentry with rfl | hentry
      · exact h ha
      · exact ha.listed l' entry hentry
    · exact ha.listed l' entry hentry

/-- A loader that was told of a class knows it. -/
theorem knows_record {name : String} {c : ClassId} (h : 0 < m.loaders.size) : (m.record 0 name c).Knows name c := by
  rw [Knows, classes_record, if_pos ⟨rfl, h⟩]
  exact List.mem_cons_self

/-- What a loader is defining does not matter. -/
theorem setDefining (l : Nat) (change : List String → List String) :
    Stocks f m { m with loaders := m.loaders.modify l fun x => { x with defining := change x.defining } } := by
  have hknown (l' : Nat) : ({ m with loaders := m.loaders.modify l fun x =>
      { x with defining := change x.defining } }.loaderAt l').classes = (m.loaderAt l').classes := by
    rw [loaderAt_modify]
    split <;> rfl
  refine .ofLoaders (by simp) (fun l' => hknown l' ▸ List.Subset.refl _) fun ha l' entry hentry => ?_
  rw [hknown] at hentry
  exact ha.listed l' entry hentry

/-- A class is added that has no mirror yet. -/
theorem addClass {k : Class} (h : k.mirror = none) : Stocks f m (m.addClass k).1 := by
  have hsize : (m.addClass k).1.classes.size = m.classes.size + 1 := Array.size_push ..
  have hold {c : ClassId} (hc : c.index < m.classes.size) : (m.addClass k).1.classAt c = m.classAt c := by
    rw [classAt_addClass, if_neg (Nat.ne_of_lt hc)]
  have hc : Persists m (m.addClass k).1 :=
    ⟨hsize ▸ Nat.le_succ _, fun c hc => by rw [hold hc], Nat.le_refl _, fun _ => List.Subset.refl _, Nat.le_refl _,
      fun _ _ => rfl, id⟩
  refine ⟨hc, fun _ _ ha => ha.onward hc rfl (fun c r hr => .inl ?_) (fun _ => .inl) (fun _ => .inl) fun _ _ => .inl⟩
  rw [classAt_addClass] at hr
  split at hr
  · cases h.symm.trans hr
  · exact hr

/-- A class of arrays is added, and loaders learn of it. -/
theorem addArrayClass {k : Class} (asked : Nat) (h : k.mirror = none) : Stocks f m (m.addArrayClass k asked).2 := by
  let added : Machine := { (m.addClass k).1 with
    classes := (m.addClass k).1.classes.modify m.classes.size fun k => { k with instanceSlots := 0 } }
  have hsize : added.classes.size = m.classes.size + 1 := by
    rw [Array.size_modify]
    exact Array.size_push ..
  have hadded : Stocks f m added :=
    (addClass h).trans (updateClass ⟨m.classes.size⟩ (fun k => { k with instanceSlots := 0 }) _ (fun _ => rfl) fun _ => rfl)
  have hrecord (m' : Machine) (hm' : m'.classes.size = m.classes.size + 1) (l : Nat) :
      Stocks f m' (m'.record l k.name ⟨m.classes.size⟩) := .record fun _ => hm' ▸ Nat.lt_succ_self _
  have howner := hadded.trans (hrecord added hsize k.loader)
  rw [Machine.addArrayClass]
  dsimp only
  split
  · exact howner
  · exact howner.trans (hrecord (added.record k.loader k.name ⟨m.classes.size⟩) hsize asked)

/-- The bootstrap loader knows a class of arrays that it was asked for. -/
theorem knows_addArrayClass {k : Class} (h : 0 < m.loaders.size) :
    (m.addArrayClass k 0).2.Knows k.name (m.addArrayClass k 0).1 := by
  have hrecord {m' : Machine} (hm' : m'.loaders.size = m.loaders.size) :
      (m'.record 0 k.name ⟨m.classes.size⟩).Knows k.name ⟨m.classes.size⟩ := knows_record (hm' ▸ h)
  rw [Machine.addArrayClass]
  dsimp only
  split
  · next hl =>
    rw [← hl]
    exact hrecord rfl
  · exact hrecord (by simp [Machine.record, Machine.addClass])

/-- The machine takes a class for that of strings. -/
theorem setString {c : ClassId} (h : f.Stocked m → m.Knows "java/lang/String" c) :
    Stocks f m { m with stringClass := some c } := by
  have hc : Persists m { m with stringClass := some c } := .ofSame (fun _ => rfl) rfl rfl rfl id
  refine ⟨hc, fun _ _ ha => ha.onward hc rfl (fun _ _ => .inl) (fun _ => .inl) (fun _ hs => .inr ?_) fun _ _ => .inl⟩
  cases hs
  exact h ha

/-- The machine takes a class for that of mirrors. -/
theorem setMirrors {c : ClassId} (h : f.Stocked m → m.Knows "java/lang/Class" c) :
    Stocks f m { m with classClass := some c } := by
  have hc : Persists m { m with classClass := some c } := .ofSame (fun _ => rfl) rfl rfl rfl id
  refine ⟨hc, fun _ _ ha => ha.onward hc rfl (fun _ _ => .inl) (fun _ hs => .inr ?_) (fun _ => .inl) fun _ _ => .inl⟩
  cases hs
  exact h ha

end Stocks

/-! ## Changes that keep the setup -/

namespace Stocking

theorem of_stocks (h : Stocks f a b) (options : b.options = a.options) : Stocking f e a b := ⟨h, fun _ => options⟩

theorem trans (h : Stocking f e a b) (h' : Stocking f e' b c) : Stocking f e' a c :=
  ⟨h.toStocks.trans h'.toStocks, fun ha => (h'.options (h.approves ha)).trans (h.options ha)⟩

theorem refl (m : Machine) : Stocking f e m m := of_stocks (.refl m) rfl

theorem ended (h : Stocking f e a b) : Stocking f e' a b := ⟨h.toStocks, h.options⟩

theorem of_minor (h : Minor a b) : Stocking f e a b := of_stocks (h.stocks f) h.options

/-- A change that is fine if what was before is. -/
theorem thenStocks (h : Stocking f e a b) (persists : Persists b c) (options : c.options = b.options)
    (stocks : f.Judges → Persists b f → f.Stocked a → Stocks f b c) : Stocking f e' a c where
  persists := h.persists.trans persists
  stocked hf hc ha := by
    have hb := persists.trans hc
    exact (stocks hf hb ha).stocked hf hc (h.stocked hf hb ha)
  options ha := options.trans (h.options ha)

theorem of_reframed (h : Reframed a b) : Stocking f e a b := by
  rw [h.same]
  exact of_stocks (.ofSame (fun _ => rfl) rfl (fun _ => rfl) rfl rfl rfl rfl id) rfl

end Stocking

instance : Frameless (Stocking f) where
  minor := .of_minor
  trans := .trans
  calm h h' := h.trans (.of_minor h')
  stored _ := .of_stocks (.ofSame (fun _ => rfl) rfl (fun _ => rfl) rfl rfl rfl rfl id) rfl
  enter c state _ := .of_stocks (.updateClass c (fun k => { k with state }) _ (fun _ => rfl) fun _ => rfl) rfl
  note _ := .of_stocks (.ofSame (fun _ => rfl) rfl (fun _ => rfl) rfl rfl rfl rfl id) rfl
  reframe := .of_reframed
  reframed h h' := h.trans (.of_reframed h')
  halted := .ended

instance : Forgetful (Stocking f) where
  setEntry _ _ _ := .of_stocks (stocks_updateClass (fun _ => rfl) rfl) rfl

instance : Learning (Stocking f) where
  record _ _ c h := .of_stocks (.record fun hm => h.elim id fun ⟨l, n, hc⟩ => hm.listed l (n, c) hc) rfl
  beginDefine l name := .of_stocks (.setDefining l (name :: ·)) rfl
  endDefine l name h := h.trans (.of_stocks (.setDefining l (·.erase name)) rfl)
  arrays _ asked _ h := .of_stocks (.addArrayClass asked h) (by rw [Machine.addArrayClass]; dsimp only; split <;> rfl)

/-! ## What loads find -/

/-- What the bootstrap loader finds for a name it knows by that name. -/
structure Truthful (s : Services) : Prop where
  load : ∀ name m, Attempt.Ends (s.load 0 name) m (fun c m' => 0 < m.loaders.size → m'.Knows name c) fun _ => True

open Attempt in
/-- What is left behind by what keeps the machine stocked. -/
theorem Attempt.Keeps.ends {α : Type} {act : Attempt α} (h : Attempt.Keeps (Stocking f) act) (m : Machine) :
    Ends act m (fun _ m' => Persists m m') fun _ => True := by
  have hact := h m
  unfold After at hact
  refine ⟨?_⟩
  generalize act.run m = r at *
  rcases r with ⟨_ | _, _⟩ | _
  · trivial
  · exact hact.persists
  · trivial

/-- A load keeps the machine stocked and finds what the bootstrap loader knows by the name. -/
theorem Truthful.after_load (h : Truthful s) (hs : Hosted (Stocking f) s) (l : Nat) (name : String) (m : Machine) :
    After (s.load l name).run m
      (fun r m' => Stocking f .done m m' ∧ ∀ c, r = .ok c → l = 0 → 0 < m.loaders.size → m'.Knows name c)
      (Stocking f .halted m) := by
  have hkeeps := hs.load l name m
  unfold After at *
  cases hr : (s.load l name).run m with
  | error _ _ =>
    rw [hr] at hkeeps
    exact hkeeps
  | ok r m' =>
    rw [hr] at hkeeps
    refine ⟨hkeeps, fun c hc hl hm => ?_⟩
    subst hc hl
    have hends := (h.load name m).outcome
    rw [hr] at hends
    exact hends hm

namespace Linking

open Attempt

section truthful

variable (h : Hosted (Stocking f) s)
include h

theorem ends_arrayClass_knows (name : String) (m : Machine) :
    Ends (arrayClass s 0 name) m (fun c m' => 0 < m.loaders.size → m'.Knows name c) fun _ => True := by
  unfold arrayClass
  refine ends_failIf_bind (fun _ => trivial) fun _ => ?_
  refine ((keeps_describedClass h).ends m).bind fun component m₁ h₁ => ?_
  rw [ends_classAt_bind, ends_get_bind]
  split
  · refine ends_modify_bind.2 (ends_pure fun hm => ?_)
    exact Stocks.knows_record (Nat.lt_of_lt_of_le hm h₁.loaders)
  · refine ((h.load 0 _).ends m₁).bind fun object m₂ h₂ => ?_
    refine ((h.load 0 _).ends m₂).bind fun cloneable m₃ h₃ => ?_
    refine ((h.load 0 _).ends m₃).bind fun serializable m₄ h₄ => ?_
    rw [ends_classAt_bind, ends_classAt_bind, ends_classAt_bind, ends_classAt_bind]
    refine ⟨fun hm => Stocks.knows_addArrayClass (k := Class.mk ..) ?_⟩
    exact Nat.lt_of_lt_of_le hm (h₁.trans (h₂.trans (h₃.trans h₄))).loaders

theorem stocking_ensureStringClasses (ht : Truthful s) : Attempt.Keeps (Stocking f) (ensureStringClasses s) := by
  have hchars : Attempt.Keeps (Stocking f) (ensureCharArrayClass s) := by
    unfold ensureCharArrayClass
    refine Attempt.keeps_bind Attempt.keeps_get fun m => ?_
    split
    · refine Attempt.keeps_bind h.loadBoot fun c => Attempt.keeps_modify fun m => ?_
      exact .of_stocks (.ofSame (fun _ => rfl) rfl (fun _ => rfl) rfl rfl rfl rfl id) rfl
    · exact Attempt.keeps_pure
  refine Attempt.keeps_bind hchars fun _ m => ?_
  rw [Attempt.after_bind_iff, Attempt.after_get_iff]
  dsimp only
  split
  · rw [Attempt.after_bind_iff]
    refine (ht.after_load h 0 _ m).mono (fun r m₁ ⟨hload, hknown⟩ => ?_) fun _ => id
    cases r with
    | error e => exact hload
    | ok c =>
      refine hload.thenStocks (.ofSame (fun _ => rfl) rfl rfl rfl id) rfl fun _ _ hm => ?_
      exact .setString fun _ => hknown c rfl rfl hm.loaders
  · exact .refl m

theorem stocking_seed (ht : Truthful s) {c : ClassId} {fields : List Field} :
    Attempt.Keeps (Stocking f) (seed s c fields) :=
  keeps_seed (fun _ _ => Resolution.keeps_remember) (stocking_ensureStringClasses h ht)

theorem stocking_publish (ht : Truthful s) (l : Nat) (k : Class) (_ : k.state = .unlinked) (hmirror : k.mirror = none) :
    Attempt.Keeps (Stocking f) (publish s l k) := by
  unfold publish
  refine Attempt.keeps_bind (Attempt.keeps_modifyGet fun m => ?_) fun c => ?_
  · refine .of_stocks ((Stocks.addClass hmirror).trans (.record fun _ => ?_)) rfl
    simp [Machine.addClass]
  · refine Attempt.keeps_bind (Attempt.keeps_lift keeps_classAt) fun k => ?_
    refine Attempt.keeps_bind (stocking_seed h ht) fun _ => ?_
    exact Attempt.keeps_bind (Attempt.keeps_lift keeps_setState) fun _ => Attempt.keeps_pure

theorem ends_publish_knows (ht : Truthful s) (k : Class) (m : Machine) :
    Ends (publish s 0 k) m (fun c m' => 0 < m.loaders.size → m'.Knows k.name c) fun _ => True := by
  unfold publish
  rw [ends_modifyGet_bind, ends_classAt_bind]
  refine ((stocking_seed h ht).ends _).bind fun _ m₁ h₁ => ?_
  refine (Attempt.Keeps.ends (f := f) (Attempt.keeps_lift keeps_setState) m₁).bind fun _ m₂ h₂ => ends_pure fun hm => ?_
  exact (h₁.trans h₂).knows (Stocks.knows_record (m := (m.addClass k).1) hm)

theorem ends_defineMarked_knows (ht : Truthful s) (cf : ClassFile) (size : Nat) (source : String) (m : Machine) :
    Ends (defineMarked s 0 cf size source) m (fun c m' => 0 < m.loaders.size → m'.Knows cf.className c) fun _ => True := by
  unfold defineMarked
  refine (Attempt.Keeps.ends (f := f) keeps_refuseKnown m).bind fun _ m₁ h₁ => ?_
  split
  · exact ends_throw trivial
  · exact ends_outside trivial
  · next k hk =>
    simp only [resolveSupertypes, bind_assoc, pure_bind]
    refine ((keeps_superclass h).ends m₁).bind fun super m₂ h₂ => ?_
    refine ((keeps_superinterfaces h).ends m₂).bind fun interfaces m₃ h₃ => ?_
    refine (ends_publish_knows h ht { k with super, interfaces } m₃).bind fun c m₄ hknown => ?_
    refine (Attempt.Keeps.ends (f := f) (Attempt.keeps_lift keeps_reportLoaded) m₄).bind fun _ m₅ h₅ => ends_pure fun hm => ?_
    obtain ⟨-, -, hname⟩ := of_ofFile hk
    exact h₅.knows (hname ▸ hknown (Nat.lt_of_lt_of_le hm (h₁.trans (h₂.trans h₃)).loaders))

theorem ends_defineClass_knows (ht : Truthful s) {name : String} (hne : name ≠ "") (data : List UInt8) (source : String)
    (m : Machine) :
    Ends (defineClass s 0 name data source) m (fun c m' => 0 < m.loaders.size → m'.Knows name c) fun _ => True := by
  unfold defineClass
  split
  · split
    · exact ends_throw trivial
    · exact ends_throw trivial
  · next cf hcf =>
    refine ends_failIf_bind (fun _ => trivial) fun hnamed => ?_
    have hname : cf.className = name := by simpa [hne] using hnamed
    rw [ends_get_bind]
    refine ends_some!_bind (fun _ => trivial) fun loader _ => ?_
    refine ends_failIf_bind (fun _ => trivial) fun _ => ?_
    rw [ends_modify_bind]
    refine ends_ensuring ((ends_defineMarked_knows h ht cf data.length source _).mono (fun c m' hknown hm => ?_) fun _ => id)
    have hend : Persists m' (m'.endDefine 0 cf.className) :=
      (Stocks.setDefining (f := f) 0 (·.erase cf.className)).persists
    exact hend.knows (hname ▸ hknown (by simpa [Machine.beginDefine] using hm))

theorem ends_loadFile_knows (ht : Truthful s) {name : String} (hne : name ≠ "") (m : Machine) :
    Ends (loadFile s name) m (fun c m' => 0 < m.loaders.size → m'.Knows name c) fun _ => True := by
  unfold loadFile
  rw [ends_get_bind]
  refine ends_onStorage_bind fun r storage => ?_
  split
  · exact ends_throw trivial
  · exact ends_defineClass_knows h ht hne _ _ _

theorem ends_loadThrough_knows (loader : Ref) (name : String) (m : Machine) :
    Ends (loadThrough s 0 loader name) m (fun c m' => 0 < m.loaders.size → m'.Knows name c) fun _ => True := by
  have hrefuse (owner : ClassId) (m : Machine) (P : ClassId → Machine → Prop) :
      Ends (loadThrough.refuse name owner) m P fun _ => True :=
    ends_classAt_bind.2 (ends_fail trivial)
  unfold loadThrough
  rw [ends_get_bind]
  dsimp only
  split
  · split
    · exact hrefuse _ _ _
    · refine (Attempt.Keeps.ends (f := f) (Attempt.keeps_lift keeps_newString) m).bind fun argument m₁ h₁ => ?_
      refine (Attempt.Keeps.ends (f := f) (Attempt.keeps_tryCatch (h.invoke _ _) fun e => ?_) m₁).bind fun result m₂ h₂ => ?_
      · refine Attempt.keeps_bind Attempt.keeps_get fun m => ?_
        split
        · exact Attempt.keeps_throw
        · exact Attempt.keeps_throw
      · refine ends_some!_bind (fun _ => trivial) fun slot _ => ?_
        rw [ends_get_bind]
        split
        · rw [ends_classAt_bind]
          refine ends_failIf_bind (fun _ => trivial) fun _ => ends_modify_bind.2 (ends_pure fun hm => ?_)
          exact Stocks.knows_record (Nat.lt_of_lt_of_le hm (h₁.trans h₂).loaders)
        · exact ends_fail trivial
  · exact hrefuse _ _ _

theorem ends_loadClass_knows (ht : Truthful s) (name : String) (m : Machine) :
    Ends (loadClass s 0 name) m (fun c m' => 0 < m.loaders.size → m'.Knows name c) fun _ => True := by
  unfold loadClass
  rw [ends_get_bind]
  split
  · next c hc => exact ends_pure fun _ => Machine.mem_of_loaded? hc
  · split
    · exact ends_fail trivial
    · next hne =>
      split
      · exact ends_arrayClass_knows h name m
      · rw [ends_loaderMirror_bind]
        split
        · exact ends_loadFile_knows h ht hne m
        · exact ends_loadThrough_knows h _ name m

end truthful

end Linking

/-! ## Arrays that the machine fills -/

/-- Actions that are lifted one by one, or together. -/
theorem Attempt.mapM_lift {α β : Type} (act : α → M β) (xs : List α) :
    (xs.mapM fun x => (liftM (act x) : Attempt β)) = liftM (xs.mapM act) := by
  induction xs with
  | nil => rfl
  | cons x xs ih => simp [List.mapM_cons, ih]

theorem Machine.descriptor_filled :
    ∀ n ∈ filled, n.startsWith "[" = false ∧ "[" ++ Descriptor.ofClassName n = "[L" ++ n ++ ";" := by decide +kernel

section filling

/-- A value is null or an object of the class that the loader knows by a name, if an earlier machine was stocked. -/
def Machine.Made (f before : Machine) (n : String) (v : Option Ref) (m : Machine) : Prop :=
  ∀ r, v = some r → f.Judges → Persists m f → f.Stocked before → ∃ c, m.Refers r c ∧ m.Knows n c

variable {before : Machine} {n : String} {v : Option Ref}

theorem Machine.Made.mono (hv : f.Made before n v a) (h : Persists a b) : f.Made before n v b := fun r hr hf hc hm =>
  (hv r hr hf (h.trans hc) hm).imp fun _ => .imp h.refers h.knows

theorem M.after_mirrors (h : Stocks f before m) (classes : List ClassId) :
    After (classes.mapM fun c => (some <$> mirror c : M (Option Ref))) m
      (fun values m' => Minor m m' ∧ ∀ v ∈ values, f.Made before "java/lang/Class" v m') (Minor m) := by
  refine after_mapM_minor (fun hminor hv => hv.mono hminor.persists) (fun c m' hm' => ?_) classes (.refl m)
  refine (after_mirror c m').bind fun r m'' ⟨hminor, hr⟩ => ⟨hminor, ?_⟩
  rintro _ ⟨⟩ hf hc hm
  exact hr f hf hc ((h.trans (hm'.stocks f)).stocked hf (hminor.persists.trans hc) hm)

theorem M.after_newStrings (h : Stocks f before m) (texts : List String) :
    After (texts.mapM fun t => (some <$> newString t : M (Option Ref))) m
      (fun values m' => Minor m m' ∧ ∀ v ∈ values, f.Made before "java/lang/String" v m') (Minor m) := by
  refine after_mapM_minor (fun hminor hv => hv.mono hminor.persists) (fun t m' hm' => ?_) texts (.refl m)
  refine (after_newStringUnits _ m').bind fun r m'' ⟨hminor, c, hc, hr⟩ => ⟨hminor, ?_⟩
  rintro _ ⟨⟩ hf hcf hm
  have hm' := (h.trans (hm'.stocks f)).stocked hf (hminor.persists.trans hcf) hm
  exact ⟨c, hr, hminor.persists.knows (hm'.stringClass c hc)⟩

/-- An array of a class that the loader knows by name is filled with what is of the class of its elements. -/
theorem Stocking.fill {array : Ref} {d : ClassId} {values : List (Option Ref)} (hn : n ∈ Machine.filled)
    (h : Stocking f e before m) (harray : m.Refers array d)
    (hclass : f.Judges → Persists m f → f.Stocked before → m.Knows ("[L" ++ n ++ ";") d)
    (hvalues : ∀ v ∈ values, f.Made before n v m) :
    Stocking f e' before
      { m with heap := m.heap.modify array.index fun o => { o with elements := some (.refs values.toArray) } } := by
  refine h.thenStocks (Stocks.persists_updateObject rfl) rfl fun hf hc hm₀ => .updateObject rfl fun _ _ hm refs he => .inr ?_
  cases he
  intro v hv
  obtain ⟨c, hrefers, hknown⟩ := hvalues (some v) (by simpa using hv) v rfl hf hc hm₀
  rw [harray.owner]
  exact hf.fills hc hm hn (hclass hf hc hm₀) hrefers hknown

variable (h : Hosted (Stocking f) s) (ht : Truthful s)
include h ht

/-- The class of arrays of a class that the machine makes arrays of is what the loader knows by its name. -/
theorem Linking.after_arrayClassOf (k : ClassId) (m : Machine) :
    After (arrayClassOf s k).run m
      (fun r m' => Stocking f .done m m' ∧ ∀ d, r = .ok d → f.Judges → Persists m f → f.Stocked m →
        ∀ n ∈ Machine.filled, m.Knows n k → m'.Knows ("[L" ++ n ++ ";") d)
      (Stocking f .halted m) := by
  unfold arrayClassOf
  rw [Attempt.after_bind_iff, Attempt.after_lift_iff, after_classAt]
  dsimp only
  rw [Attempt.after_bind_iff, Attempt.after_lift_iff]
  refine (after_isArrayClass k m).mono ?_ ?_
  rotate_left
  · rintro _ rfl
    exact .refl _
  rintro _ m ⟨rfl, -, rfl⟩
  refine (ht.after_load h _ _ m).mono (fun r m' ⟨hload, hknown⟩ => ⟨hload, fun d hd hf hc hm n hn hk => ?_⟩) fun _ => id
  obtain ⟨hname, hloader, hprimitive⟩ := hf.named n hn k (hc.knows hk)
  have hvalid : k.index < m.classes.size := hm.listed 0 _ hk
  rw [hc.part hvalid Class.name fun _ => rfl] at hname
  rw [hc.part hvalid Class.loader fun _ => rfl] at hloader
  rw [hc.part hvalid Class.primitive fun _ => rfl] at hprimitive
  obtain ⟨hplain, harray⟩ := Machine.descriptor_filled n hn
  rw [← harray]
  rw [Class.isArray, Class.descriptor, hprimitive, hname, hplain] at hknown
  exact hknown d hd hloader hm.loaders

theorem Linking.stocking_newStringArray (texts : List String) : Attempt.Keeps (Stocking f) (newStringArray s texts) := by
  intro m
  unfold newStringArray
  rw [Attempt.after_bind_iff, Attempt.after_get_iff]
  dsimp only
  cases hstring : m.stringClass with
  | none => exact .refl m
  | some k =>
    change After ((arrayClassOf s k >>= _ : Attempt Ref)).run m _ _
    rw [Attempt.after_bind_iff]
    refine (Linking.after_arrayClassOf h ht k m).mono (fun r m₁ ⟨h₁, hclass⟩ => ?_) fun _ => id
    cases r with
    | error e => exact h₁
    | ok d =>
      have hkeep {e : Ending} {m' : Machine} (h' : Minor m₁ m') : Stocking f e m m' := h₁.trans (.of_minor h')
      simp only [Attempt.mapM_lift]
      rw [Attempt.after_bind_iff, Attempt.after_lift_iff]
      refine (after_newArray d _ m₁).mono (fun array m₂ ⟨h₂, harray⟩ => ?_) fun _ => hkeep
      dsimp only
      rw [Attempt.after_bind_iff, Attempt.after_lift_iff]
      refine (after_newStrings (h₁.toStocks.trans (h₂.stocks f)) texts).mono (fun strings m₃ ⟨h₃, hmade⟩ => ?_)
        fun _ h₃ => hkeep (h₂.trans h₃)
      have hfull : Stocking f .done m m₃ := hkeep (h₂.trans h₃)
      refine hfull.fill (n := "java/lang/String") (by decide) (h₃.persists.refers harray) (fun hf hc hm => ?_) hmade
      have hknown := hclass d rfl hf (hfull.persists.trans hc) hm _ (by decide) (hm.stringClass k hstring)
      exact (h₂.trans h₃).persists.knows hknown

theorem Boot.stocking_bootstrap : Attempt.Keeps (Stocking f) (bootstrap s) := by
  have hstrings := Linking.stocking_ensureStringClasses h ht
  unfold bootstrap
  refine Attempt.keeps_inContext (Attempt.keeps_bind h.loadBoot fun _ m => ?_)
  rw [Attempt.after_bind_iff]
  refine (ht.after_load h 0 _ m).mono (fun r m₁ ⟨hload, hknown⟩ => ?_) fun _ => id
  cases r with
  | error e => exact hload
  | ok c =>
    have hset : Stocking f .done m { m₁ with classClass := some c } := by
      refine hload.thenStocks (.ofSame (fun _ => rfl) rfl rfl rfl id) rfl fun _ _ hm => ?_
      exact .setMirrors fun _ => hknown c rfl rfl hm.loaders
    exact (hstrings { m₁ with classClass := some c }).mono (fun _ _ => hset.trans) fun _ => hset.trans

end filling

namespace Native

variable (h : Working (Stocking f) (Stocking f) s)
include h

omit h in
/-- What comes after an action that keeps the machine stocked. -/
theorem after_keeping {α β : Type} {act : M α} {next : α → M β} {before : Machine} {Q : β → Machine → Prop}
    (hm : Stocking f .done before m) (hact : Keeps (Stocking f) act)
    (hnext : ∀ a m', Stocking f .done before m' → Persists m m' → After (next a) m' Q (Stocking f .halted before)) :
    After (act >>= next) m Q (Stocking f .halted before) :=
  ((hact m).mono (fun _ _ => id) fun _ => hm.trans).bind fun a m' h' => hnext a m' (hm.trans h') h'.persists

/-- What comes after an attempt, where throwing keeps the machine stocked. -/
theorem after_orThrow {α : Type} {act : Attempt α} {next : α → M Unit} {before : Machine}
    (hact : After act.run m
      (fun r m' => Stocking f .done before m' ∧
        ∀ a, r = .ok a → After (next a) m' (fun _ => Stocking f .done before) (Stocking f .halted before))
      (Stocking f .halted before)) :
    After (orThrow s act next) m (fun _ => Stocking f .done before) (Stocking f .halted before) := by
  have hthrow (e : Failure) : Keeps (Stocking f) (throwFailure s e) := (closes_throwFailure h).mono Closing.same
  rw [orThrow, after_bind_iff]
  refine hact.mono (fun r m' ⟨hkeep, hnext⟩ => ?_) fun _ => id
  cases r with
  | error e => exact (hthrow e m').mono (fun _ _ => hkeep.trans) fun _ => hkeep.trans
  | ok a => exact hnext a rfl

variable (ht : Truthful s)
include ht

theorem stocking_interfacesOf : Keeps (Stocking f) (interfacesOf s) := by
  unfold interfacesOf
  refine keeps_bind keeps_receiverClass fun c => keeps_bind keeps_classAt fun k m => after_orThrow h ?_
  refine (ht.after_load h.toHosted 0 _ m).mono (fun _ m₁ ⟨h₁, hknown⟩ => ⟨h₁, fun d hd => ?_⟩) fun _ => id
  have hkeep {e : Ending} {m' : Machine} (h' : Minor m₁ m') : Stocking f e m m' := h₁.trans (.of_minor h')
  refine ((after_newArray d _ m₁).mono (fun _ _ => id) fun _ => hkeep).bind fun array m₂ ⟨h₂, harray⟩ => ?_
  have hmirrors := after_mirrors (h₁.toStocks.trans (h₂.stocks f)) k.interfaces
  refine (hmirrors.mono (fun _ _ => id) fun _ h₃ => hkeep (h₂.trans h₃)).bind fun mirrors m₃ ⟨h₃, hmade⟩ => ?_
  have hfull : Stocking f .done m m₃ := hkeep (h₂.trans h₃)
  have hset : Stocking f .done m { m₃ with heap := m₃.heap.modify array.index fun o =>
      { o with elements := some (.refs mirrors.toArray) } } := by
    refine hfull.fill (n := "java/lang/Class") (by decide) (h₃.persists.refers harray) (fun _ _ hm => ?_) hmade
    exact (h₂.trans h₃).persists.knows (hknown d hd rfl hm.loaders)
  exact (keeps_pushRef (R := Stocking f) _).mono (fun _ _ => hset.trans) fun _ => hset.trans

/-- What is done with a new object of a class that is loaded by name. -/
theorem after_withNew {name : String} {next : Ref → M Unit} {before : Machine} (hm : Stocking f .done before m)
    (hnext : ∀ r m', Stocking f .done before m' → Persists m m' → f.Made before name (some r) m' →
      After (next r) m' (fun _ => Stocking f .done before) (Stocking f .halted before)) :
    After (withNew s name next) m (fun _ => Stocking f .done before) (Stocking f .halted before) := by
  unfold withNew
  refine after_orThrow h ((ht.after_load h.toHosted 0 name m).mono (fun _ m₁ ⟨h₁, hknown⟩ => ?_) fun _ => hm.trans)
  refine ⟨hm.trans h₁, fun c hc => after_orThrow h ((h.initClass c m₁).mono (fun _ m₂ h₂ => ?_) fun _ h₂ => ?_)⟩
  · refine ⟨(hm.trans h₁).trans h₂, fun _ _ => ?_⟩
    have hkeep {e : Ending} {m₃ : Machine} (h₃ : Minor m₂ m₃) : Stocking f e before m₃ :=
      ((hm.trans h₁).trans h₂).trans (.of_minor h₃)
    refine ((after_newObject c m₂).mono (fun _ _ => id) fun _ => hkeep).bind fun r m₃ ⟨h₃, hr⟩ => ?_
    refine hnext r m₃ (hkeep h₃) (h₁.persists.trans (h₂.persists.trans h₃.persists)) ?_
    rintro _ ⟨⟩ _ _ hstocked
    have hloaders : 0 < m.loaders.size := Nat.lt_of_lt_of_le hstocked.loaders hm.persists.loaders
    exact ⟨c, hr, (h₂.persists.trans h₃.persists).knows (hknown c hc rfl hloaders)⟩
  · exact (hm.trans h₁).trans h₂

/-- Each description of a field is of the class that the loader knows by its name. -/
theorem after_fieldObjects {c : ClassId} {next : List (Option Ref) → M Unit} {before start : Machine} {fields : List Field}
    (hnext : ∀ made m', Stocking f .done before m' → Persists start m' →
      (∀ v ∈ made, f.Made before "java/lang/reflect/Field" v m') →
      After (next made) m' (fun _ => Stocking f .done before) (Stocking f .halted before))
    {made : List (Option Ref)} (hm : Stocking f .done before m) (hp : Persists start m)
    (hmade : ∀ v ∈ made, f.Made before "java/lang/reflect/Field" v m) :
    After (fieldObjects s c fields made next) m (fun _ => Stocking f .done before) (Stocking f .halted before) := by
  induction fields generalizing made m with
  | nil => exact hnext _ _ hm hp fun v hv => hmade v (List.mem_reverse.1 hv)
  | cons field rest ih =>
    unfold fieldObjects
    refine after_orThrow h ((keeps_typeClass h.toHosted m).mono (fun _ m₁ h₁ => ?_) fun _ => hm.trans)
    refine ⟨hm.trans h₁, fun type _ => after_withNew h ht (hm.trans h₁) fun r m₂ h₂ hp₂ hr => ?_⟩
    -- what is set in the description leaves the others what they are
    refine after_keeping h₂ keeps_mirror fun _ m₃ h₃ hp₃ => after_keeping h₃ keeps_setRefIfPresent fun _ m₄ h₄ hp₄ => ?_
    refine after_keeping h₄ keeps_intern fun _ m₅ h₅ hp₅ => after_keeping h₅ keeps_setRefIfPresent fun _ m₆ h₆ hp₆ => ?_
    refine after_keeping h₆ keeps_mirror fun _ m₇ h₇ hp₇ => after_keeping h₇ keeps_setRefIfPresent fun _ m₈ h₈ hp₈ => ?_
    refine after_keeping h₈ keeps_setIntIfPresent fun _ m₉ h₉ hp₉ => ?_
    refine after_keeping h₉ keeps_setIntIfPresent fun _ m' hm' hp' => ?_
    have hset : Persists m₂ m' :=
      hp₃.trans (hp₄.trans (hp₅.trans (hp₆.trans (hp₇.trans (hp₈.trans (hp₉.trans hp'))))))
    have hall : Persists m m' := h₁.persists.trans (hp₂.trans hset)
    exact ih hm' (hp.trans hall) (List.forall_mem_cons.2 ⟨hr.mono hset, fun v hv => (hmade v hv).mono hall⟩)

theorem stocking_declaredFields : Keeps (Stocking f) (declaredFields s) := by
  unfold declaredFields
  refine keeps_bind keeps_receiverClass fun c => keeps_bind keeps_localInt fun i m => after_orThrow h ?_
  refine (ht.after_load h.toHosted 0 _ m).mono (fun _ m₁ ⟨h₁, hknown⟩ => ⟨h₁, fun d hd => ?_⟩) fun _ => id
  rw [after_bind_iff, after_classAt]
  refine after_fieldObjects h ht (fun made m₂ h₂ hp₂ hmade => ?_) h₁ (.refl m₁) nofun
  have hkeep {e : Ending} {m' : Machine} (h' : Minor m₂ m') : Stocking f e m m' := h₂.trans (.of_minor h')
  refine ((after_newArray d _ m₂).mono (fun _ _ => id) fun _ => hkeep).bind fun array m₃ ⟨h₃, harray⟩ => ?_
  have hset : Stocking f .done m { m₃ with heap := m₃.heap.modify array.index fun o =>
      { o with elements := some (.refs made.toArray) } } := by
    refine Stocking.fill (n := "java/lang/reflect/Field") (by decide) (hkeep (e := .done) h₃) harray (fun _ _ hm => ?_)
      fun v hv => (hmade v hv).mono h₃.persists
    exact (hp₂.trans h₃.persists).knows (hknown d hd rfl hm.loaders)
  exact (keeps_pushRef (R := Stocking f) _).mono (fun _ _ => hset.trans) fun _ => hset.trans

theorem stocking_filling : Filling (Stocking f) (Stocking f) s where
  interfacesOf := (stocking_interfacesOf h ht).closes
  declaredFields := (stocking_declaredFields h ht).closes
  newStringArray := Linking.stocking_newStringArray h.toHosted ht

end Native

/-! ## Levels -/

namespace Watched

open Interpreter

variable {look : Machine → Machine} (hlook : ∀ m, Stocking f .done m (look m))
include hlook

/-- At every level what the machine does leaves arrays with what they may hold, and loads find what they should. -/
theorem stocking_services (n : Nat) :
    Serving (Stocking f) (services look Natives.standard n) ∧ Truthful (services look Natives.standard n) := by
  induction n with
  | zero => exact ⟨serving_silent (.of_load fun _ _ => keeps_throw), ⟨fun _ _ => ⟨trivial⟩⟩⟩
  | succ n ih =>
    obtain ⟨hserving, ht⟩ := ih
    have hpublish := Linking.stocking_publish hserving.toHosted ht
    have hload := Linking.keeps_loadClass hserving.toHosted hpublish
    have hdefine := Linking.keeps_defineClass hserving.toHosted hpublish
    have hfilling := Native.stocking_filling (hserving.toHosted.workingFrameless hdefine) ht
    exact ⟨serving_succ hlook hserving hload hdefine hfilling (.of_load hload),
      ⟨Linking.ends_loadClass_knows hserving.toHosted ht⟩⟩

/-- What the outside asks for leaves arrays with what they may hold. -/
theorem stocking_answering (n : Nat) : Answering (Stocking f) (services look Natives.standard n) := by
  obtain ⟨hserving, ht⟩ := stocking_services hlook n
  have h := hserving.toHosted
  exact h.answeringFrameless (Boot.stocking_bootstrap h ht) (Linking.stocking_newStringArray h ht)
    (Linking.keeps_define h (Linking.stocking_publish h ht))

end Watched

end JavaMachine
