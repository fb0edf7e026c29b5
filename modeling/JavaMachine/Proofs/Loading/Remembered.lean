import JavaMachine.Proofs.Loading.Resolution
import JavaMachine.Proofs.Machine.Lax

/-!
What pools remember. A property of a class is `Lasting` if neither slight changes nor the states of the class touch it;
such a property stays whatever the machine does, as long as resolution keeps it. An entry that was resolved is `Remembered`:
resolution never writes it again. Main results: `serving_remembers`, that everything the machine does keeps such an entry,
and `recalls_classEntry`, `recalls_fieldEntry` and `recalls_methodEntry`, that a reference that was resolved once is
resolved to the same from then on, without any change of the machine.
-/

namespace JavaMachine

open M

/-! ## Properties that last -/

/-- A property of classes that a class has only where it is there, and keeps in slight changes and whatever state it
enters. -/
class Lasting (P : Class → Prop) : Prop where
  there : ¬ P default
  slight : ∀ {a b : Machine} {c : ClassId}, Slight a b → P (a.classAt c) → P (b.classAt c)
  state : ∀ {k : Class} (state : ClassState), P k → P { k with state }

/-- A class keeps a property. -/
def Holding (P : Class → Prop) (c : ClassId) (_ : Ending) (a b : Machine) : Prop := P (a.classAt c) → P (b.classAt c)

variable {P : Class → Prop} {c : ClassId}

namespace Holding

variable {e : Ending} {a b : Machine}

theorem of_classes (h : b.classes = a.classes) : Holding P c e a b := by
  intro hp
  rwa [Machine.classAt, h]

theorem then_classes {d : Machine} (h : Holding P c e a b) (hd : d.classes = b.classes) : Holding P c e a d :=
  fun hp => of_classes (e := e) hd (h hp)

/-- A class that is there stays what it is when others are added. -/
theorem addClass [Lasting P] (k : Class) : Holding P c e a (a.addClass k).1 := by
  intro hp
  have hlt := a.lt_of_classAt hp Lasting.there
  rwa [Machine.classAt_addClass, if_neg (Nat.ne_of_lt hlt)]

theorem addArrayClass [Lasting P] (k : Class) (asked : Nat) : Holding P c e a (a.addArrayClass k asked).2 := by
  intro hp
  have hlt := a.lt_of_classAt hp Lasting.there
  have hslots : P ({ (a.addClass k).1 with
      classes := (a.addClass k).1.classes.modify a.classes.size fun k => { k with instanceSlots := 0 } }.classAt c) := by
    rw [Machine.classAt_modify (a.addClass k).1 ⟨a.classes.size⟩ c, if_neg]
    · exact addClass (e := e) k hp
    · rintro ⟨rfl, -⟩
      exact absurd hlt (Nat.lt_irrefl _)
  simp only [Machine.addArrayClass]
  split
  · exact hslots
  · exact hslots

end Holding

instance [Lasting P] : Frameless (Holding P c) where
  minor h := Lasting.slight h.toSlight
  trans h h' hp := h' (h hp)
  calm h hm hp := Lasting.slight hm.toSlight (h hp)
  stored _ := .of_classes rfl
  enter k state event hp := by
    rw [Machine.classAt_enter]
    split
    · exact Lasting.state state hp
    · exact hp
  note _ := .of_classes rfl
  reframe h := .of_classes (by rw [h.same])
  reframed h hr := h.then_classes (by rw [hr.same])
  halted := id

instance [Lasting P] : Careless (Holding P c) where
  slight := Lasting.slight

instance [Lasting P] : Defining (Holding P c) where
  loaders _ := .of_classes rfl
  afterLoaders _ h := h.then_classes rfl
  strings _ _ := .of_classes rfl
  arrays k asked _ := .addArrayClass k asked

/-- An action that is told that the class has the property. -/
theorem keeps_holding {α : Type} {act : M α}
    (h : ∀ m, P (m.classAt c) → After act m (fun _ b => P (b.classAt c)) fun b => P (b.classAt c)) :
    Keeps (Holding P c) act := by
  intro m
  unfold After
  split
  · next hact => exact fun hp => by simpa [After, hact] using h m hp
  · next hact => exact fun hp => by simpa [After, hact] using h m hp

section serving

variable [Lasting P] {s : Services}

omit [Lasting P] in
theorem Resolution.holding_remember {holder : ClassId} {index : Nat} {e : PoolEntry} (h : holder ≠ c) :
    Keeps (Holding P c) (remember holder index e) := by
  refine keeps_modify fun m hp => ?_
  rwa [Machine.classAt_modify, if_neg fun hk => h hk.1]

/-- A class that is added is another one, and so are the entries that its constants are remembered in. -/
theorem Linking.holding_publish (h : Hosted (Holding P c) s) (l : Nat) (k : Class) (_ : k.state = .unlinked)
    (_ : k.mirror = none) :
    Attempt.Keeps (Holding P c) (publish s l k) := by
  refine keeps_holding fun m hp => ?_
  have hlt := m.lt_of_classAt hp Lasting.there
  have hother : (⟨m.classes.size⟩ : ClassId) ≠ c := by
    rintro rfl
    exact Nat.lt_irrefl _ hlt
  rw [publish, Attempt.after_bind_iff, Attempt.after_modifyGet_iff]
  have hrest : Attempt.Keeps (Holding P c) (do
      seed s ⟨m.classes.size⟩ (← classAt ⟨m.classes.size⟩).fields
      setState ⟨m.classes.size⟩ .linked
      return (⟨m.classes.size⟩ : ClassId)) := by
    refine Attempt.keeps_bind (Attempt.keeps_lift keeps_classAt) fun k => ?_
    refine Attempt.keeps_bind (keeps_seed (fun _ _ => Resolution.holding_remember hother) (keeps_ensureStringClasses h)) ?_
    exact fun _ => Attempt.keeps_bind (Attempt.keeps_lift keeps_setState) fun _ => Attempt.keeps_pure
  have hadded : P (((m.addClass k).1.record l k.name ⟨m.classes.size⟩).classAt c) := Holding.addClass (e := .done) k hp
  exact (hrest _).mono (fun _ _ hkeep => hkeep hadded) fun _ hkeep => hkeep hadded

/-- Everything the machine does keeps a property that lasts, if resolution does. -/
theorem serving_holding
    (hresolving : ∀ s : Services, (∀ l name, Attempt.Keeps (Holding P c) (s.load l name)) → Resolving (Holding P c) s)
    (n : Nat) : Serving (Holding P c) (Interpreter.services Natives.standard n) := by
  -- each operation at level `n + 1` is built over those at level `n`
  induction n with
  | zero => exact Interpreter.serving_silent (hresolving _ fun _ _ => keeps_throw)
  | succ n ih =>
    have hpublish := Linking.holding_publish ih.toHosted
    have hload := Linking.keeps_loadClass ih.toHosted hpublish
    have hdefine := Linking.keeps_defineClass ih.toHosted hpublish
    exact Interpreter.serving_succ ih hload hdefine (.of_careless (ih.toHosted.workingFrameless hdefine)) (hresolving _ hload)

end serving

/-! ## Pools -/

/-- The pool of a class has an entry at an index. -/
def Class.HasEntry (index : Nat) (k : Class) : Prop := index < k.pool.size

instance (index : Nat) : Lasting (Class.HasEntry index) where
  there := Nat.not_lt_zero index
  slight {a b c} h hp := by
    have hlt := a.lt_of_classAt hp (Nat.not_lt_zero index)
    have hsize := congrArg (fun k : Class => k.pool.size) (h.toSteady.succeeds.plans c hlt)
    simp only [Class.plan, Array.size_map] at hsize
    rwa [Class.HasEntry, hsize]
  state _ := id

instance (index : Nat) : Forgetful (Holding (Class.HasEntry index) c) where
  setEntry k i e hp := by
    rw [Machine.setEntry, Machine.classAt_modify]
    split
    · rwa [Class.HasEntry, Array.size_setIfInBounds]
    · exact hp

/-- The entry at an index of the pool of a class was resolved, and remembers to what. -/
structure Class.Remembers (index : Nat) (e : PoolEntry) (k : Class) : Prop where
  resolved : e.Resolved
  entry : k.pool.getD index .empty = e

instance (index : Nat) (e : PoolEntry) : Lasting (Class.Remembers index e) where
  there h := by
    have he : PoolEntry.empty = e := h.entry
    exact (he ▸ h.resolved : PoolEntry.Resolved .empty)
  slight {a b c} h hp := by
    have hr : ((a.classAt c).pool.getD index .empty).Resolved := hp.entry ▸ hp.resolved
    exact ⟨hp.resolved, (h.resolved c index hr).trans hp.entry⟩
  state _ h := ⟨h.resolved, h.entry⟩

namespace Resolution

variable {s : Services} {holder : ClassId} {index : Nat} {m : Machine} {r : PoolEntry}

/-! ## Entries that were resolved -/

section remembered

variable (h : (m.classAt holder).Remembers index r)
include h

theorem run_entry : entry holder index m = .ok r m := by
  have hne : r ≠ .empty := by
    rintro rfl
    exact h.resolved
  have hentry := h.entry
  unfold entry
  rw [bind_apply]
  dsimp only [classAt]
  rw [hentry]
  split
  · exact absurd rfl hne
  · rfl

theorem run_entry_bind {α : Type} (f : PoolEntry → Attempt α) :
    ((liftM (entry holder index) : Attempt PoolEntry) >>= f).run m = (f r).run m := by
  have hlift : (liftM (entry holder index) : Attempt PoolEntry).run m = .ok (.ok r) m := by
    change (entry holder index >>= fun e => pure (Except.ok e)) m = _
    rw [bind_apply, run_entry h]
    rfl
  rw [Attempt.run_bind, hlift]

end remembered

theorem run_classEntry {name : String} {k : ClassId} (h : (m.classAt holder).Remembers index (.class name (some k))) :
    (classEntry s holder index).run m = .ok (.ok k) m := by
  rw [classEntry, run_entry_bind h]
  rfl

theorem run_fieldEntry {owner name desc : String} {k : Option ClassId} {f : Field}
    (h : (m.classAt holder).Remembers index (.field owner name desc k (some f))) :
    (fieldEntry s holder index).run m = .ok (.ok f) m := by
  rw [fieldEntry, run_entry_bind h]
  rfl

theorem run_methodEntry {owner name desc : String} {onInterface : Bool} {k : ClassId} {method : Method}
    (h : (m.classAt holder).Remembers index (.method owner name desc onInterface (some k) (some method))) :
    (methodEntry s holder index).run m = .ok (.ok (k, method)) m := by
  rw [methodEntry, run_entry_bind h]
  rfl

/-- Other entries are remembered meanwhile. -/
theorem remembers_remember {i : Nat} {e : PoolEntry} (h : ¬ (holder = c ∧ i = index)) :
    Keeps (Holding (Class.Remembers index r) c) (remember holder i e) :=
  keeps_modify fun _ hp => ⟨hp.resolved, (Machine.entry_setEntry_of_ne (fun hk hi => h ⟨hk, hi⟩) e).trans hp.entry⟩

/-- A resolution keeps what was resolved: either the place is another one, or nothing is written there. -/
theorem keeps_resolution {α : Type} {f : PoolEntry → Attempt α} {holder : ClassId} {i : Nat}
    (hsame : ∀ m, After (f r).run m (fun _ b => b = m) (· = m))
    (hother : (∀ e, Keeps (Holding (Class.Remembers index r) c) (remember holder i e)) →
      Attempt.Keeps (Holding (Class.Remembers index r) c) ((liftM (entry holder i) : Attempt PoolEntry) >>= f)) :
    Attempt.Keeps (Holding (Class.Remembers index r) c) ((liftM (entry holder i) : Attempt PoolEntry) >>= f) := by
  by_cases hplace : holder = c ∧ i = index
  · obtain ⟨rfl, rfl⟩ := hplace
    refine keeps_holding fun m hp => ?_
    rw [After, run_entry_bind hp]
    exact (hsame m).mono (fun _ _ hb => hb ▸ hp) fun _ hb => hb ▸ hp
  · exact hother fun e => remembers_remember hplace

/-- Resolution keeps entries that were resolved, if loads do. -/
theorem resolving_remembers (hr : r.Resolved)
    (hload : ∀ l name, Attempt.Keeps (Holding (Class.Remembers index r) c) (s.load l name)) :
    Resolving (Holding (Class.Remembers index r) c) s where
  classEntry holder i := by
    refine keeps_resolution (fun m => ?_) (keeps_classEntry hload)
    cases r with
    | «class» name known =>
      obtain ⟨k, rfl⟩ := Option.isSome_iff_exists.1 hr
      rfl
    | _ => rfl
  fieldEntry holder i := by
    refine keeps_resolution (fun m => ?_) (keeps_fieldEntry hload)
    cases r with
    | field owner name desc k known =>
      obtain ⟨f, rfl⟩ := Option.isSome_iff_exists.1 hr
      rfl
    | _ => rfl
  methodEntry holder i := by
    refine keeps_resolution (fun m => ?_) (keeps_methodEntry hload)
    cases r with
    | method owner name desc onInterface k known =>
      obtain ⟨k, rfl⟩ := Option.isSome_iff_exists.1 hr.1
      obtain ⟨method, rfl⟩ := Option.isSome_iff_exists.1 hr.2
      rfl
    | _ => rfl

/-! ## Entries that are resolved -/

section resolved

variable (hload : ∀ l name, Attempt.Keeps (Holding (Class.HasEntry index) holder) (s.load l name))

theorem hasEntry_of_getD {e : PoolEntry} (he : (m.classAt holder).pool.getD index .empty = e) (hne : e ≠ .empty) :
    (m.classAt holder).HasEntry index := by
  refine Nat.lt_of_not_le fun hle => hne ?_
  rw [← he, Array.getD, dif_neg (Nat.not_lt.2 hle)]

/-- An attempt that keeps a property of a class leads to a machine in which the class has it. -/
theorem ends_holding {α : Type} {act : Attempt α} (h : Attempt.Keeps (Holding P c) act) (hp : P (m.classAt c)) :
    Attempt.Ends act m (fun _ b => P (b.classAt c)) fun _ => True := by
  have hact := h m
  refine ⟨?_⟩
  unfold After at hact
  generalize act.run m = res at *
  rcases res with ⟨_ | _, _⟩ | _
  · trivial
  · exact hact hp
  · trivial

/-- What was resolved is remembered where there is an entry for it. -/
theorem ends_remember_pure {α : Type} {v : α} (hr : r.Resolved) (h : (m.classAt holder).HasEntry index) :
    Attempt.Ends (do
      remember holder index r
      return v : Attempt α) m (fun w b => w = v ∧ (b.classAt holder).Remembers index r) fun _ => True := by
  have hlt := m.lt_of_classAt h (Nat.not_lt_zero index)
  have hset : ((m.setEntry holder index r).classAt holder).Remembers index r := by
    refine ⟨hr, ?_⟩
    rw [Machine.setEntry, Machine.classAt_modify, if_pos ⟨rfl, hlt⟩, Array.getD_eq_getD_getElem?,
      Array.getElem?_setIfInBounds_self_of_lt h]
    rfl
  have hremember : After (remember holder index r) m (fun _ b => (b.classAt holder).Remembers index r) fun _ => True := hset
  exact (Attempt.ends_lift hremember).bind fun _ b hb => Attempt.ends_pure ⟨rfl, hb⟩

include hload

theorem ends_classEntry_remembers :
    Attempt.Ends (classEntry s holder index) m
      (fun k b => ∃ name, (b.classAt holder).Remembers index (.class name (some k))) fun _ => True := by
  unfold classEntry
  refine ends_entry_bind trivial fun e he hne => ?_
  have hthere := hasEntry_of_getD he hne
  split
  · next name k => exact Attempt.ends_pure ⟨name, rfl, he⟩
  · next name =>
    refine (ends_holding (keeps_loadFor hload) hthere).bind fun k b hb => ?_
    refine (ends_remember_pure (r := .class name (some k)) rfl hb).mono ?_ fun _ => id
    rintro _ _ ⟨rfl, hd⟩
    exact ⟨name, hd⟩
  · exact ends_wrongKind trivial

theorem ends_fieldEntry_remembers :
    Attempt.Ends (fieldEntry s holder index) m
      (fun f b => ∃ owner name desc k, (b.classAt holder).Remembers index (.field owner name desc k (some f)))
      fun _ => True := by
  unfold fieldEntry
  refine ends_entry_bind trivial fun e he hne => ?_
  have hthere := hasEntry_of_getD he hne
  split
  · next owner name desc k f => exact Attempt.ends_pure ⟨owner, name, desc, k, rfl, he⟩
  · next owner name desc known =>
    refine (ends_holding (keeps_ownerOf hload) hthere).bind fun k b hb => ?_
    refine (ends_holding (Attempt.keeps_lift keeps_remember) hb).bind fun _ d hd => ?_
    rw [Attempt.ends_get_bind]
    split
    · exact Attempt.ends_fail trivial
    · next f _ =>
      refine Attempt.ends_failIf_bind (fun _ => trivial) fun _ => ?_
      refine (ends_remember_pure (r := .field owner name desc (some k) (some f)) rfl hd).mono ?_ fun _ => id
      rintro _ _ ⟨rfl, hx⟩
      exact ⟨owner, name, desc, _, hx⟩
  · exact ends_wrongKind trivial

theorem ends_methodEntry_remembers :
    Attempt.Ends (methodEntry s holder index) m
      (fun v b => ∃ owner name desc onInterface,
        (b.classAt holder).Remembers index (.method owner name desc onInterface (some v.1) (some v.2)))
      fun _ => True := by
  unfold methodEntry
  refine ends_entry_bind trivial fun e he hne => ?_
  have hthere := hasEntry_of_getD he hne
  split
  · next owner name desc onInterface k method =>
    exact Attempt.ends_pure ⟨owner, name, desc, onInterface, ⟨rfl, rfl⟩, he⟩
  · next owner name desc onInterface known resolved _ =>
    refine (ends_holding (keeps_ownerOf hload) hthere).bind fun k b hb => ?_
    refine (ends_holding (Attempt.keeps_lift keeps_remember) hb).bind fun _ d hd => ?_
    rw [Attempt.ends_get_bind]
    split
    · exact Attempt.ends_throw trivial
    · next method _ =>
      dsimp only
      split
      · refine (Attempt.ends_lift ((keeps_methodText (R := fun _ => Minor) d).mono (fun _ _ _ => trivial) fun _ _ =>
          trivial)).bind (P := fun _ _ => True) fun text x _ => ?_
        exact (Attempt.ends_fail (P := fun _ _ => False) trivial).bind fun _ _ h => h.elim
      · refine (ends_remember_pure (r := .method owner name desc onInterface (some k) (some method)) ⟨rfl, rfl⟩ hd).mono ?_
          fun _ => id
        rintro _ _ ⟨rfl, hx⟩
        exact ⟨owner, name, desc, onInterface, hx⟩
  · exact ends_wrongKind trivial

end resolved

end Resolution

open Interpreter

/-- Everything the machine does keeps an entry that was resolved. -/
theorem serving_remembers {r : PoolEntry} (hr : r.Resolved) (index : Nat) (c : ClassId) (n : Nat) :
    Serving (Holding (Class.Remembers index r) c) (services Natives.standard n) :=
  serving_holding (fun _ => Resolution.resolving_remembers hr) n

theorem serving_hasEntry (index : Nat) (c : ClassId) (n : Nat) :
    Serving (Holding (Class.HasEntry index) c) (services Natives.standard n) :=
  serving_holding (fun _ => .of_load) n

/-- A step keeps a property that lasts, if the operations behind it do. -/
theorem Hosted.holding_step [Lasting P] {s : Services} (h : Hosted (Holding P c) s) :
    Keeps (Holding P c) (step Natives.standard s) :=
  have hworking := h.workingFrameless (Linking.keeps_defineClass h (Linking.holding_publish h))
  keeps_anyStep hworking (.of_careless hworking)

/-! ## Resolution again -/

namespace Resolution

variable {α : Type} {holder : ClassId} {index n : Nat} {m m' : Machine}

/-- A resolution in the pool of a class gives a value, and changes nothing, wherever the class remembers what it
remembers now. -/
def Recalls (holder : ClassId) (index : Nat) (act : Attempt α) (v : α) (m : Machine) : Prop :=
  ∃ r, (m.classAt holder).Remembers index r ∧ ∀ x, (x.classAt holder).Remembers index r → act.run x = .ok (.ok v) x

namespace Recalls

variable {act : Attempt α} {v : α} (h : Recalls holder index act v m)
include h

theorem run : act.run m = .ok (.ok v) m := by
  obtain ⟨r, hr, hrun⟩ := h
  exact hrun m hr

theorem of_classes (hclasses : m'.classes = m.classes) : Recalls holder index act v m' := by
  obtain ⟨r, hr, hrun⟩ := h
  refine ⟨r, ?_, hrun⟩
  rwa [Machine.classAt, hclasses]

theorem step (hstep : Interpreter.step Natives.standard (services Natives.standard n) m = .ok () m') :
    Recalls holder index act v m' := by
  obtain ⟨r, hr, hrun⟩ := h
  have hkept := (serving_remembers hr.resolved index holder n).toHosted.holding_step m
  exact ⟨r, hkept.of_ok hstep hr, hrun⟩

end Recalls

theorem recalls_classEntry {k : ClassId}
    (h : (classEntry (services Natives.standard n) holder index).run m = .ok (.ok k) m') :
    Recalls holder index (classEntry (services Natives.standard n) holder index) k m' := by
  have hends := (ends_classEntry_remembers (m := m) (serving_hasEntry index holder n).load).outcome
  rw [h] at hends
  obtain ⟨name, hr⟩ := hends
  exact ⟨_, hr, fun _ hx => run_classEntry hx⟩

theorem recalls_fieldEntry {f : Field}
    (h : (fieldEntry (services Natives.standard n) holder index).run m = .ok (.ok f) m') :
    Recalls holder index (fieldEntry (services Natives.standard n) holder index) f m' := by
  have hends := (ends_fieldEntry_remembers (m := m) (serving_hasEntry index holder n).load).outcome
  rw [h] at hends
  obtain ⟨owner, name, desc, k, hr⟩ := hends
  exact ⟨_, hr, fun _ hx => run_fieldEntry hx⟩

theorem recalls_methodEntry {k : ClassId} {method : Method}
    (h : (methodEntry (services Natives.standard n) holder index).run m = .ok (.ok (k, method)) m') :
    Recalls holder index (methodEntry (services Natives.standard n) holder index) (k, method) m' := by
  have hends := (ends_methodEntry_remembers (m := m) (serving_hasEntry index holder n).load).outcome
  rw [h] at hends
  obtain ⟨owner, name, desc, onInterface, hr⟩ := hends
  exact ⟨_, hr, fun _ hx => run_methodEntry hx⟩

end Resolution

end JavaMachine
