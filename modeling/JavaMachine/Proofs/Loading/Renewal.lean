import JavaMachine.Proofs.Loading.Attained

/-!
Resolution anew. A machine is `Later` than another if it comes about from it in a run. What a reference was resolved to
is what it means in every later machine; so resolving it once more, with nothing remembered, leads to the same. Main
result: `resolved_anew`, for code that the bootstrap loader took in after the machine was started.
-/

namespace JavaMachine

open M Attempt

variable {a b m : Machine} {holder c : ClassId} {index : Nat} {name desc : String}

/-! ## Later machines -/

/-- The machine after an instruction, also where it has halted. -/
def Machine.executed (m : Machine) (level : Nat) (i : Instruction) : Machine :=
  match Interpreter.execute Natives.standard (Interpreter.services Natives.standard level) i m with
  | .ok _ m' | .error _ m' => m'

/-- What has to be respected of a machine, whatever is being defined. -/
def Machine.lastingGuard (m : Machine) : Guard := ⟨fun _ => [], (m.loaded? 0 Machine.charArrayName).isSome⟩

/-- A machine that another may become: by requests and instructions at any level, also by such as ran out of levels on
their way, and by the steps of a definition that is under way. Between them anything may change that leaves the classes
and the loaders as they are. -/
inductive Machine.Later (a : Machine) : Machine → Prop where
  | refl : a.Later a
  | perform {b : Machine} (level : Nat) (r : Request) : a.Later b → a.Later (b.perform level r)
  | executed {b : Machine} (level : Nat) (i : Instruction) : a.Later b → a.Later (b.executed level i)
  | defining {b : Machine} (l : Nat) (name : String) : a.Later b → a.Later (b.beginDefine l name)
  | admitted {b : Machine} {k : Class} {journal : Journal} : a.Later b → Admissible b.lastingGuard b k →
      b.journal <:+ journal → k.HasConstants ∨ (b.admitted k journal).Announced ⟨b.classes.size⟩ →
      a.Later (b.admitted k journal)
  | recorded {b : Machine} {l : Nat} {c : ClassId} : a.Later b → c.index < b.classes.size →
      (l = 0 → b.loaded? 0 (b.classAt c).name = some c) → a.Later (b.record l (b.classAt c).name c)
  | steady {b b' : Machine} : a.Later b → Steady b b' → a.Later b'

/-- An instruction makes a sound machine grow. -/
theorem grows_executed (h : m.Sound) (level : Nat) (i : Instruction) : Grows m (m.executed level i) := by
  obtain ⟨hserving, hloads⟩ := Interpreter.growing_services level
  have hworking := hserving.toHosted.workingFrameless (Linking.growing_defineClass hloads)
  have hlawful := Natives.lawful_standard hworking (.of_careless hworking)
  have hgrowing := Interpreter.keeps_execute (i := i) hworking hlawful Execute.keeps_anyFinish m
  unfold After at hgrowing
  unfold Machine.executed
  split at hgrowing
  · next hr =>
    rw [hr]
    exact hgrowing h
  · next hr =>
    rw [hr]
    exact hgrowing h

/-- A machine evolves into the later ones. -/
theorem Machine.Later.evolves (h : a.Later b) (ha : a.Sound) : Evolves a.lastingGuard a b := by
  have within {b : Machine} (hb : Evolves a.lastingGuard a b) : a.lastingGuard.Within b.lastingGuard :=
    ⟨fun _ => List.Subset.refl _, hb.isSome_loaded?⟩
  have grown {b b' : Machine} (hb : Evolves a.lastingGuard a b) (hgrows : Grows b b') : Evolves a.lastingGuard a b' :=
    hb.trans (hgrows.evolves.weaken ⟨fun _ => List.nil_subset _, hb.isSome_loaded?⟩)
  induction h with
  | refl => exact .alike ha (Steady.refl a).alike
  | perform level r _ ih => exact grown ih (grows_perform ih.sound level r)
  | executed level i _ ih => exact grown ih (grows_executed ih.sound level i)
  | defining l name _ ih => exact ih.trans (.alike ih.sound (Linking.alike_beginDefine _ l name))
  | admitted _ hk hevents hannounced ih =>
    exact ih.trans ((Evolves.admitted ih.sound hk hevents hannounced).weaken (within ih))
  | recorded _ hc hboot ih => exact grown ih (Grows.record ih.sound hc rfl hboot)
  | steady _ hs ih => exact ih.trans (.alike ih.sound hs.alike)

/-! ## Names that stand for a class -/

/-- The bootstrap loader takes a name for the class that it stands for in its code, unless the class of char arrays was
settled later than the code was taken in. -/
theorem Machine.Stands.loaded? (h : m.Stands holder name c) (hm : m.Sound) (hloader : (m.classAt holder).loader = 0)
    (hchars : ∀ d, m.loaded? 0 charArrayName = some d → d.index ≤ holder.index) : m.loaded? 0 name = some c := by
  have hknown := h.known hloader
  obtain ⟨d, hd⟩ := Option.isSome_iff_exists.1 (isSome_loaded?_of_mem hknown)
  rw [hd]
  by_cases hname : name = charArrayName
  · subst hname
    rcases h.latest hloader d hd with rfl | hyounger
    · rfl
    · exact absurd (hchars d hd) (Nat.not_le.2 hyounger)
  · rw [hm.alone name d c hname (mem_of_loaded? hd) hknown]

/-! ## References that nothing is remembered of -/

/-- The machine in which an entry of a pool is not resolved to anything. -/
def Machine.forget (m : Machine) (holder : ClassId) (index : Nat) : Machine :=
  { m with
    classes := m.classes.modify holder.index fun k =>
      { k with pool := k.pool.setIfInBounds index (m.reference holder index) } }

theorem Machine.steady_forget (m : Machine) (holder : ClassId) (index : Nat) : Steady m (m.forget holder index) :=
  (still_setEntry (PoolEntry.unresolved_unresolved _) fun _ _ =>
    PoolEntry.fits_of_unresolved (PoolEntry.unresolved_unresolved _) m holder).toSteady

/-- The entry of a reference that was forgotten is the reference. -/
theorem Machine.entry_forget (m : Machine) (holder : ClassId) (index : Nat) :
    ((m.forget holder index).classAt holder).pool.getD index .empty =
      (m.forget holder index).reference holder index := by
  rw [reference, forget, classAt_modify]
  split
  · rw [Array.getD_eq_getD_getElem?, Array.getElem?_setIfInBounds, if_pos rfl]
    split
    · exact (PoolEntry.unresolved_unresolved _).symm
    · rfl
  · next hholder =>
    rw [classAt_of_le (Nat.le_of_not_lt fun hlt => hholder ⟨rfl, hlt⟩)]
    rfl

namespace Resolution

variable {s : Services} {E : Machine → Prop}

/-- Services that answer at once with what the bootstrap loader knows. -/
def Knows (s : Services) : Prop :=
  ∀ m name c, m.loaded? 0 name = some c → Ends (s.load 0 name) m (fun c' m' => c' = c ∧ m' = m) fun _ => False

theorem knows_services (level : Nat) : Knows (Interpreter.services Natives.standard (level + 1)) := by
  intro m name c hknown
  change Ends (Linking.loadClass (Interpreter.services Natives.standard level) 0 name) m _ _
  unfold Linking.loadClass
  rw [ends_get_bind, hknown]
  exact ends_pure ⟨rfl, rfl⟩

theorem ends_entry_of {α : Type} {e : PoolEntry} (he : (m.classAt holder).pool.getD index .empty = e) (hne : e ≠ .empty)
    {f : PoolEntry → Attempt α} {P : α → Machine → Prop} (hf : Ends (f e) m P E) :
    Ends (liftM (entry holder index) >>= f) m P E := by
  have hentry : After (entry holder index) m (fun e' m' => e' = e ∧ m' = m) E := by
    unfold entry
    rw [M.after_bind_iff, after_classAt]
    split
    · next hempty => exact absurd (he.symm.trans hempty) hne
    · exact ⟨he, rfl⟩
  refine (ends_lift hentry).bind ?_
  rintro e' m' ⟨rfl, rfl⟩
  exact hf

section anew

variable (hs : Knows s) (hm : m.Sound) (hloader : (m.classAt holder).loader = 0)
  (hchars : ∀ d, m.loaded? 0 Machine.charArrayName = some d → d.index ≤ holder.index)
include hs hm hloader hchars

theorem ends_loadFor_bind {α : Type} (hstands : m.Stands holder name c) {f : ClassId → Attempt α}
    {P : α → Machine → Prop} (hf : Ends (f c) m P E) : Ends (loadFor s holder name >>= f) m P E := by
  have hload := hs m name c (hstands.loaded? hm hloader hchars)
  have hloadFor : Ends (loadFor s holder name) m (fun c' m' => c' = c ∧ m' = m) E := by
    unfold loadFor
    rw [ends_classAt_bind, hloader]
    refine (hload.mono (fun _ _ => id) fun _ => False.elim).bind ?_
    rintro c' m' ⟨rfl, rfl⟩
    rw [ends_get_bind, if_pos hstands.accessible]
    exact ends_haltFor_bind (absurd hstands.element) fun _ => ends_pure ⟨rfl, rfl⟩
  refine hloadFor.bind ?_
  rintro c' m' ⟨rfl, rfl⟩
  exact hf

variable (hfresh : (m.classAt holder).pool.getD index .empty = m.reference holder index)
include hfresh

/-- A reference to a class is resolved to it where nothing is remembered. -/
theorem ends_classEntry_anew (h : m.RefersToClass holder index c) :
    Ends (classEntry s holder index) m (fun c' _ => c' = c) E := by
  obtain ⟨name, href, hstands⟩ := h
  unfold classEntry
  refine ends_entry_of (hfresh.trans href) nofun ?_
  refine ends_loadFor_bind hs hm hloader hchars hstands ?_
  refine ends_remember_bind href.symm (fun _ hc => ?_) fun m' _ => ends_pure rfl
  cases hc
  exact hstands

/-- A reference to a field is resolved to it where nothing is remembered. -/
theorem ends_fieldEntry_anew {f : Field} (h : m.RefersToField holder index f) :
    Ends (fieldEntry s holder index) m (fun f' _ => f' = f) E := by
  obtain ⟨owner, name, desc, c, href, hstands, hmeans⟩ := h
  have hholder : holder.index < m.classes.size := m.lt_of_reference (by rw [href]; nofun)
  unfold fieldEntry
  refine ends_entry_of (hfresh.trans href) nofun ?_
  refine ends_loadFor_bind hs hm hloader hchars hstands ?_
  refine ends_remember_bind href.symm ⟨fun _ hc => ?_, nofun⟩ fun m₁ hsteady => ?_
  · cases hc
    exact hstands
  have hs₁ := hsteady.succeeds
  have hmeans₁ := hmeans.mono hm.fit.rooted hs₁ hholder hstands.valid
  have hstands₁ := hstands.mono hm.fit.rooted hs₁ hholder
  rw [ends_get_bind, hmeans₁.found]
  dsimp only
  rw [hmeans₁.accessible]
  refine ends_failIf_bind nofun fun _ => ?_
  refine ends_remember_bind ((hs₁.reference hholder).trans href).symm ⟨fun _ hc => ?_, fun _ hf => ?_⟩ fun _ _ =>
    ends_pure rfl
  · cases hc
    exact hstands₁
  · cases hf
    exact ⟨c, rfl, hmeans₁⟩

/-- A reference to a method is resolved to it where nothing is remembered. -/
theorem ends_methodEntry_anew {method : Method} (h : m.RefersToMethod holder index c method) :
    Ends (methodEntry s holder index) m (fun r _ => r = (c, method)) E := by
  obtain ⟨owner, name, desc, onInterface, href, hstands, hmeans⟩ := h
  have hholder : holder.index < m.classes.size := m.lt_of_reference (by rw [href]; nofun)
  unfold methodEntry
  refine ends_entry_of (hfresh.trans href) nofun ?_
  refine ends_loadFor_bind hs hm hloader hchars hstands ?_
  refine ends_remember_bind href.symm ⟨fun _ hc => ?_, nofun⟩ fun m₁ hsteady => ?_
  · cases hc
    exact hstands
  have hs₁ := hsteady.succeeds
  have hmeans₁ := hmeans.mono hm.fit.rooted hs₁ hholder hstands.valid
  have hstands₁ := hstands.mono hm.fit.rooted hs₁ hholder
  rw [ends_get_bind, hmeans₁.found]
  dsimp only
  rw [hmeans₁.accessible, if_neg nofun]
  refine ends_remember_bind ((hs₁.reference hholder).trans href).symm ⟨fun _ hc => ?_, fun _ hmethod => ?_⟩ fun _ _ =>
    ends_pure rfl
  · cases hc
    exact hstands₁
  · cases hmethod
    exact ⟨c, rfl, hmeans₁⟩

end anew

end Resolution

/-! ## Machines that were started -/

/-- A machine that has loaded what it needs itself. -/
def Machine.Bootstrapped (m₀ : Machine) : Prop :=
  ∃ m level, Attained m ∧ (Boot.bootstrap (Interpreter.services Natives.standard level)).run m = .ok (.ok ()) m₀

namespace Boot

/-- What the bootstrap makes of a machine: it has the classes that strings need and that of objects, and no array
class but that of the char arrays. -/
structure Makes (m m₀ : Machine) : Prop where
  expands : Expands m.guard True m m₀
  plain : Adds Class.Plain m m₀
  strings : m₀.charArrayClass.isSome ∧ m₀.stringClass.isSome
  object : (m₀.loaded? 0 Machine.objectName).isSome

/-- What a machine is like where the bootstrap succeeds. -/
theorem makes_bootstrap {s : Services} (h : Loads s) (hm : m.Sound) {m₀ : Machine}
    (hok : (bootstrap s).run m = .ok (.ok ()) m₀) : Makes m m₀ := by
  have hleads : Leads (expanding m.guard True) (do
      let _ ← s.loadBoot Machine.objectName
      let c ← s.loadBoot "java/lang/Class"
      modify fun m => { m with classClass := some c }
      Linking.ensureStringClasses s) m fun _ m' => Adds Class.Plain m m' ∧
        (m'.charArrayClass.isSome ∧ m'.stringClass.isSome) ∧ (m'.loaded? 0 Machine.objectName).isSome := by
    refine (h.loadOrdinary (by decide +kernel)).bind fun _ m₁ _ ⟨hobject, _, _, hplain₁⟩ => ?_
    have hobject := Machine.isSome_loaded?_of_mem (hobject.known rfl)
    refine (h.loadOrdinary (by decide +kernel)).bind fun c m₂ hstep₂ ⟨_, _, _, hplain₂⟩ => ?_
    have hslight : Slight m₂ { m₂ with classClass := some c } := .setClassClass m₂ _
    refine Leads.bind (P := fun _ m₃ => Slight m₂ m₃)
      (leads_modify fun hm => ⟨(Contract.Fair.slight hm hslight).1, (Contract.Fair.slight hm hslight).2, hslight⟩) ?_
    intro _ m₃ hstep₃ hslight
    have hplain₃ : Adds Class.Plain m₂ m₃ := .ofSize (Nat.le_of_eq hslight.toSteady.size)
    refine (Linking.leads_ensureStringClasses h).mono fun _ m' _ hstep ⟨hplain, hstrings⟩ => ⟨?_, hstrings, ?_⟩
    · have hsucc₃ := hstep₃.evolves.toSucceeds
      exact ((hplain₁.trans hplain₂ hstep₂.evolves.toSucceeds).trans hplain₃ hsucc₃).trans hplain hstep.evolves.toSucceeds
    · exact ((hstep₂.trans hstep₃).trans hstep).evolves.isSome_loaded? hobject
  have hafter : After (bootstrap s).run m (fun r m' => r = .ok () → Makes m m') fun _ => True := by
    rw [bootstrap, inContext, after_tryCatch_iff]
    have hends := (hleads.ends ⟨hm, .refl _⟩).outcome
    unfold After
    split
    · next r m' hr =>
      rw [hr] at hends
      cases r with
      | ok _ => exact fun _ => ⟨hends.2.1, hends.2.2.1, hends.2.2.2.1, hends.2.2.2.2⟩
      | error e => exact nofun
    · trivial
  unfold After at hafter
  rw [hok] at hafter
  exact hafter rfl

end Boot

theorem Machine.Bootstrapped.sound {m₀ : Machine} (h : m₀.Bootstrapped) : m₀.Sound := by
  obtain ⟨m, level, hm, hok⟩ := h
  exact (Boot.makes_bootstrap (Interpreter.growing_services level).2 hm.sound hok).expands.evolves.sound

/-- The class of char arrays is settled when a machine was started, so it is older than all that is taken in later. -/
theorem Machine.Bootstrapped.chars {m₀ : Machine} (h : m₀.Bootstrapped) :
    ∃ d, m₀.loaded? 0 charArrayName = some d ∧ d.index < m₀.classes.size := by
  have hsound := h.sound
  obtain ⟨m, level, hm, hok⟩ := h
  have hmakes := Boot.makes_bootstrap (Interpreter.growing_services level).2 hm.sound hok
  obtain ⟨d, hd⟩ := Option.isSome_iff_exists.1 (hsound.strings.1 hmakes.strings.1)
  exact ⟨d, hd, (hsound.named 0 _ d (mem_of_loaded? hd)).1⟩

section renewal

variable {m₀ m₁ m₂ m₃ : Machine} (hstart : m₀.Bootstrapped) (h₁ : m₀.Later m₁)
  (hold : m₀.classes.size ≤ holder.index) (hholder : holder.index < m₁.classes.size)
  (hloader : (m₁.classAt holder).loader = 0) (hgrows : Grows m₁ m₂) (h₃ : m₂.Later m₃)
include hstart h₁ hold hholder hloader hgrows h₃

/-- What resolution depends on in a later machine in which a reference is forgotten. -/
theorem Machine.Bootstrapped.forgotten (index : Nat) :
    (m₃.forget holder index).Sound ∧ Succeeds m₂ (m₃.forget holder index) ∧
      ((m₃.forget holder index).classAt holder).loader = 0 ∧
      ∀ d, (m₃.forget holder index).loaded? 0 charArrayName = some d → d.index ≤ holder.index := by
  obtain ⟨d, hd, hlt⟩ := hstart.chars
  have hevolves₁ := h₁.evolves hstart.sound
  have hevolves₃ := h₃.evolves hgrows.sound
  have hsteady := m₃.steady_forget holder index
  have hs := hevolves₃.toSucceeds.trans hsteady.succeeds
  refine ⟨hevolves₃.sound.alike hsteady.alike, hs, ?_, fun d' hd' => ?_⟩
  · rw [(hgrows.succeeds.trans hs).loader hholder]
    exact hloader
  · have hchars₁ := hevolves₁.loaded? hd fun _ => Option.isSome_of_eq_some hd
    have hchars₂ := hgrows.evolves.loaded? hchars₁ fun _ => Option.isSome_of_eq_some hchars₁
    have hchars₃ := hevolves₃.loaded? hchars₂ fun _ => Option.isSome_of_eq_some hchars₂
    cases hd'.symm.trans hchars₃
    exact Nat.le_of_lt (Nat.lt_of_lt_of_le hlt hold)

end renewal

/-- An attempt that cannot but end with a value succeeds. -/
theorem Attempt.Ends.exists_ok {α : Type} {act : Attempt α} {v : α} (h : Ends act m (fun a _ => a = v) fun _ => False) :
    ∃ m', act.run m = .ok (.ok v) m' := by
  have h := h.outcome
  generalize act.run m = r at *
  rcases r with ⟨_ | a, m'⟩ | _
  · exact h.elim
  · cases h
    exact ⟨m', rfl⟩
  · exact h.elim

/-- What an entry means in one machine it means in later ones, so it is resolved to it once more. -/
theorem Machine.Bootstrapped.resolved {m₀ m₁ m₂ m₃ : Machine} {α : Type} {act act' : Attempt α}
    {R : Machine → α → Prop} (hstart : m₀.Bootstrapped) (h₁ : m₀.Later m₁)
    (hold : m₀.classes.size ≤ holder.index) (hholder : holder.index < m₁.classes.size)
    (hloader : (m₁.classAt holder).loader = 0) (h₃ : m₂.Later m₃)
    (hends : ∀ m, m.Sound → Ends act m (fun v m' => Grows m m' ∧ R m' v) (Grows m))
    (hmono : ∀ m m' v, m.Rooted → Succeeds m m' → R m v → R m' v)
    (hanew : ∀ m v, m.Sound → (m.classAt holder).loader = 0 →
      (∀ d, m.loaded? 0 charArrayName = some d → d.index ≤ holder.index) →
      (m.classAt holder).pool.getD index .empty = m.reference holder index → R m v →
      Ends act' m (fun v' _ => v' = v) fun _ => False)
    (v : α) (hrun : act.run m₁ = .ok (.ok v) m₂) : ∃ m', act'.run (m₃.forget holder index) = .ok (.ok v) m' := by
  have hends := (hends m₁ (h₁.evolves hstart.sound).sound).outcome
  rw [hrun] at hends
  obtain ⟨hgrows, hrefers⟩ := hends
  obtain ⟨hm, hs, hloader₃, hchars⟩ := hstart.forgotten h₁ hold hholder hloader hgrows h₃ index
  have hrefers₃ := hmono _ _ v hgrows.sound.fit.rooted hs hrefers
  exact (hanew _ v hm hloader₃ hchars (m₃.entry_forget holder index) hrefers₃).exists_ok

/-- What a reference in code of the bootstrap loader was resolved to, it is resolved to once more at any later time,
also where nothing is remembered of it, if the code was taken in after the machine was started. -/
theorem resolved_anew {m₀ m₁ m₂ m₃ : Machine} (hstart : m₀.Bootstrapped) (h₁ : m₀.Later m₁) (holder : ClassId)
    (hold : m₀.classes.size ≤ holder.index) (hholder : holder.index < m₁.classes.size)
    (hloader : (m₁.classAt holder).loader = 0) (index level level' : Nat) (h₃ : m₂.Later m₃) :
    (∀ c, (Resolution.classEntry (Interpreter.services Natives.standard level) holder index).run m₁ = .ok (.ok c) m₂ →
      ∃ m', (Resolution.classEntry (Interpreter.services Natives.standard (level' + 1)) holder index).run
        (m₃.forget holder index) = .ok (.ok c) m') ∧
    (∀ f, (Resolution.fieldEntry (Interpreter.services Natives.standard level) holder index).run m₁ = .ok (.ok f) m₂ →
      ∃ m', (Resolution.fieldEntry (Interpreter.services Natives.standard (level' + 1)) holder index).run
        (m₃.forget holder index) = .ok (.ok f) m') ∧
    ∀ r, (Resolution.methodEntry (Interpreter.services Natives.standard level) holder index).run m₁ = .ok (.ok r) m₂ →
      ∃ m', (Resolution.methodEntry (Interpreter.services Natives.standard (level' + 1)) holder index).run
        (m₃.forget holder index) = .ok (.ok r) m' := by
  have hloads := (Interpreter.growing_services level).2
  have hknows := Resolution.knows_services level'
  refine ⟨?_, ?_, ?_⟩
  · refine hstart.resolved (R := fun m c => m.RefersToClass holder index c) h₁ hold hholder hloader h₃ ?_ ?_ ?_
    · exact fun _ hm => Resolution.ends_classEntry hloads hm
    · exact fun _ _ _ hr hs h => h.mono hr hs
    · exact fun _ _ hm hl hchars hfresh h => Resolution.ends_classEntry_anew hknows hm hl hchars hfresh h
  · refine hstart.resolved (R := fun m f => m.RefersToField holder index f) h₁ hold hholder hloader h₃ ?_ ?_ ?_
    · exact fun _ hm => Resolution.ends_fieldEntry hloads hm
    · exact fun _ _ _ hr hs h => h.mono hr hs
    · exact fun _ _ hm hl hchars hfresh h => Resolution.ends_fieldEntry_anew hknows hm hl hchars hfresh h
  · refine hstart.resolved (R := fun m r => m.RefersToMethod holder index r.1 r.2) h₁ hold hholder hloader h₃
      ?_ ?_ ?_
    · exact fun _ hm => Resolution.ends_methodEntry hloads hm
    · exact fun _ _ _ hr hs h => h.mono hr hs
    · exact fun _ _ hm hl hchars hfresh h => Resolution.ends_methodEntry_anew hknows hm hl hchars hfresh h

namespace Samples

/-- A class whose initializer makes an object of another class. -/
def citing : ClassSource :=
  initializing "Citing" Machine.objectName [.type .new "java/lang/Class", .plain .pop, .plain .vreturn]

/-- A machine with the class on its class path, before it is started. -/
def unready : Machine := Boot.empty { classPath := .memory 0 "", maxDepth := 8 } (path (citing :: textual)) []

/-- The machine that was started. -/
def ready : Machine := unready.perform 12 .bootstrap

/-- The machine that has taken in the class. -/
def cited : Machine := ready.perform 12 (.load 0 "Citing")

/-- The class that the reference in the first is resolved to, and the machine then. -/
def resolving : Option (ClassId × Machine) :=
  match (Resolution.classEntry (Interpreter.services Natives.standard 12) ⟨16⟩ 6).run cited with
  | .ok (.ok c) m => some (c, m)
  | _ => none

end Samples

open Samples in
/-- After the initializer has run the reference is resolved to the class of classes again. -/
theorem resolved_anew_cited :
    ∃ c m m', resolving = some (c, m) ∧ (m.classAt c).name = "java/lang/Class" ∧
      ((m.perform 12 (.initClass ⟨16⟩)).classAt ⟨16⟩).state = .initialized ∧
      (Resolution.classEntry (Interpreter.services Natives.standard 1) ⟨16⟩ 6).run
        ((m.perform 12 (.initClass ⟨16⟩)).forget ⟨16⟩ 6) = .ok (.ok c) m' := by
  have hevents : bootstraps unready = true ∧ ready.classes.size ≤ 16 ∧ 16 < cited.classes.size ∧
      (cited.classAt ⟨16⟩).loader = 0 ∧
      resolving.map (fun (c, m) =>
        ((m.classAt c).name, ((m.perform 12 (.initClass ⟨16⟩)).classAt ⟨16⟩).state)) =
        some ("java/lang/Class", .initialized) := by decide +kernel
  obtain ⟨hbootstraps, hold, hholder, hloader, hresolved⟩ := hevents
  have hready : ready.Bootstrapped := ⟨unready, 12, .empty .., run_bootstrap hbootstraps⟩
  obtain ⟨⟨c, m⟩, hresolving, hnames⟩ := Option.map_eq_some_iff.1 hresolved
  obtain ⟨hname, hstate⟩ := Prod.mk.inj hnames
  have hrun : (Resolution.classEntry (Interpreter.services Natives.standard 12) ⟨16⟩ 6).run cited = .ok (.ok c) m := by
    unfold resolving at hresolving
    split at hresolving
    · next hr =>
      cases hresolving
      exact hr
    · cases hresolving
  have hlater : ready.Later cited := .perform 12 _ .refl
  have hinitialized : m.Later (m.perform 12 (.initClass ⟨16⟩)) := .perform 12 _ .refl
  obtain ⟨hclasses, -, -⟩ :=
    resolved_anew hready hlater ⟨16⟩ hold hholder hloader 6 12 0 hinitialized
  obtain ⟨m', hanew⟩ := hclasses c hrun
  exact ⟨c, m, m', hresolving, hname, hstate, hanew⟩

end JavaMachine
