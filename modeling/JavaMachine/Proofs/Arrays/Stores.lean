import JavaMachine.Proofs.Arrays.Filling
import JavaMachine.Proofs.Frames.Watched
import JavaMachine.Proofs.Loading.Renewal
import JavaMachine.Proofs.Subtypes.Assignable

/-!
What arrays of references hold, over all runs. Where all classes come from the bootstrap loader and class files have legal
names, the test between classes is transitive and finds the classes of the arrays that the machine itself makes, so the
classes of such a machine can judge what arrays hold (`Machine.Legal.judges`). A machine `Occurs` after a request or between
two steps.

Main result: in every machine that occurs, elements are of the kind of their array, also after any instruction
(`Occurs.elements_fit`). A class file under the name of an array class makes arrays of a class that has no component
(`forged_array`).
-/

namespace JavaMachine

open M

/-! ## Classes that can judge -/

namespace Machine

variable {m : Machine}

/-- What is said about what arrays hold: all classes come from the bootstrap loader, what array classes implement extends no
interfaces, and no reference was stored in an array without a test. -/
structure Homely (m : Machine) : Prop where
  home : ∀ c, c.index < m.classes.size → (m.classAt c).loader = 0
  bare : m.BareInterfaces
  checked : m.unchecked = false

/-- Every element of an array of references is null or may be stored where the elements of the array may. -/
def ElementsFit (m : Machine) : Prop :=
  ∀ array refs, (m.objectAt array).elements = some (.refs refs) → ∀ v, some v ∈ refs →
    ∃ k, (m.classAt (m.classOf array)).component = some k ∧ m.isAssignable k (m.classOf v) = true

/-- The machine's own array classes have the elements that their names say. -/
theorem Legal.component_filled (h : m.Legal) {n : String} (hn : n ∈ filled) {c d : ClassId}
    (hc : m.Knows ("[L" ++ n ++ ";") c) (hd : m.Knows n d) : (m.classAt c).component = some d := by
  obtain ⟨hvalid, hname, hboot⟩ := h.sound.named 0 _ c hc
  obtain ⟨hvalid', hname', hboot'⟩ := h.sound.named 0 _ d hd
  obtain ⟨hloader, -⟩ := hboot rfl
  obtain ⟨hloader', hprimitive⟩ := hboot' rfl
  have hordinary : ∀ n ∈ filled, ("[L" ++ n ++ ";").startsWith "[" ∧ n ≠ charArrayName ∧
      Descriptor.primitiveLetter? n = none := by decide +kernel
  obtain ⟨harray, hchars, hkeyword⟩ := hordinary n hn
  obtain ⟨hplain, hdescriptor⟩ := descriptor_filled n hn
  have hnative : m.Native c := by
    rw [Native, hname]
    exact hc
  obtain ⟨-, k, hk, -⟩ := h.array hnative (by rwa [Class.isArray, hname])
  have harrayName : (m.classAt d).arrayName = "[L" ++ n ++ ";" := by
    rw [Class.arrayName, Class.isArray, Class.descriptor, hprimitive, hname', hplain]
    exact hdescriptor
  rw [hk, h.sound.component_eq hvalid' hloader' (fun _ => hname' ▸ hkeyword) (fun heq => absurd (hname'.symm.trans heq) hchars)
    hvalid hloader (hname.trans harrayName.symm) hk]

/-- The test is transitive where all classes are of the bootstrap loader, so they can judge what arrays hold. -/
theorem Legal.judges (h : m.Legal) (hhomely : m.Homely) : m.Judges where
  rooted := h.sound.fit.rooted
  checked := hhomely.checked
  trans c d e hc hd he hcd hde := by
    have hhome {c : ClassId} (hc : c.index < m.classes.size) : m.AtHome c := ⟨hc, hhomely.home c hc⟩
    exact h.isAssignable_trans hhomely.bare (hhome he) (hhome hd) (hhome hc) hde hcd
  named n _ c hc := by
    obtain ⟨-, hname, hboot⟩ := h.sound.named 0 n c hc
    exact ⟨hname, hboot rfl⟩
  arrays n hn c d hc hd := ⟨d, h.component_filled hn hc hd, assignableWithin_refl _ d⟩

end Machine

/-! ## Machines that occur -/

/-- A machine without arrays, mirrors and loaded classes is stocked. -/
theorem stocked_empty (f : Machine) (options : Options) (storage : Storage) (stdin : List UInt8) :
    f.Stocked (Boot.empty options storage stdin) where
  held r refs hr := absurd (Machine.lt_of_elements hr) (Nat.not_lt_zero _)
  mirrors c r hr := by
    have hnone : ∀ k ∈ (Boot.empty default {} []).classes.toList, k.mirror = none := by decide
    have hc : c.index < (Boot.empty options storage stdin).classes.size :=
      Machine.lt_of_classAt (P := fun k => k.mirror = some r) hr nofun
    cases (hnone _ (Array.mem_toList_iff.2 (Machine.classAt_mem hc))).symm.trans hr
  classClass _ h := nomatch h
  stringClass _ h := nomatch h
  listed l e he := ((sound_empty options storage stdin).named l e.1 e.2 he).1
  loaders := (sound_empty options storage stdin).boot.1

namespace Watched.Visited

variable {look : Machine → Machine} {options : Options} {m : Machine}

/-- Under a watcher under which machines grow, all machines are sound and have the setup that they had at first. -/
theorem sound (hlook : ∀ m, Growing .done m (look m)) (hm : Visited look options m) :
    m.Sound ∧ m.options = options := by
  refine hm.keeps (P := fun m => m.Sound ∧ m.options = options) (growing_answering hlook)
    (fun storage stdin => ?_) fun a b hgrows ⟨ha, hoptions⟩ => ?_
  · exact ⟨sound_empty options storage stdin, (setup_empty options storage stdin).2⟩
  · exact ⟨(hgrows ha).sound, (hgrows ha).evolves.options.trans hoptions⟩

/-- Under a watcher that leaves arrays with what they may hold, by the classes of a machine to come, so does all else. -/
theorem approves {f : Machine} (hlook : ∀ m, Stocking f .done m (look m)) (hm : Visited look options m) :
    f.Approves m ∧ m.options = options := by
  refine hm.keeps (P := fun m => f.Approves m ∧ m.options = options) (stocking_answering hlook)
    (fun storage stdin => ?_) fun a b hstocks ⟨ha, hoptions⟩ => ?_
  · exact ⟨fun _ _ => stocked_empty f options storage stdin, (setup_empty options storage stdin).2⟩
  · exact ⟨hstocks.approves ha, (hstocks.options ha).trans hoptions⟩

end Watched.Visited

namespace Occurs

variable {options : Options} {x : Machine}

theorem sound (h : Occurs options x) : x.Sound := by
  refine h.induct (fun hx => (hx.sound fun m => Tolerant.minor (.refl m)).1) fun mark hmark m hm => (hm.sound fun y hy => ?_).2
  rw [hmark y hy]
  exact .steady hy (.refl y)

theorem approves (h : Occurs options x) (f : Machine) : f.Approves x := by
  refine h.induct (P := f.Approves) (fun hx => (hx.approves fun m => Tolerant.minor (.refl m)).1) fun mark hmark m hm =>
    (hm.approves (f := f) fun y => ⟨?_, hmark y⟩).2
  exact .ofSame (fun _ => rfl) rfl (fun _ => rfl) rfl rfl rfl rfl id

end Occurs

/-- An instruction leaves arrays with what they may hold. -/
theorem stocking_executed (f m : Machine) (level : Nat) (i : Instruction) : Stocking f .done m (m.executed level i) := by
  have hlook : ∀ m : Machine, Stocking f .done m (id m) := fun m => Tolerant.minor (.refl m)
  obtain ⟨hserving, ht⟩ := Watched.stocking_services hlook level
  rw [Watched.services_id] at hserving ht
  have hdefine := Linking.keeps_defineClass hserving.toHosted (Linking.stocking_publish hserving.toHosted ht)
  have hworking := hserving.toHosted.workingFrameless hdefine
  have hlawful := Natives.lawful_standard hworking (Native.stocking_filling hworking ht)
  have hstocking := Interpreter.keeps_execute (i := i) hworking hlawful Execute.keeps_anyFinish m
  unfold After at hstocking
  unfold Machine.executed
  split at hstocking
  · next hr =>
    rw [hr]
    exact hstocking
  · next hr =>
    rw [hr]
    exact hstocking.ended

/-- Where machines are approved that are legal and homely, elements fit. -/
theorem Machine.Approves.stores_fit {x : Machine} (h : x.Approves x) (hlegal : x.Legal) (hhomely : x.Homely) :
    x.ElementsFit := fun array refs hrefs v hv =>
  ((h (hlegal.judges hhomely) (.refl x)).held array refs hrefs v hv).fits

/-- In every run whose classes all come from the bootstrap loader, with legal names, where what array classes implement
extends no interfaces and nothing is stored without a test, every element of every array of references is of the kind that
the class of the array says. Every instruction keeps it so: stores, new arrays and grids, and all native methods. -/
theorem Occurs.elements_fit {options : Options} {x : Machine} (h : Occurs options x) :
    (x.LegalNames → x.Homely → x.ElementsFit) ∧
    ∀ level i, (x.executed level i).LegalNames → (x.executed level i).Homely → (x.executed level i).ElementsFit := by
  refine ⟨fun hlegal => (h.approves x).stores_fit ⟨h.sound, hlegal⟩, fun level i hlegal => ?_⟩
  have hsound := (grows_executed h.sound level i).evolves.sound
  exact ((stocking_executed _ x level i).approves (h.approves _)).stores_fit ⟨hsound, hlegal⟩

/-! ## Arrays of strings -/

namespace Samples

/-- The machine after requests, with a new array of one string. -/
def stringed (requests : List Request) : Machine :=
  left ((Errand.strings ["x"]).perform (Interpreter.services Natives.standard 12) (asked textual requests))

theorem occurs_stringed (requests : List Request) : Occurs { classPath := .memory 0 "", maxDepth := 8 } (stringed requests) := by
  refine .inl ?_
  rw [stringed, ← Watched.services_id]
  exact .errand 12 (.strings ["x"]) (Watched.visited_performAll ..)

/-- The machine that was started, with a new array of strings. -/
def supplied : Machine := stringed [.bootstrap]

/-- The same where a class file was defined under the name of the array class. -/
def forged : Machine := stringed [.bootstrap, .define 0 (bytes { name := "[Ljava/lang/String;" })]

end Samples

open Samples in
/-- A new array of strings holds a string. -/
theorem Occurs.elements_fit_supplied :
    Occurs { classPath := .memory 0 "", maxDepth := 8 } supplied ∧
      (supplied.objectAt ⟨2⟩).elements = some (.refs #[some ⟨4⟩]) ∧
      ∃ k, (supplied.classAt (supplied.classOf ⟨2⟩)).component = some k ∧
        supplied.isAssignable k (supplied.classOf ⟨4⟩) = true := by
  have hmachine : supplied.unchecked = false ∧ (supplied.objectAt ⟨2⟩).elements = some (.refs #[some ⟨4⟩]) ∧
      ∀ i, i < supplied.classes.size → (supplied.classAt ⟨i⟩).loader = 0 ∧
        ((supplied.classAt ⟨i⟩).component = none → (supplied.classAt ⟨i⟩).isArray = false) ∧
        ((supplied.classAt ⟨i⟩).name = "java/lang/Cloneable" ∨ (supplied.classAt ⟨i⟩).name = "java/io/Serializable" →
          (supplied.classAt ⟨i⟩).interfaces = []) := by decide +kernel
  obtain ⟨hchecked, helements, hclasses⟩ := hmachine
  have hoccurs := occurs_stringed [.bootstrap]
  refine ⟨hoccurs, helements, (Occurs.elements_fit hoccurs).1 ?_ ⟨?_, ?_, hchecked⟩ ⟨2⟩ _ helements ⟨4⟩ (by simp)⟩
  · exact fun c hc _ => (hclasses c.index hc).2.1
  · exact fun c hc => (hclasses c.index hc).1
  · exact fun c hc => (hclasses c.index (index_of_native hoccurs.sound hc)).2.2

open Samples in
/-- A class file that was defined under the name of an array class is taken for the array class. It has no component, so an
array of it holds an element that is of no kind that the class says. -/
theorem forged_array :
    Occurs { classPath := .memory 0 "", maxDepth := 8 } forged ∧ forged.Homely ∧
      (forged.objectAt ⟨2⟩).elements = some (.refs #[some ⟨4⟩]) ∧
      (forged.classAt (forged.classOf ⟨2⟩)).name = "[Ljava/lang/String;" ∧
      (forged.classAt (forged.classOf ⟨2⟩)).component = none ∧ ¬ forged.ElementsFit := by
  have hmachine : forged.unchecked = false ∧ (forged.objectAt ⟨2⟩).elements = some (.refs #[some ⟨4⟩]) ∧
      (forged.classAt (forged.classOf ⟨2⟩)).name = "[Ljava/lang/String;" ∧
      (forged.classAt (forged.classOf ⟨2⟩)).component = none ∧
      ∀ i, i < forged.classes.size → (forged.classAt ⟨i⟩).loader = 0 ∧
        ((forged.classAt ⟨i⟩).name = "java/lang/Cloneable" ∨ (forged.classAt ⟨i⟩).name = "java/io/Serializable" →
          (forged.classAt ⟨i⟩).interfaces = []) := by decide +kernel
  obtain ⟨hchecked, helements, hname, hcomponent, hclasses⟩ := hmachine
  have hoccurs : Occurs _ forged := occurs_stringed _
  refine ⟨hoccurs, ⟨fun c hc => (hclasses c.index hc).1, fun c hc => ?_, hchecked⟩, helements, hname, hcomponent, fun hfit => ?_⟩
  · exact (hclasses c.index (index_of_native hoccurs.sound hc)).2
  · obtain ⟨k, hk, -⟩ := hfit ⟨2⟩ _ helements ⟨4⟩ (by simp)
    cases hcomponent.symm.trans hk

end JavaMachine
