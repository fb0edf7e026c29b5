import JavaMachine.Proofs.Loading.Attained

/-!
Array classes of the bootstrap loader, and the classes of their elements. A field descriptor that stands in the name of
an array class means one class, and the name of the array class is made from a descriptor of that class again.

Main result: where names and descriptors can be told from each other, the class of the elements of the array class that
is found for a class is that class, and the array class that is found for the class of the elements of an array class
is that array class (`Attained.components_correspond`). A class with the keyword of a primitive type as its name cannot
be told from the primitive class (`keyword_taken_for_primitive`).
-/

namespace JavaMachine

open M Attempt

/-! ## Names and descriptors -/

namespace Descriptor

variable {name desc : String}

/-- A name that is not empty, not that of an array class and no keyword has a descriptor that means it. -/
theorem ofClassName_plain (hne : name ≠ "") (harray : name.startsWith "[" = false)
    (hkeyword : primitiveLetter? name = none) : ofClassName name = "L" ++ name ++ ";" := by
  unfold ofClassName
  split
  · next hnil => exact absurd (String.toList_eq_nil_iff.1 hnil) hne
  · next rest hlist =>
    have hstart : name.startsWith "[" := String.startsWith_string_iff.2 ⟨rest, hlist.symm⟩
    rw [hstart] at harray
    cases harray
  · rw [hkeyword]

theorem toClassName_object (name : String) : toClassName ("L" ++ name ++ ";") = name := by
  have hlist : ("L" ++ name ++ ";").toList = 'L' :: (name.toList ++ [';']) := by simp
  unfold toClassName
  rw [hlist]
  cases hname : name.toList ++ [';'] with
  | nil => simp at hname
  | cons c rest => simp [← hname]

theorem toClassName_array (h : desc.startsWith "[") (hlong : ∀ letter, desc.toList ≠ [letter]) : toClassName desc = desc := by
  obtain ⟨rest, hrest⟩ := String.startsWith_string_iff.1 h
  have hlist : desc.toList = '[' :: rest := hrest.symm
  unfold toClassName
  split
  · next hnil => rw [hnil] at hlist; cases hlist
  · next c hc => exact absurd hc (hlong c)
  · next hl => rw [hl] at hlist; cases hlist
  · rfl

theorem ofClassName_array (h : name.startsWith "[") : ofClassName name = name := by
  obtain ⟨rest, hrest⟩ := String.startsWith_string_iff.1 h
  have hlist : name.toList = '[' :: rest := hrest.symm
  unfold ofClassName
  rw [hlist]
  rfl

/-- No primitive type has the empty keyword. -/
theorem ne_empty_of_primitiveName? {letter : Char} (h : primitiveName? letter = some name) : name ≠ "" := by
  rintro rfl
  have hletter := (of_primitiveName? h).2.1
  cases hletter

/-- A field descriptor means a class that has a name. -/
theorem toClassName_ne_empty (h : isField desc) : toClassName desc ≠ "" := by
  have hdesc : desc ≠ "" := by
    rintro rfl
    cases h
  unfold toClassName
  split
  · next hnil => exact absurd (String.toList_eq_nil_iff.1 hnil) hdesc
  · next letter _ =>
    cases hname : primitiveName? letter with
    | none => exact hdesc
    | some name => exact ne_empty_of_primitiveName? hname
  · next rest _ hlist =>
    split
    · next hlast =>
      -- there is a character before the semicolon
      intro hempty
      rw [String.ofList_eq_empty_iff] at hempty
      have hrest : rest = [';'] := by
        rw [← List.dropLast_append_getLast? ';' hlast, hempty]
        rfl
      rw [isField, hlist, hrest] at h
      cases h
    · exact hdesc
  · exact hdesc

end Descriptor

/-- The name of the class of arrays whose elements are of a class. -/
def Class.arrayName (k : Class) : String := if k.isArray then "[" ++ k.name else "[" ++ k.descriptor

theorem Class.element_append {k : Class} {desc : String} (h : k.name = "[" ++ desc) : k.element = desc := by
  rw [Class.element, h, ← String.toList_inj]
  simp

theorem append_element {k : Class} (h : k.name.startsWith "[") : k.name = "[" ++ k.element := by
  obtain ⟨rest, hrest⟩ := String.startsWith_string_iff.1 h
  rw [Class.element, ← String.toList_inj]
  simp [← hrest]

/-- Asking for the class of arrays of a class that has a name is asking its loader for a name. -/
theorem Linking.run_arrayClassOf (s : Services) {c : ClassId} {m : Machine} (hname : (m.classAt c).name ≠ "") :
    (arrayClassOf s c).run m = (s.load (m.classAt c).loader (m.classAt c).arrayName).run m := by
  have hrun : (arrayClassOf s c).run m = (do
      let isArray ← liftM (do haltFor (m.nameHalt? c); pure (m.classAt c).isArray : M Bool)
      s.load (m.classAt c).loader (if isArray then "[" ++ (m.classAt c).name else "[" ++ (m.classAt c).descriptor) :
        Attempt ClassId).run m := rfl
  rw [hrun, Machine.nameHalt?, if_neg hname]
  rfl

/-- There is a class of arrays only of a class that has a name. -/
theorem Linking.named_of_arrayClassOf {s : Services} {c : ClassId} {m m' : Machine} {r : Except Failure ClassId}
    (h : (arrayClassOf s c).run m = .ok r m') : (m.classAt c).name ≠ "" := by
  intro hname
  have hrun : (arrayClassOf s c).run m = (do
      let isArray ← liftM (do haltFor (m.nameHalt? c); pure (m.classAt c).isArray : M Bool)
      s.load (m.classAt c).loader (if isArray then "[" ++ (m.classAt c).name else "[" ++ (m.classAt c).descriptor) :
        Attempt ClassId).run m := rfl
  rw [hrun, Machine.nameHalt?, if_pos hname] at h
  cases h

/-- A class that a loader knows is found at once. -/
theorem Linking.run_loadClass_loaded {s : Services} {m : Machine} {l : Nat} {name : String} {c : ClassId}
    (h : m.loaded? l name = some c) : (loadClass s l name).run m = .ok (.ok c) m := by
  have hget : (get : Attempt Machine).run m = .ok (.ok m) m := rfl
  rw [loadClass, Attempt.run_bind, hget]
  dsimp only
  rw [h]
  rfl

namespace Machine.Sound

variable {m : Machine} (hm : m.Sound) {a c d : ClassId}
include hm

/-- There is one class of each primitive type. -/
theorem primitive_unique (hc : c.index < m.classes.size) (hd : d.index < m.classes.size) {letter : Char}
    (h : (m.classAt c).primitive = some letter) (h' : (m.classAt d).primitive = some letter) : c = d := by
  obtain ⟨hname, hlookup, -⟩ := hm.letters c hc letter h
  obtain ⟨hname', hlookup', -⟩ := hm.letters d hd letter h'
  rw [Option.some_inj.1 (hname.symm.trans hname')] at hlookup
  exact Option.some_inj.1 (hlookup.symm.trans hlookup')

/-- The class of a primitive type is named by its keyword. -/
theorem primitive_named (hc : c.index < m.classes.size) {letter : Char} (h : (m.classAt c).primitive = some letter) :
    (m.classAt c).isArray = false ∧ Descriptor.primitiveLetter? (m.classAt c).name = some letter ∧
      Descriptor.ofClassName (m.classAt c).name = String.singleton letter :=
  Descriptor.of_primitiveName? (hm.letters c hc letter h).1

/-- The class that a descriptor in the name of an array class means is the one from which the name is made, if no
other class has the keyword of a primitive type as its name, and there is no second class of char arrays. -/
theorem component_eq (hc : c.index < m.classes.size) (hloader : (m.classAt c).loader = 0)
    (hkeyword : (m.classAt c).primitive = none → Descriptor.primitiveLetter? (m.classAt c).name = none)
    (hchars : (m.classAt c).name = charArrayName → ∀ k, (charArrayName, k) ∈ (m.loaderAt 0).classes → k = c)
    (ha : a.index < m.classes.size) (haloader : (m.classAt a).loader = 0)
    (hname : (m.classAt a).name = (m.classAt c).arrayName) (hd : (m.classAt a).component = some d) : d = c := by
  obtain ⟨hdloader, hdescribed⟩ := (hm.laid a ha).element d hd
  have hdvalid : d.index < m.classes.size := Nat.lt_trans ((hm.laid a ha).component d hd) ha
  rw [haloader] at hdloader
  cases hprimitive : (m.classAt c).primitive with
  | some letter =>
    have helement : (m.classAt a).element = String.singleton letter := by
      refine Class.element_append (hname.trans ?_)
      rw [Class.arrayName, (hm.primitive_named hc hprimitive).1, Class.descriptor, hprimitive]
      rfl
    rw [helement] at hdescribed
    exact hm.primitive_unique hdvalid hc (hdescribed.primitive letter (by simp)) hprimitive
  | none =>
    have hkeyword := hkeyword hprimitive
    have hnamed : (m.classAt d).name = (m.classAt c).name := by
      by_cases harray : (m.classAt c).isArray
      · have helement : (m.classAt a).element = (m.classAt c).name :=
          Class.element_append (hname.trans (if_pos harray))
        rw [helement] at hdescribed
        have hlong (letter : Char) : (m.classAt c).name.toList ≠ [letter] := by
          -- the name would be one bracket, which no primitive type has as its letter
          intro hshort
          obtain ⟨rest, hrest⟩ := String.startsWith_string_iff.1 harray
          rw [hshort] at hrest
          have hletter : '[' = letter := (List.cons.inj hrest).1
          subst hletter
          have hkeyword := (hm.letters d hdvalid _ (hdescribed.primitive _ hshort)).1
          cases hkeyword
        rw [hdescribed.name hlong, Descriptor.toClassName_array harray hlong]
      · have helement : (m.classAt a).element = Descriptor.ofClassName (m.classAt c).name := by
          refine Class.element_append (hname.trans ?_)
          rw [Class.arrayName, if_neg harray, Class.descriptor, hprimitive]
        rw [helement] at hdescribed
        by_cases hempty : (m.classAt c).name = ""
        · rw [hempty] at hdescribed ⊢
          exact hdescribed.name nofun
        · have hplain := Descriptor.ofClassName_plain hempty (Bool.eq_false_iff.2 harray) hkeyword
          rw [hplain] at hdescribed
          rw [hdescribed.name (by simp), Descriptor.toClassName_object]
    have hordinary : (m.classAt d).primitive = none := by
      refine Option.eq_none_iff_forall_ne_some.2 fun letter hletter => ?_
      have hfound := (hm.primitive_named hdvalid hletter).2.1
      rw [hnamed, hkeyword] at hfound
      cases hfound
    have hknown := hm.known d hdvalid hordinary
    have hknown' := hm.known c hc hprimitive
    rw [hdloader, hnamed] at hknown
    rw [hloader] at hknown'
    by_cases hc : (m.classAt c).name = charArrayName
    · exact hchars hc d (hc ▸ hknown)
    · exact hm.alone _ d c hc hknown hknown'

/-- The class of the elements of an array class has a name. -/
theorem component_name_ne_empty (ha : a.index < m.classes.size) (hd : (m.classAt a).component = some d) :
    (m.classAt d).name ≠ "" := by
  obtain ⟨-, hdescribed⟩ := (hm.laid a ha).element d hd
  have hdvalid : d.index < m.classes.size := Nat.lt_trans ((hm.laid a ha).component d hd) ha
  by_cases hshort : ∃ letter, (m.classAt a).element.toList = [letter]
  · obtain ⟨letter, hletter⟩ := hshort
    exact Descriptor.ne_empty_of_primitiveName? (hm.letters d hdvalid letter (hdescribed.primitive letter hletter)).1
  · rw [hdescribed.name fun letter h => hshort ⟨letter, h⟩]
    exact Descriptor.toClassName_ne_empty ((hm.laid a ha).array (by rw [hd]; exact Option.some_ne_none d)).element

/-- The name of an array class is made from the class of its elements, if class names and descriptors can be turned into
each other. -/
theorem arrayName_component (ha : a.index < m.classes.size) (hd : (m.classAt a).component = some d)
    (hinverse : Descriptor.ofClassName (Descriptor.toClassName (m.classAt a).element) = (m.classAt a).element) :
    (m.classAt d).arrayName = (m.classAt a).name := by
  obtain ⟨-, hdescribed⟩ := (hm.laid a ha).element d hd
  have hdvalid : d.index < m.classes.size := Nat.lt_trans ((hm.laid a ha).component d hd) ha
  have harray := ((hm.laid a ha).array (by rw [hd]; exact Option.some_ne_none d)).name
  rw [append_element harray]
  by_cases hshort : ∃ letter, (m.classAt a).element.toList = [letter]
  · obtain ⟨letter, hletter⟩ := hshort
    have hprimitive := hdescribed.primitive letter hletter
    rw [Class.arrayName, (hm.primitive_named hdvalid hprimitive).1, Class.descriptor, hprimitive]
    have helement : (m.classAt a).element = String.singleton letter := by
      rw [← String.toList_inj, hletter]
      simp
    rw [helement]
    rfl
  · have hlong : ∀ letter, (m.classAt a).element.toList ≠ [letter] := fun letter h => hshort ⟨letter, h⟩
    rw [← hdescribed.name hlong] at hinverse
    by_cases hnested : (m.classAt d).isArray
    · rw [Class.arrayName, if_pos hnested, ← hinverse, Descriptor.ofClassName_array hnested]
    · rw [Class.arrayName, if_neg hnested, Class.descriptor]
      cases hprimitive : (m.classAt d).primitive with
      | some letter =>
        rw [(hm.primitive_named hdvalid hprimitive).2.2] at hinverse
        exact absurd (by rw [← hinverse]; simp) (hlong letter)
      | none => rw [hinverse]

end Machine.Sound

/-! ## Loads -/

/-- No class file was defined under the name of an array class in the bootstrap loader. -/
def Machine.LegalNames (m : Machine) : Prop :=
  ∀ c, c.index < m.classes.size → (m.classAt c).loader = 0 → (m.classAt c).component = none →
    (m.classAt c).isArray = false

/-- What a load of the bootstrap loader comes to. The class files that it reads have legal names. -/
theorem Attained.of_load {m m' : Machine} (h : Attained m) {level : Nat} {name : String} {a : ClassId}
    (hrun : ((Interpreter.services Natives.standard level).load 0 name).run m = .ok (.ok a) m') :
    m'.Sound ∧ Succeeds m m' ∧ (m.LegalNames → m'.LegalNames) ∧ Loaded 0 name m a m' := by
  have hload := ((Interpreter.growing_services level).2.load m.guard 0 name m).outcome ⟨h.sound, .refl _⟩
  rw [hrun] at hload
  obtain ⟨⟨hm', -⟩, hstep, hloaded⟩ := hload
  have hsucc := hstep.evolves.toSucceeds
  refine ⟨hm', hsucc, fun hlegal c hc hloader hcomponent => ?_, hloaded⟩
  rcases Nat.lt_or_ge c.index m.classes.size with hold | hnew
  · rw [hsucc.isArray hold]
    exact hlegal c hold ((hsucc.loader hold).symm.trans hloader) ((hsucc.component hold).symm.trans hcomponent)
  · exact (hstep.booted rfl c hnew hc).named hcomponent

/-- What the bootstrap loader finds under the name of an array class has elements of a class of its own. -/
theorem Loaded.component {m m' : Machine} {name : String} {a : ClassId} (h : Loaded 0 name m a m') (hm' : m'.Sound)
    (hlegal : m'.LegalNames) (hname : name.startsWith "[") :
    (m'.classAt a).loader = 0 ∧ ∃ d, (m'.classAt a).component = some d ∧ (m'.classAt d).loader = 0 := by
  obtain ⟨hvalid, hnamed, hboot⟩ := hm'.named 0 name a (h.answers.known rfl)
  obtain ⟨hloader, -⟩ := hboot rfl
  cases hcomponent : (m'.classAt a).component with
  | none =>
    have hplain := hlegal a hvalid hloader hcomponent
    rw [Class.isArray, hnamed, hname] at hplain
    cases hplain
  | some d => exact ⟨hloader, d, rfl, ((hm'.laid a hvalid).element d hcomponent).1.trans hloader⟩

/-- Of what the bootstrap loader loads, where class files have legal names: the elements of the class of arrays that is
found for a class are of that class, if it is not one with a keyword as its name, and not one of two classes of char
arrays. And the class of arrays that is found for the elements of an array class is that array class, if the class name
that is in its name can be turned into the descriptor again. -/
theorem Attained.components_correspond {m m' : Machine} (h : Attained m) (hlegal : m.LegalNames) (level : Nat) :
    (∀ c a, c.index < m.classes.size → (m.classAt c).loader = 0 →
      ((m.classAt c).primitive = none → Descriptor.primitiveLetter? (m.classAt c).name = none) →
      (Linking.arrayClassOf (Interpreter.services Natives.standard level) c).run m = .ok (.ok a) m' →
      ((m.classAt c).name = Machine.charArrayName →
        ∀ k, (Machine.charArrayName, k) ∈ (m'.loaderAt 0).classes → k = c) →
      (m'.classAt a).component = some c) ∧
    ∀ name a, name.startsWith "[" →
      Descriptor.ofClassName (Descriptor.toClassName (name.drop 1).toString) = (name.drop 1).toString →
      ((Interpreter.services Natives.standard level).load 0 name).run m = .ok (.ok a) m' →
      ∃ d, (m'.classAt a).component = some d ∧ ∀ level',
        (Linking.arrayClassOf (Interpreter.services Natives.standard (level' + 1)) d).run m' = .ok (.ok a) m' := by
  refine ⟨fun c a hc hloader hkeyword hrun hchars => ?_, fun name a hname hinverse hrun => ?_⟩
  · rw [Linking.run_arrayClassOf _ (Linking.named_of_arrayClassOf hrun), hloader] at hrun
    obtain ⟨hm', hsucc, hlegal', hloaded⟩ := h.of_load hrun
    have harray : (m.classAt c).arrayName.startsWith "[" := by
      rw [Class.arrayName, String.startsWith_string_iff]
      split <;> simp
    obtain ⟨haloader, d, hd, -⟩ := hloaded.component hm' (hlegal' hlegal) harray
    have hname' : (m'.classAt a).name = (m'.classAt c).arrayName := by
      rw [hloaded.answers.named]
      exact (hsucc.part hc Class.arrayName fun _ => rfl).symm
    rw [← hm'.component_eq (Nat.lt_of_lt_of_le hc hsucc.size) ((hsucc.loader hc).trans hloader) ?_ ?_
      hloaded.answers.valid haloader hname' hd]
    · exact hd
    · rw [hsucc.primitive hc, hsucc.name hc]
      exact hkeyword
    · rw [hsucc.name hc]
      exact hchars
  · obtain ⟨hm', -, hlegal', hloaded⟩ := h.of_load hrun
    obtain ⟨-, d, hd, hdloader⟩ := hloaded.component hm' (hlegal' hlegal) hname
    have helement : (m'.classAt a).element = (name.drop 1).toString := by
      rw [Class.element, hloaded.answers.named]
    refine ⟨d, hd, fun level' => ?_⟩
    have hsame := hm'.arrayName_component hloaded.answers.valid hd (by rw [helement]; exact hinverse)
    rw [Linking.run_arrayClassOf _ (hm'.component_name_ne_empty hloaded.answers.valid hd), hdloader, hsame,
      hloaded.answers.named]
    change (Linking.loadClass (Interpreter.services Natives.standard level') 0 name).run m' = _
    exact Linking.run_loadClass_loaded (hloaded.latest rfl)

namespace Samples

/-- What array classes need, and a class that has the keyword of a primitive type as its name. -/
def keywords : List ClassSource := [
  root, { name := "java/lang/Cloneable", flags := 0x601 }, { name := "java/io/Serializable", flags := 0x601 },
  { name := "int" }]

/-- The machine that has loaded that class. -/
def keyworded : Machine := asked keywords [.load 0 "int"]

/-- The class that is loaded for the name of an array class, with the class of its elements. -/
def arraysNamed (name : String) : Option (String × Option ClassId) :=
  match ((Interpreter.services Natives.standard 12).load 0 name).run keyworded with
  | .ok (.ok a) m' => some ((m'.classAt a).name, (m'.classAt a).component)
  | _ => none

theorem of_arraysNamed {name : String} {r : String × Option ClassId} (h : arraysNamed name = some r) :
    ∃ a m', ((Interpreter.services Natives.standard 12).load 0 name).run keyworded = .ok (.ok a) m' ∧
      ((m'.classAt a).name, (m'.classAt a).component) = r := by
  unfold arraysNamed at h
  split at h
  · next a m' hrun => exact ⟨a, m', hrun, Option.some_inj.1 h⟩
  · cases h

theorem legal_keyworded : keyworded.LegalNames := by
  have hall : ∀ i, i < keyworded.classes.size → (keyworded.classAt ⟨i⟩).loader = 0 →
      (keyworded.classAt ⟨i⟩).component = none → (keyworded.classAt ⟨i⟩).isArray = false := by decide +kernel
  exact fun c => hall c.index

end Samples

open Samples in
/-- The class of arrays of objects, and an array class with arrays of numbers as its elements. -/
theorem Attained.components_correspond_keyworded :
    (∃ a m', (Linking.arrayClassOf (Interpreter.services Natives.standard 12) ⟨9⟩).run keyworded = .ok (.ok a) m' ∧
      (m'.classAt a).name = "[Ljava/lang/Object;" ∧ (m'.classAt a).component = some ⟨9⟩) ∧
    ∃ a m' d, ((Interpreter.services Natives.standard 12).load 0 "[[I").run keyworded = .ok (.ok a) m' ∧
      (m'.classAt a).component = some d ∧ ∀ level',
        (Linking.arrayClassOf (Interpreter.services Natives.standard (level' + 1)) d).run m' = .ok (.ok a) m' := by
  have hevents : keyworded.classes.size = 11 ∧ (keyworded.classAt ⟨9⟩).loader = 0 ∧
      (keyworded.classAt ⟨9⟩).arrayName = "[Ljava/lang/Object;" ∧ (keyworded.classAt ⟨9⟩).name = Machine.objectName ∧
      (arraysNamed "[Ljava/lang/Object;").isSome ∧ (arraysNamed "[[I").isSome := by decide +kernel
  obtain ⟨hsize, hloader, harray, hname, hobjects, hnumbers⟩ := hevents
  obtain ⟨_, hobjects⟩ := Option.isSome_iff_exists.1 hobjects
  obtain ⟨_, hnumbers⟩ := Option.isSome_iff_exists.1 hnumbers
  obtain ⟨a, m', hrun, -⟩ := of_arraysNamed hobjects
  obtain ⟨a', m'', hrun', -⟩ := of_arraysNamed hnumbers
  have hattained : Attained keyworded := attained_asked keywords _
  have hrunOf : (Linking.arrayClassOf (Interpreter.services Natives.standard 12) ⟨9⟩).run keyworded =
      .ok (.ok a) m' := by
    rw [Linking.run_arrayClassOf _ (hname.trans_ne (by decide +kernel)), hloader, harray]
    exact hrun
  have hcomponent := (components_correspond hattained legal_keyworded 12).1 ⟨9⟩ a (by rw [hsize]; decide) hloader
    (fun _ => by rw [hname]; decide +kernel) hrunOf fun hchars => by
      rw [hname] at hchars
      exact absurd hchars (by decide +kernel)
  obtain ⟨d, hd, hback⟩ := (components_correspond hattained legal_keyworded 12).2 "[[I" a' (by decide +kernel)
    (by decide +kernel) hrun'
  obtain ⟨-, -, -, hloaded⟩ := hattained.of_load hrun
  exact ⟨⟨a, m', hrunOf, hloaded.answers.named, hcomponent⟩, a', m'', d, hrun', hd, hback⟩

open Samples in
/-- The class of arrays that is found for a class with the keyword of a primitive type as its name has elements of the
primitive type, and a descriptor in the name of an array class is not always found again. -/
theorem keyword_taken_for_primitive :
    Attained keyworded ∧ keyworded.LegalNames ∧ (keyworded.classAt (sample 0)).name = "int" ∧
      (keyworded.classAt (sample 0)).primitive = none ∧ (keyworded.classAt ⟨4⟩).primitive = some 'I' ∧
      (∃ a m', (Linking.arrayClassOf (Interpreter.services Natives.standard 12) (sample 0)).run keyworded =
        .ok (.ok a) m' ∧ (m'.classAt a).component = some ⟨4⟩) ∧
      (∃ a m', ((Interpreter.services Natives.standard 12).load 0 "[Lint;").run keyworded = .ok (.ok a) m' ∧
        (m'.classAt a).component = some (sample 0)) ∧
      Descriptor.ofClassName (Descriptor.toClassName "Lint;") = "I" := by
  have hevents : (keyworded.classAt (sample 0)).name = "int" ∧ (keyworded.classAt (sample 0)).primitive = none ∧
      (keyworded.classAt ⟨4⟩).primitive = some 'I' ∧ (keyworded.classAt (sample 0)).loader = 0 ∧
      (keyworded.classAt (sample 0)).arrayName = "[I" ∧ arraysNamed "[I" = some ("[I", some ⟨4⟩) ∧
      arraysNamed "[Lint;" = some ("[Lint;", some (sample 0)) ∧
      Descriptor.ofClassName (Descriptor.toClassName "Lint;") = "I" := by decide +kernel
  obtain ⟨hname, hprimitive, hletter, hloader, harray, hnumbers, hnamed, hdescriptor⟩ := hevents
  obtain ⟨a, m', hrun, hmade⟩ := of_arraysNamed hnumbers
  obtain ⟨a', m'', hrun', hmade'⟩ := of_arraysNamed hnamed
  refine ⟨attained_asked keywords _, legal_keyworded, hname, hprimitive, hletter, ⟨a, m', ?_, (Prod.mk.inj hmade).2⟩,
    ⟨a', m'', hrun', (Prod.mk.inj hmade').2⟩, hdescriptor⟩
  rw [Linking.run_arrayClassOf _ (hname.trans_ne (by decide +kernel)), hloader, harray]
  exact hrun

end JavaMachine
