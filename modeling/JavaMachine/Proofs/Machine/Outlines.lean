import JavaMachine.Proofs.Machine.Fit

/-!
What of a class does not change once it is defined. Walks through the hierarchy depend on the cores of classes only:
machines with the same cores look up the same fields (`Machine.lookupField_congr`) and let the same classes be stored in
each other (`Machine.isAssignable_congr`).
-/

namespace JavaMachine

/-- A class without what initialization does not depend on and what changes after its definition. -/
def Class.outline (k : Class) : Class :=
  { k with pool := #[], statics := #[], mirror := none, instanceSlots := 0 }

/-- The outline of a class in any state. -/
def Class.core (k : Class) : Class := { k.outline with state := .unlinked }

theorem Class.core_of_outline {a b : Class} (h : a.outline = b.outline) : a.core = b.core :=
  congrArg (fun k : Class => { k with state := .unlinked }) h

theorem Class.core_of_plan {a b : Class} (h : a.plan = b.plan) : a.core = b.core := Class.of_plan Class.core (fun _ => rfl) h

/-- What does not see the difference between a class and its core is the same for classes of the same core. -/
theorem Class.of_core {α : Type} (f : Class → α) (hf : ∀ k, f k = f k.core) {a b : Class} (h : a.core = b.core) :
    f a = f b := by
  rw [hf, h, ← hf b]

namespace Machine

theorem cores_of_outlines {a b : Machine} (h : b.classes.map Class.outline = a.classes.map Class.outline) :
    b.classes.map Class.core = a.classes.map Class.core := by
  have hcore (classes : Array Class) : (classes.map Class.outline).map Class.core = classes.map Class.core := by
    rw [Array.map_map]
    rfl
  rw [← hcore, h, hcore]

variable {m m' : Machine} (h : m'.classes.map Class.core = m.classes.map Class.core)
include h

theorem size_congr : m'.classes.size = m.classes.size := by
  simpa only [Array.size_map] using congrArg Array.size h

theorem core_congr (c : ClassId) : (m'.classAt c).core = (m.classAt c).core := by
  have hclass := congrArg (·[c.index]?) h
  simp only [Array.getElem?_map] at hclass
  rw [classAt, classAt, Array.getD_eq_getD_getElem?, Array.getD_eq_getD_getElem?]
  have hgetD (k : Option Class) : (k.getD default).core = (k.map Class.core).getD (default : Class).core := by
    cases k <;> rfl
  rw [hgetD, hgetD, hclass]

theorem part_congr {α : Type} (f : Class → α) (hf : ∀ k, f k = f k.core) (c : ClassId) :
    f (m'.classAt c) = f (m.classAt c) := Class.of_core f hf (core_congr h c)

theorem lineageWithin_congr (n : Nat) (c : ClassId) : m'.lineageWithin n c = m.lineageWithin n c := by
  induction n generalizing c with
  | zero => rfl
  | succ n ih =>
    rw [lineageWithin, lineageWithin, part_congr h Class.super fun _ => rfl]
    simp only [ih]

theorem hasInterfaceWithin_congr (target : ClassId) (n : Nat) (c : ClassId) :
    m'.hasInterfaceWithin target n c = m.hasInterfaceWithin target n c := by
  induction n generalizing c with
  | zero => rfl
  | succ n ih =>
    rw [hasInterfaceWithin, hasInterfaceWithin, part_congr h Class.interfaces fun _ => rfl]
    simp only [ih]

theorem lookupFieldWithin_congr (name desc : String) (n : Nat) (c : ClassId) :
    m'.lookupFieldWithin name desc n c = m.lookupFieldWithin name desc n c := by
  induction n generalizing c with
  | zero => rfl
  | succ n ih =>
    rw [lookupFieldWithin, lookupFieldWithin, part_congr h (·.findField name desc) fun _ => rfl,
      part_congr h Class.interfaces fun _ => rfl, part_congr h Class.super fun _ => rfl, funext ih]

theorem lookupField_congr (c : ClassId) (name desc : String) : m'.lookupField c name desc = m.lookupField c name desc := by
  rw [lookupField, lookupField, size_congr h, lookupFieldWithin_congr h]

theorem assignableWithin_congr (n : Nat) (target source : ClassId) :
    m'.assignableWithin n target source = m.assignableWithin n target source := by
  induction n generalizing target source with
  | zero => rfl
  | succ n ih =>
    have part {α : Type} (f : Class → α) (hf : ∀ k, f k = f k.core) := part_congr h f hf
    rw [assignableWithin, assignableWithin]
    simp only [part Class.isArray fun _ => rfl, part Class.component fun _ => rfl, part Class.isPrimitive fun _ => rfl,
      part Class.isInterface fun _ => rfl, part Class.name fun _ => rfl, ih, isSubinterfaceOf, implements, isSubclassOf,
      lineage, lineageWithin_congr h, hasInterfaceWithin_congr h, size_congr h]

/-- What may be stored where depends on the cores of classes only. -/
theorem isAssignable_congr (target source : ClassId) : m'.isAssignable target source = m.isAssignable target source := by
  rw [isAssignable, isAssignable, size_congr h, assignableWithin_congr h]

theorem testHaltWithin_congr (n : Nat) (target source : ClassId) :
    m'.testHaltWithin n target source = m.testHaltWithin n target source := by
  induction n generalizing target source with
  | zero => rfl
  | succ n ih =>
    have part {α : Type} (f : Class → α) (hf : ∀ k, f k = f k.core) := part_congr h f hf
    rw [testHaltWithin, testHaltWithin]
    simp only [nameHalt?, part Class.isArray fun _ => rfl, part Class.component fun _ => rfl,
      part Class.isPrimitive fun _ => rfl, part Class.name fun _ => rfl, ih]

theorem testHalt?_congr (target source : ClassId) : m'.testHalt? target source = m.testHalt? target source := by
  rw [testHalt?, testHalt?, size_congr h, testHaltWithin_congr h]

end Machine

end JavaMachine
