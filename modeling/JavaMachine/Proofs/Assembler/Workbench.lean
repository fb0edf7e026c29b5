import JavaMachine.Proofs.Assembler.Classes

/-!
Classes that are assembled by calls in any order. On a `Workbench` a class is under construction together with the
method bodies that are being written for it, all of which add to the one pool. Whatever the calls are, the class file
they lead to is read back from its bytes. Main results: `Workbench.sound_run`, `Workbench.read_back`.
-/

namespace JavaMachine

open Text

/-- An addition to a pool. -/
inductive PoolCall where
  | utf8 (s : String)
  | int (v : Int32)
  | float (bits : UInt32)
  | long (v : Int64)
  | double (bits : UInt64)
  | class (name : String)
  | string (s : String)
  | nameAndType (name desc : String)
  | member (kind : MemberKind) (owner name desc : String)
  | methodType (desc : String)
  | methodHandle (kind : UInt8) (reference : UInt16)
  | invokeDynamic (bootstrap : UInt16) (name desc : String)

/-- The pool after an addition, with the index that it gave. -/
def PoolCall.perform (b : PoolBuilder) : PoolCall → UInt16 × PoolBuilder
  | .utf8 s => b.utf8 s
  | .int v => b.add (.int v)
  | .float bits => b.add (.float bits)
  | .long v => b.add (.long v)
  | .double bits => b.add (.double bits)
  | .class name => b.className name
  | .string s => b.string s
  | .nameAndType name desc => b.nameAndType name desc
  | .member kind owner name desc => b.memberRef kind owner name desc
  | .methodType desc => b.methodType desc
  | .methodHandle kind reference => b.methodHandle kind reference
  | .invokeDynamic bootstrap name desc => b.invokeDynamic bootstrap name desc

/-- A step in the assembly of a class. Bodies are numbered in the order in which they were begun, or finished. -/
inductive BuilderCall where
  | pool (call : PoolCall)
  | interface (name : String)
  | field (f : FieldSource)
  | sourceFile (name : String)
  | begin
  | write (i : Nat) (s : Statement)
  | finish (i : Nat)
  | method (flags : UInt16) (name desc : String) (body : Option Nat)

/-- A class under construction, the bodies that are being written for it, whose pool is that of the class, and the
bodies that are finished and belong to no method yet. -/
structure Workbench where
  target : ClassBuilder
  bodies : List CodeBuilder := []
  finished : List (UInt16 × CodeBody) := []

namespace Workbench

/-- The workbench after a step; one with a number that there is not does nothing. -/
def perform (w : Workbench) : BuilderCall → Except AssemblyFault Workbench
  | .pool call => .ok { w with target := { w.target with pool := (call.perform w.target.pool).2 } }
  | .interface name => .ok { w with target := w.target.addInterface name }
  | .field f => .ok { w with target := w.target.addField f }
  | .sourceFile name => .ok { w with target := w.target.setSourceFile name }
  | .begin => .ok { w with bodies := w.bodies ++ [{}] }
  | .write i s =>
    match w.bodies[i]? with
    | none => .ok w
    | some b => do
      let b ← { b with pool := w.target.pool }.statement s
      return { w with target := { w.target with pool := b.pool }, bodies := w.bodies.set i b }
  | .finish i =>
    match w.bodies[i]? with
    | none => .ok w
    | some b => do
      let (nameIndex, body, pool) ← { b with pool := w.target.pool }.build
      return { w with target := { w.target with pool }, finished := w.finished ++ [(nameIndex, body)] }
  | .method flags name desc none => .ok { w with target := w.target.declareMethod flags name desc none }
  | .method flags name desc (some i) =>
    match w.finished[i]? with
    | none => .ok w
    | some code =>
      .ok { w with target := w.target.declareMethod flags name desc (some code), finished := w.finished.eraseIdx i }

/-- The workbench after a class was started and the steps were made in order. -/
def run (name super : String) (flags : UInt16) (calls : List BuilderCall) : Except AssemblyFault Workbench :=
  calls.foldlM perform ⟨.start name super flags, [], []⟩

/-- The class is sound, and finished bodies have their names in its pool. -/
structure Sound (w : Workbench) : Prop where
  target : w.target.Sound
  finished : w.target.pool.pool.size ≤ 65535 → ∀ p ∈ w.finished,
    w.target.pool.pool.utf8 p.1 = .ok CodeBuilder.codeName ∧ p.2.Lined w.target.pool.pool

variable {w w' : Workbench}

theorem grows_perform (call : PoolCall) (b : PoolBuilder) : b.Grows (call.perform b).2 := by
  cases call with
  | utf8 s => exact PoolBuilder.grows_utf8 s b
  | «class» name => exact PoolBuilder.grows_className name b
  | string s => exact PoolBuilder.grows_string s b
  | nameAndType name desc => exact PoolBuilder.grows_nameAndType name desc b
  | member kind owner name desc => exact PoolBuilder.grows_memberRef kind owner name desc b
  | methodType desc => exact PoolBuilder.grows_methodType desc b
  | methodHandle kind reference => exact PoolBuilder.grows_methodHandle kind reference b
  | invokeDynamic bootstrap name desc => exact PoolBuilder.grows_invokeDynamic bootstrap name desc b
  | _ => exact PoolBuilder.grows_add (by nofun) b

/-- A step after which the class has grown and no body was finished. -/
theorem Sound.grow (h : w.Sound) {c : ClassBuilder} (hc : w.target.Grows c) (bodies : List CodeBuilder)
    {finished : List (UInt16 × CodeBody)} (hsub : finished ⊆ w.finished) : Sound ⟨c, bodies, finished⟩ := by
  refine ⟨hc.sound h.target, fun hsize p hp => ?_⟩
  obtain ⟨hname, hlined⟩ := h.finished (Nat.le_trans hc.pool.size_le hsize) p (hsub hp)
  exact ⟨hc.pool.utf8 hname, hlined.mono hc.pool⟩

theorem sound_perform (h : w.Sound) {call : BuilderCall} (hcall : w.perform call = .ok w') : w'.Sound := by
  cases call with
  | pool call =>
    cases hcall
    exact h.grow (ClassBuilder.grows_pool (grows_perform call _)) _ (List.Subset.refl _)
  | interface name =>
    cases hcall
    exact h.grow (ClassBuilder.grows_addInterface name _) _ (List.Subset.refl _)
  | field f =>
    cases hcall
    exact h.grow (ClassBuilder.grows_addField f _) _ (List.Subset.refl _)
  | sourceFile name =>
    cases hcall
    exact h.grow (ClassBuilder.grows_setSourceFile name _) _ (List.Subset.refl _)
  | «begin» =>
    cases hcall
    exact ⟨h.target, h.finished⟩
  | write i s =>
    simp only [perform] at hcall
    split at hcall
    · cases hcall
      exact h
    · next b _ =>
      obtain ⟨b', hb, hcall⟩ := exists_of_bind_ok hcall
      cases hcall
      exact h.grow (ClassBuilder.grows_pool (CodeBuilder.grows_statement hb)) _ (List.Subset.refl _)
  | finish i =>
    simp only [perform] at hcall
    split at hcall
    · cases hcall
      exact h
    · next b _ =>
      obtain ⟨⟨nameIndex, body, pool⟩, hb, hcall⟩ := exists_of_bind_ok hcall
      cases hcall
      obtain ⟨hgrows, hbuilt⟩ := CodeBuilder.built_build hb
      have hold := h.grow (ClassBuilder.grows_pool hgrows) w.bodies (List.Subset.refl _)
      refine ⟨hold.target, fun hsize p hp => ?_⟩
      rcases List.mem_append.1 hp with hp | hp
      · exact hold.finished hsize p hp
      · rw [List.mem_singleton.1 hp]
        exact hbuilt h.target.pool hsize
  | method flags name desc body =>
    cases body with
    | none =>
      cases hcall
      exact h.grow (ClassBuilder.grows_declareMethod _ _ _ fun p hp => absurd hp (Option.not_mem_none p)) _ (List.Subset.refl _)
    | some i =>
      simp only [perform] at hcall
      split at hcall
      · cases hcall
        exact h
      · next code hi =>
        cases hcall
        refine h.grow (ClassBuilder.grows_declareMethod _ _ _ fun p hp hsize => ?_) _ (List.eraseIdx_subset)
        cases hp
        exact h.finished hsize code (List.mem_of_getElem? hi)

/-- Whatever the steps are, the indexes that they put into the class file lead to what they were asked for. -/
theorem sound_run {name super : String} {flags : UInt16} {calls : List BuilderCall}
    (h : run name super flags calls = .ok w) : w.Sound := by
  have hstart : Sound ⟨.start name super flags, [], []⟩ := ⟨ClassBuilder.sound_start name super flags, nofun⟩
  unfold run at h
  generalize Workbench.mk (.start name super flags) [] [] = w₀ at h hstart
  induction calls generalizing w₀ with
  | nil =>
    cases h
    exact hstart
  | cons call rest ih =>
    rw [List.foldlM_cons] at h
    obtain ⟨w₁, hcall, h⟩ := exists_of_bind_ok h
    exact ih w₁ h (sound_perform hstart hcall)

/-- A class that was assembled by any calls is read back from its bytes if its sizes stay inside the format, and its
texts are read as those that were asked for. -/
theorem read_back {name super : String} {flags : UInt16} {calls : List BuilderCall}
    (h : run name super flags calls = .ok w) (hsized : w.target.build.Sized) :
    ClassFile.parse w.target.build.encode = .ok w.target.build ∧
      ∀ raw, some (.utf8 raw) ∈ w.target.build.pool → ModifiedUtf8.encodeString (Constant.text raw) = raw := by
  have hsound := sound_run h
  have hfile := hsound.target.file hsized.pool
  refine ⟨ClassFile.parse_encode (ClassFile.Assembled.legible ?_ hsound.target.pool rfl hsized), fun raw hraw => ?_⟩
  · exact { hfile with }
  · obtain ⟨s, rfl⟩ := hsound.target.pool.texts _ hraw raw rfl
    rw [Constant.text, ModifiedUtf8.decodeString_encodeString]
    rfl

/-- A class with a constant, a body with a branch, a handler and a line, and a character above the basic plane. -/
def sampleCalls : List BuilderCall :=
  [.field ⟨0x19, "LIMIT", "J", some (.long 9)⟩, .begin, .write 0 (.label "start"), .write 0 (.line 3),
    .pool (.utf8 "\x00𝄞"), .write 0 (.string "\x00𝄞"), .write 0 (.jump .goto "end"), .write 0 (.label "end"),
    .interface "I", .write 0 (.handler "start" "end" "end" "E"), .write 0 (.plain .areturn), .finish 0,
    .method 9 "m" "()Ljava/lang/String;" (some 0), .sourceFile "A.java"]

theorem read_back_sample : ∃ w, run "A" "java/lang/Object" 0x21 sampleCalls = .ok w ∧ w.target.build.Sized ∧
    ClassFile.parse w.target.build.encode = .ok w.target.build := by
  have hrun : ((run "A" "java/lang/Object" 0x21 sampleCalls).toOption.map fun w =>
      decide w.target.build.Sized) = some true := by decide +kernel
  cases h : run "A" "java/lang/Object" 0x21 sampleCalls with
  | error f =>
    rw [h] at hrun
    cases hrun
  | ok w =>
    rw [h] at hrun
    have hsized : w.target.build.Sized := of_decide_eq_true (Option.some.inj hrun)
    exact ⟨w, rfl, hsized, (read_back h hsized).1⟩

end Workbench

end JavaMachine
