import JavaMachine.Proofs.Fields.Operands
import JavaMachine.Proofs.Machine.Natives
import JavaMachine.Proofs.Machine.Plans
import Mathlib.Algebra.Group.Nat.Defs
import Mathlib.Data.List.Dedup

/-!
Identity hashes. An object that is asked for its hash for the first time takes the next multiple of an odd step, and one
that was asked before keeps what it has. `Machine.Identifying` is a run of such calls, with whatever else happens between
them. One call preserves that objects have the multiples in the order in which they were asked first
(`Machine.Numbered.perform`), and so does a whole run (`Machine.Identifying.numbered`). Main results: `hashAt_injective`,
by which the multiples differ until the step has gone through all words, and `identities_apart`.
-/

namespace JavaMachine

open M

/-! ## The multiples of the step -/

/-- The hash that is handed out for a value of the seed: zero would mean that there is none. -/
def handed (seed : Int32) : Int32 := if seed = 0 then 1 else seed

/-- The hash of the object that is asked first after so many others. -/
def hashAt (n : Nat) : Int32 := handed (Int32.ofNat (n + 1) * hashStep)

theorem handed_ne_zero (seed : Int32) : handed seed ≠ 0 := by
  rw [handed]
  split
  · decide
  · assumption

/-- The step is odd, so that multiplying with it can be undone. -/
theorem mul_hashStep_injective {a b : Int32} (h : a * hashStep = b * hashStep) : a = b := by
  have hinverse : hashStep * 0xebb34377 = 1 := by decide
  calc
    a = a * (hashStep * 0xebb34377) := by rw [hinverse, Int32.mul_one]
    _ = b * (hashStep * 0xebb34377) := by rw [← Int32.mul_assoc, h, Int32.mul_assoc]
    _ = b := by rw [hinverse, Int32.mul_one]

/-- Counts that are words differ as words. -/
theorem ofNat_injective {i j : Nat} (hi : i < 2 ^ 32) (hj : j < 2 ^ 32) (h : Int32.ofNat i = Int32.ofNat j) : i = j := by
  have hwords : (Int32.ofNat i).toUInt32.toNat = (Int32.ofNat j).toUInt32.toNat := by rw [h]
  simp only [Int32.toUInt32_ofNat', UInt32.toNat_ofNat'] at hwords
  rwa [Nat.mod_eq_of_lt hi, Nat.mod_eq_of_lt hj] at hwords

/-- The seed is not zero again until the step has gone through all words. -/
theorem hashAt_eq {n : Nat} (h : n < 2 ^ 32 - 1) : hashAt n = Int32.ofNat (n + 1) * hashStep := by
  rw [hashAt, handed, if_neg]
  intro hzero
  have hcount := mul_hashStep_injective (hzero.trans Int32.zero_mul.symm)
  exact Nat.succ_ne_zero n (ofNat_injective (by omega) (by omega) hcount)

theorem hashAt_injective {i j : Nat} (hi : i < 2 ^ 32 - 1) (hj : j < 2 ^ 32 - 1) (h : hashAt i = hashAt j) : i = j := by
  rw [hashAt_eq hi, hashAt_eq hj] at h
  exact Nat.succ.inj (ofNat_injective (by omega) (by omega) (mul_hashStep_injective h))

/-- The next object would have the hash of one that has come before. -/
example : hashAt (2 ^ 32 - 1) = hashAt 0xebb34376 := by decide

/-! ## Calls -/

/-- The machine in which an object has taken the next hash. -/
def Machine.identifying (m : Machine) (r : Ref) : Machine :=
  let next := m.hashSeed + hashStep
  { m with hashSeed := next, heap := m.heap.modify r.index fun o => { o with hash := handed next } }

theorem M.run_identityHash (r : Ref) (m : Machine) :
    identityHash r m =
      if (m.objectAt r).hash = 0 then .ok (handed (m.hashSeed + hashStep)) (m.identifying r)
      else .ok (m.objectAt r).hash m := by
  rw [identityHash, run_bind (run_objectAt r m)]
  by_cases hhash : (m.objectAt r).hash = 0
  · rw [if_neg (not_not.2 hhash), if_pos hhash]
    rfl
  · rw [if_pos hhash, if_neg hhash]
    rfl

/-- A call, by the object that was asked and the hash that it answered with. -/
structure HashAnswer where
  object : Ref
  hash : Int32
deriving DecidableEq, Repr

/-- The objects that were asked, the latest first, each at the place where it was asked first. -/
def askedObjects (log : List HashAnswer) : List Ref := (log.map HashAnswer.object).dedup

theorem mem_askedObjects {log : List HashAnswer} {r : Ref} : r ∈ askedObjects log ↔ ∃ e ∈ log, e.object = r := by
  rw [askedObjects, List.mem_dedup, List.mem_map]

section natives

variable {m : Machine} {a : Activation} {rest : List Frame} {r : Ref}

/-- The native method of objects makes the call for its receiver. -/
theorem native_hashCode (hframes : m.frames = .active a :: rest) (hreceiver : a.locals[0]?.map Slot.ref? = some (some r))
    (s : Services) :
    ∃ act, Natives.standard.find? "java/lang/Object" "hashCode" "()I" = some act ∧
      act s m = (do pushInt (← identityHash r)) m := by
  refine ⟨_, Natives.find?_standard 130 (by decide +kernel) rfl, ?_⟩
  have hrun : M.receiver m = .ok r m := by
    rw [M.receiver, run_bind (run_localRef hframes hreceiver)]
    rfl
  dsimp only
  rw [run_bind hrun]

/-- That of the system makes it for its argument, and null has the hash zero, which no object has. -/
theorem native_identityHashCode {argument : Option Ref} (hframes : m.frames = .active a :: rest)
    (hargument : a.locals[0]?.map Slot.ref? = some argument) (s : Services) :
    ∃ act, Natives.standard.find? "java/lang/System" "identityHashCode" "(Ljava/lang/Object;)I" = some act ∧
      act s m = (argument.elim (pushInt 0) fun r => do pushInt (← identityHash r)) m := by
  refine ⟨_, Natives.find?_standard 105 (by decide +kernel) rfl, ?_⟩
  dsimp only
  rw [run_bind (run_localRef hframes hargument)]
  cases argument <;> rfl

end natives

namespace Machine

/-- What may happen between calls: nobody else moves the seed or writes the hash of an object. -/
structure SparesHashes (m m' : Machine) : Prop where
  seed : m'.hashSeed = m.hashSeed
  hash : ∀ r, (m'.objectAt r).hash = (m.objectAt r).hash

/-- A new object is without a hash. -/
theorem sparesHashes_push {m : Machine} {o : Object} (h : o.hash = 0) :
    m.SparesHashes { m with heap := m.heap.push o } where
  seed := rfl
  hash r := by
    simp only [objectAt, Array.getD_eq_getD_getElem?, Array.getElem?_push]
    split
    · next hr =>
      rw [hr, Array.getElem?_eq_none (Nat.le_refl _)]
      exact h
    · rfl

/-- Calls from a machine on, and what happens between them. The answers are noted, the latest first. -/
inductive Identifying (m₀ : Machine) : List HashAnswer → Machine → Prop where
  | start : Identifying m₀ [] m₀
  | between {log m m'} (h : Identifying m₀ log m) (hspares : m.SparesHashes m') : Identifying m₀ log m'
  | call {log m m' r v} (h : Identifying m₀ log m) (hvalid : r.index < m.heap.size)
      (hrun : identityHash r m = .ok v m') : Identifying m₀ (⟨r, v⟩ :: log) m'

/-- No object has a hash yet. -/
structure Unidentified (m : Machine) : Prop where
  seed : m.hashSeed = 0
  hash : ∀ r, (m.objectAt r).hash = 0

/-- Objects have their hashes by the order in which they were asked first. -/
structure Numbered (m : Machine) (log : List HashAnswer) : Prop where
  seed : m.hashSeed = Int32.ofNat (askedObjects log).length * hashStep
  numbered : ∀ r before, r :: before <:+ askedObjects log → (m.objectAt r).hash = hashAt before.length
  unasked : ∀ r ∉ askedObjects log, (m.objectAt r).hash = 0
  answers : ∀ e ∈ log, (m.objectAt e.object).hash = e.hash

variable {m₀ m m' : Machine} {log : List HashAnswer} {r r' : Ref}

theorem Unidentified.numbered (h : m.Unidentified) : m.Numbered [] where
  seed := h.seed
  numbered r before hsuffix := by simp [askedObjects] at hsuffix
  unasked r _ := h.hash r
  answers e he := by cases he

theorem Numbered.between (h : m.Numbered log) (hspares : m.SparesHashes m') : m'.Numbered log where
  seed := hspares.seed.trans h.seed
  numbered r before hsuffix := (hspares.hash r).trans (h.numbered r before hsuffix)
  unasked r hr := (hspares.hash r).trans (h.unasked r hr)
  answers e he := (hspares.hash e.object).trans (h.answers e he)

/-- An object is without a hash just if it was not asked. -/
theorem Numbered.hash_eq_zero_iff (h : m.Numbered log) : (m.objectAt r).hash = 0 ↔ r ∉ askedObjects log := by
  refine ⟨fun hzero hr => ?_, h.unasked r⟩
  obtain ⟨after, before, hsplit⟩ := List.append_of_mem hr
  have hnumbered := h.numbered r before ⟨after, hsplit.symm⟩
  exact handed_ne_zero _ (hnumbered.symm.trans hzero)

/-! ## What one call preserves -/

/-- An object that was asked before answers as it did, and the machine stays. -/
theorem Numbered.again (h : m.Numbered log) (hr : r ∈ askedObjects log) :
    identityHash r m = .ok (m.objectAt r).hash m ∧ m.Numbered (⟨r, (m.objectAt r).hash⟩ :: log) := by
  have hobjects (v : Int32) : askedObjects (⟨r, v⟩ :: log) = askedObjects log :=
    List.dedup_cons_of_mem (List.mem_dedup.1 hr)
  refine ⟨?_, ?_, ?_, ?_, ?_⟩
  · rw [run_identityHash, if_neg (mt h.hash_eq_zero_iff.1 (not_not.2 hr))]
  · rw [hobjects]
    exact h.seed
  · rw [hobjects]
    exact h.numbered
  · rw [hobjects]
    exact h.unasked
  · intro e he
    rcases List.mem_cons.1 he with rfl | he
    · rfl
    · exact h.answers e he

theorem hash_identifying (hvalid : r.index < m.heap.size) :
    ((m.identifying r).objectAt r').hash =
      if r = r' then handed (m.hashSeed + hashStep) else (m.objectAt r').hash := by
  have hobject : (m.identifying r).objectAt r' =
      { m with heap := m.heap.modify r.index fun o => { o with hash := handed (m.hashSeed + hashStep) } }.objectAt r' := by
    simp only [objectAt, identifying]
  rw [hobject, objectAt_modify]
  by_cases hr : r = r'
  · rw [if_pos ⟨hr, hvalid⟩, if_pos hr]
  · rw [if_neg fun hboth => hr hboth.1, if_neg hr]

/-- An object that is asked for the first time takes the hash of its place. -/
theorem Numbered.anew (h : m.Numbered log) (hr : r ∉ askedObjects log) (hvalid : r.index < m.heap.size) :
    identityHash r m = .ok (hashAt (askedObjects log).length) (m.identifying r) ∧
      (m.identifying r).Numbered (⟨r, hashAt (askedObjects log).length⟩ :: log) := by
  have hobjects (v : Int32) : askedObjects (⟨r, v⟩ :: log) = r :: askedObjects log :=
    List.dedup_cons_of_notMem fun hmem => hr (List.mem_dedup.2 hmem)
  have hnext : m.hashSeed + hashStep = Int32.ofNat ((askedObjects log).length + 1) * hashStep := by
    rw [h.seed, Int32.ofNat_add, Int32.add_mul]
    exact congrArg _ (Int32.one_mul _).symm
  have hself : ((m.identifying r).objectAt r).hash = hashAt (askedObjects log).length := by
    rw [hash_identifying hvalid, if_pos rfl, hnext, hashAt]
  have hother {r' : Ref} (hne : r ≠ r') : ((m.identifying r).objectAt r').hash = (m.objectAt r').hash := by
    rw [hash_identifying hvalid, if_neg hne]
  refine ⟨?_, ?_, ?_, ?_, ?_⟩
  · rw [run_identityHash, if_pos (h.unasked r hr), hnext, hashAt]
  · rw [hobjects, List.length_cons]
    exact hnext
  · intro r' before hsuffix
    rw [hobjects] at hsuffix
    rcases List.suffix_cons_iff.1 hsuffix with hlast | hearlier
    · cases hlast
      exact hself
    · have hmem : r' ∈ askedObjects log := hearlier.subset List.mem_cons_self
      rw [hother (ne_of_mem_of_not_mem hmem hr).symm, h.numbered r' before hearlier]
  · intro r' hr'
    rw [hobjects, List.mem_cons, not_or] at hr'
    rw [hother (Ne.symm hr'.1), h.unasked r' hr'.2]
  · intro e he
    rcases List.mem_cons.1 he with rfl | he
    · exact hself
    · have hmem : e.object ∈ askedObjects log := mem_askedObjects.2 ⟨e, he, rfl⟩
      rw [hother (ne_of_mem_of_not_mem hmem hr).symm, h.answers e he]

/-- Every object answers, and its answer is noted. -/
theorem Numbered.perform (h : m.Numbered log) (hvalid : r.index < m.heap.size) :
    ∃ v m', identityHash r m = .ok v m' ∧ m'.Numbered (⟨r, v⟩ :: log) := by
  by_cases hr : r ∈ askedObjects log
  · exact ⟨_, _, h.again hr⟩
  · exact ⟨_, _, h.anew hr hvalid⟩

/-! ## What a whole run comes to -/

theorem Identifying.numbered (h₀ : m₀.Unidentified) (h : Identifying m₀ log m) : m.Numbered log := by
  induction h with
  | start => exact h₀.numbered
  | between _ hspares ih => exact ih.between hspares
  | call _ hvalid hrun ih =>
    obtain ⟨v, m', hperform, hnumbered⟩ := ih.perform hvalid
    cases hrun.symm.trans hperform
    exact hnumbered

/-- The first answers of a run are those of a run. -/
theorem Identifying.of_suffix {first : List HashAnswer} (h : Identifying m₀ log m) (hsuffix : first <:+ log) :
    ∃ m', Identifying m₀ first m' := by
  induction h with
  | start =>
    cases List.suffix_nil.1 hsuffix
    exact ⟨_, .start⟩
  | between _ _ ih => exact ih hsuffix
  | call hbefore hvalid hrun ih =>
    rcases List.suffix_cons_iff.1 hsuffix with rfl | hearlier
    · exact ⟨_, hbefore.call hvalid hrun⟩
    · exact ih hearlier

/-- Objects with one hash are one object, as long as the step has not gone through all words. -/
theorem Numbered.object_unique (h : m.Numbered log) (hcount : (askedObjects log).length < 2 ^ 32)
    (hr : r ∈ askedObjects log) (hr' : r' ∈ askedObjects log) (hhash : (m.objectAt r).hash = (m.objectAt r').hash) :
    r = r' := by
  obtain ⟨after, before, hsplit⟩ := List.append_of_mem hr
  obtain ⟨after', before', hsplit'⟩ := List.append_of_mem hr'
  have hsuffix : r :: before <:+ askedObjects log := ⟨after, hsplit.symm⟩
  have hsuffix' : r' :: before' <:+ askedObjects log := ⟨after', hsplit'.symm⟩
  have hle := hsuffix.length_le
  have hle' := hsuffix'.length_le
  rw [List.length_cons] at hle hle'
  rw [h.numbered r before hsuffix, h.numbered r' before' hsuffix'] at hhash
  have hplace := hashAt_injective (by omega) (by omega) hhash
  have hwithin := List.suffix_of_suffix_length_le hsuffix hsuffix' (by simp [hplace])
  exact (List.cons.inj (hwithin.eq_of_length (by simp [hplace]))).1

end Machine

/-- Identity hashes tell objects apart. Whatever calls there were from a machine on in which no object has a hash, as long
as nobody else wrote hashes or the seed: every object answers; one that was asked answers as it did first and leaves the
machine as it is, with a hash that is not zero; the seed has advanced once for each object; and of the first answers, as
long as they are of fewer objects than there are words, those are equal that are of the same object. -/
theorem identities_apart {m₀ m : Machine} {log : List HashAnswer} (h₀ : m₀.Unidentified)
    (h : Machine.Identifying m₀ log m) :
    (∀ r, ∃ v m', M.identityHash r m = .ok v m') ∧
    (∀ e ∈ log, e.hash ≠ 0 ∧ M.identityHash e.object m = .ok e.hash m) ∧
    m.hashSeed = Int32.ofNat (askedObjects log).length * M.hashStep ∧
    ∀ first, first <:+ log → (askedObjects first).length ≤ 2 ^ 32 - 1 →
      ∀ e ∈ first, ∀ e' ∈ first, e.hash = e'.hash ↔ e.object = e'.object := by
  have hnumbered := h.numbered h₀
  refine ⟨fun r => ?_, fun e he => ?_, hnumbered.seed, fun first hfirst hcount e he e' he' => ?_⟩
  · rw [run_identityHash]
    split <;> exact ⟨_, _, rfl⟩
  · have hasked : e.object ∈ askedObjects log := mem_askedObjects.2 ⟨e, he, rfl⟩
    rw [← hnumbered.answers e he]
    exact ⟨mt hnumbered.hash_eq_zero_iff.1 (not_not.2 hasked), (hnumbered.again hasked).1⟩
  · obtain ⟨m', hrun⟩ := h.of_suffix hfirst
    have hthen := hrun.numbered h₀
    rw [← hthen.answers e he, ← hthen.answers e' he']
    refine ⟨hthen.object_unique (by omega) ?_ ?_, fun hsame => by rw [hsame]⟩
    · exact mem_askedObjects.2 ⟨e, he, rfl⟩
    · exact mem_askedObjects.2 ⟨e', he', rfl⟩

/-- A machine with two objects. -/
def paired : Machine where
  options := default
  heap := #[{ owner := ⟨0⟩ }, { owner := ⟨0⟩ }]

theorem unidentified_paired : paired.Unidentified where
  seed := rfl
  hash r := by
    obtain ⟨_ | _ | i⟩ := r <;> rfl

/-- Two objects are asked, the first of them again, and a copy of it that was made in between. -/
theorem identities_apart_paired :
    ∃ m, Machine.Identifying paired
      [⟨⟨2⟩, hashAt 2⟩, ⟨⟨0⟩, hashAt 0⟩, ⟨⟨1⟩, hashAt 1⟩, ⟨⟨0⟩, hashAt 0⟩] m ∧
      m.hashSeed = 3 * M.hashStep ∧ hashAt 2 ≠ hashAt 0 := by
  have hfirst : Machine.Identifying paired [⟨⟨0⟩, hashAt 0⟩] (paired.identifying ⟨0⟩) := by
    refine .call .start (by decide) ?_
    rw [run_identityHash]
    rfl
  have hsecond : Machine.Identifying paired [⟨⟨1⟩, hashAt 1⟩, ⟨⟨0⟩, hashAt 0⟩]
      ((paired.identifying ⟨0⟩).identifying ⟨1⟩) := by
    refine hfirst.call (by decide) ?_
    rw [run_identityHash]
    rfl
  have hagain := hsecond.call (r := ⟨0⟩) (by decide)
    ((identities_apart unidentified_paired hsecond).2.1 _ (List.mem_cons_of_mem _ List.mem_cons_self)).2
  have hcopied := hagain.between (Machine.sparesHashes_push (o := Object.clone { owner := ⟨0⟩ }) rfl)
  have hcopy := hcopied.call (r := ⟨2⟩) (v := hashAt 2) (by decide) (by rw [run_identityHash]; rfl)
  obtain ⟨-, -, hseed, happart⟩ := identities_apart unidentified_paired hcopy
  refine ⟨_, hcopy, hseed, fun hsame => ?_⟩
  have hobject := (happart _ (List.suffix_refl _) (by decide) _ List.mem_cons_self _
    (List.mem_cons_of_mem _ List.mem_cons_self)).1 hsame
  cases hobject

end JavaMachine
