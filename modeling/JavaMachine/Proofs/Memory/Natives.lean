import JavaMachine.Proofs.Bytes.BigEndian
import JavaMachine.Proofs.Fields.Operands
import JavaMachine.Proofs.Frames.Bounded
import JavaMachine.Proofs.Memory.Blocks
import JavaMachine.Proofs.Machine.Natives

/-!
The native methods that access memory outside the heap. Where a block holds the bytes of an access, they read or write
just these; elsewhere they throw, if the end of the access is an address. Main result: `memory_reads_last_writes`.
-/

namespace JavaMachine

open M

/-! ## Longs in local variables and on the stack -/

/-- Two local variables hold the halves of a long. -/
def Activation.HasLong (a : Activation) (k : Nat) (v : Int64) : Prop :=
  ∃ lo hi, a.locals[k]? = some lo ∧ a.locals[k + 1]? = some hi ∧ Slot.joinLong lo hi = v

/-- An action leaves operands on the innermost stack, and changes nothing else. -/
def M.Delivers (act : M Unit) (m : Machine) (a : Activation) (rest : List Frame) (operands : List Slot) : Prop :=
  ∃ stack : OperandStack, stack.Carries operands ∧ stack.slots.size = a.stack.slots.size ∧
    act m = .ok () (m.withFrames (.active { a with stack } :: rest))

namespace M

variable {m : Machine} {a : Activation} {rest : List Frame} {operands : List Slot} {k : Nat}

theorem run_localLong {v : Int64} (hframes : m.frames = .active a :: rest) (h : a.HasLong k v) :
    localLong k m = .ok v m := by
  obtain ⟨lo, hi, hlo, hhi, rfl⟩ := h
  have hread (i : Nat) (x : Slot) (hx : a.locals[i]? = some x) : Slots.read i a.locals = .ok x a.locals := by
    rw [Slots.read, if_neg (by omega), Int.toNat_natCast, hx]
  have hlong : Slots.readLong k a.locals = .ok (Slot.joinLong lo hi) a.locals := by
    change EStateM.bind (Slots.read k) _ a.locals = _
    rw [EStateM.bind, hread k lo hlo]
    change EStateM.bind (Slots.read (k + 1 : Nat)) _ a.locals = _
    rw [EStateM.bind, hread (k + 1) hi hhi]
    rfl
  rw [localLong, onLocals, hframes]
  simp only [hlong]
  exact congrArg (EStateM.Result.ok _) (by rw [← hframes])

theorem delivers_pushInt (hframes : m.frames = .active a :: rest) (hstack : a.stack.Carries operands)
    (hroom : operands.length < a.stack.slots.size) (v : Int32) :
    Delivers (pushInt v) m a rest (operands ++ [.num v]) := run_push hframes hstack hroom (.num v)

theorem delivers_pushLong (hframes : m.frames = .active a :: rest) (hstack : a.stack.Carries operands)
    (hroom : operands.length + 2 ≤ a.stack.slots.size) (v : Int64) :
    Delivers (pushLong v) m a rest (operands ++ [.lowHalf v, .highHalf v]) := by
  obtain ⟨stack, hpush, habove, hsize⟩ := hstack.push (by omega) (.lowHalf v)
  obtain ⟨stack', hpush', habove', hsize'⟩ := habove.push (by rw [List.length_append, hsize]; exact hroom) (.highHalf v)
  refine ⟨stack', by simpa using habove', hsize'.trans hsize, ?_⟩
  have hlong : OperandStack.pushLong v a.stack = .ok () stack' := by
    change EStateM.bind (OperandStack.push _) _ a.stack = _
    rw [EStateM.bind, hpush]
    exact hpush'
  rw [pushLong, onStack, hframes]
  simp only [Frame.stack, hlong]
  rfl

end M

namespace Native

/-! ## Bytes of a long -/

theorem length_littleEndian (v : Int64) : (littleEndian v).length = 8 := by
  rw [littleEndian, List.length_map, List.length_range]

/-- The bytes of a long, written out. -/
theorem littleEndian_eq (v : Int64) :
    littleEndian v = [v.toUInt64.toUInt8, (v.toUInt64 >>> 8).toUInt8, (v.toUInt64 >>> 16).toUInt8,
      (v.toUInt64 >>> 24).toUInt8, (v.toUInt64 >>> 32).toUInt8, (v.toUInt64 >>> 40).toUInt8,
      (v.toUInt64 >>> 48).toUInt8, (v.toUInt64 >>> 56).toUInt8] := by
  have hzero : v.toUInt64 >>> 0 = v.toUInt64 := by
    apply UInt64.eq_of_toBitVec_eq
    simp
  change [(v.toUInt64 >>> 0).toUInt8, _, _, _, _, _, _, _] = _
  rw [hzero]
  rfl

/-- The long of the bytes of a long. -/
theorem ofLittleEndian_littleEndian (v : Int64) : ofLittleEndian (littleEndian v) = v := by
  rw [littleEndian_eq, ofLittleEndian]
  simp only [List.foldr_cons, List.foldr_nil]
  apply Int64.toBitVec_inj.1
  ext i
  simp [-UInt64.toUInt64_toUInt8]
  grind

/-! ## Accesses -/

variable {m : Machine} {a : Activation} {rest : List Frame} {address : Int64} {s : Services}

theorem run_withMemory (hframes : m.frames = .active a :: rest) (haddress : a.HasLong 1 address) (count : Nat)
    (next : Int64 → Nat → M Unit) :
    withMemory s count next m =
      match m.memory.locate address count with
      | .inside base offset => next base offset m
      | .missing => Throwing.throwNew s Throwables.internal "access to unallocated memory" m
      | .outside => .error (.crash "runtime error: slice bounds out of range") m := by
  rw [withMemory, run_bind (run_get m), run_bind (run_localLong hframes haddress)]
  cases m.memory.locate address count <;> rfl

theorem peek_found (hframes : m.frames = .active a :: rest) (haddress : a.HasLong 1 address) {count : Nat}
    {bytes : List UInt8} (h : m.memory.at? address count = some bytes) (next : List UInt8 → M Unit) :
    peekMemory s count next m = next bytes m := by
  rw [peekMemory, run_withMemory hframes haddress]
  rw [NativeMemory.at?] at h
  split at h
  · next hlocate =>
    cases h
    rw [hlocate]
    rfl
  · cases h

theorem peek_missing (hframes : m.frames = .active a :: rest) (haddress : a.HasLong 1 address) {count : Nat}
    (h : m.memory.locate address count = .missing) (next : List UInt8 → M Unit) :
    peekMemory s count next m = Throwing.throwNew s Throwables.internal "access to unallocated memory" m := by
  rw [peekMemory, run_withMemory hframes haddress, h]

theorem poke_found (hframes : m.frames = .active a :: rest) (haddress : a.HasLong 1 address) {bytes old : List UInt8}
    (h : m.memory.at? address bytes.length = some old) :
    poke s bytes m = .ok () { m with memory := m.memory.poked address bytes } := by
  rw [poke, run_withMemory hframes haddress, NativeMemory.poked]
  rw [NativeMemory.at?] at h
  split at h
  · next hlocate =>
    rw [hlocate]
    rfl
  · cases h

theorem poke_missing (hframes : m.frames = .active a :: rest) (haddress : a.HasLong 1 address) {bytes : List UInt8}
    (h : m.memory.locate address bytes.length = .missing) :
    poke s bytes m = Throwing.throwNew s Throwables.internal "access to unallocated memory" m := by
  rw [poke, run_withMemory hframes haddress, h]

/-! ## The methods -/

def getLong : Native := fun s => peekMemory s 8 fun bytes => pushLong (ofLittleEndian bytes)

def getByte : Native := fun s => peekMemory s 1 fun bytes => pushInt (bytes.headD 0).toInt8.toInt32

def putLong : Native := fun s => do poke s (littleEndian (← localLong 3))

def putByte : Native := fun s => do poke s [(← localInt 3).toInt8.toUInt8]

/-- These are the methods that the machine provides. -/
theorem find?_memory :
    Natives.standard.find? "sun/misc/Unsafe" "getLong" "(J)J" = some getLong ∧
      Natives.standard.find? "sun/misc/Unsafe" "getByte" "(J)B" = some getByte ∧
      Natives.standard.find? "sun/misc/Unsafe" "putLong" "(JJ)V" = some putLong ∧
      Natives.standard.find? "sun/misc/Unsafe" "putByte" "(JB)V" = some putByte :=
  ⟨Natives.find?_standard 23 (by decide +kernel) rfl, Natives.find?_standard 21 (by decide +kernel) rfl,
    Natives.find?_standard 24 (by decide +kernel) rfl, Natives.find?_standard 22 (by decide +kernel) rfl⟩

/-- In such memory a method reads what the bytes at the address in its argument stand for, where a block holds them. It
throws where none does, if the end of the access is an address. -/
def Reads (native : Native) (memory : NativeMemory) (count : Nat) (result : List UInt8 → List Slot) : Prop :=
  ∀ s m a rest address, m.memory = memory → m.frames = .active a :: rest → a.HasLong 1 address →
    (∀ bytes operands, memory.at? address count = some bytes → a.stack.Carries operands →
      operands.length + (result bytes).length ≤ a.stack.slots.size →
      Delivers (native s) m a rest (operands ++ result bytes)) ∧
    (address.toInt + count < 2 ^ 63 → (∀ b, ¬ memory.Holds address count b) →
      native s m = Throwing.throwNew s Throwables.internal "access to unallocated memory" m)

/-- In such memory a method writes the bytes that its second argument stands for at the address in its first, where a
block holds them. It throws where none does, if the end of the access is an address. -/
def Writes (native : Native) (memory : NativeMemory) (argument : Activation → List UInt8 → Prop) : Prop :=
  ∀ s m a rest address bytes, m.memory = memory → m.frames = .active a :: rest → a.HasLong 1 address →
    argument a bytes →
    (∀ b, memory.Holds address bytes.length b →
      native s m = .ok () { m with memory := memory.poked address bytes }) ∧
    (address.toInt + bytes.length < 2 ^ 63 → (∀ b, ¬ memory.Holds address bytes.length b) →
      native s m = Throwing.throwNew s Throwables.internal "access to unallocated memory" m)

variable {memory : NativeMemory}

theorem reads_getLong (hmemory : memory.Sound) :
    Reads getLong memory 8 fun bytes => [.lowHalf (ofLittleEndian bytes), .highHalf (ofLittleEndian bytes)] := by
  rintro s m a rest address rfl hframes haddress
  refine ⟨fun bytes operands hbytes hstack hroom => ?_, fun hend hnone => ?_⟩
  · obtain ⟨stack, habove, hsize, hrun⟩ := delivers_pushLong hframes hstack hroom (ofLittleEndian bytes)
    exact ⟨stack, habove, hsize, (peek_found hframes haddress hbytes _).trans hrun⟩
  · exact peek_missing hframes haddress (NativeMemory.locate_of_not hmemory (by decide) hend hnone) _

theorem reads_getByte (hmemory : memory.Sound) :
    Reads getByte memory 1 fun bytes => [.num (bytes.headD 0).toInt8.toInt32] := by
  rintro s m a rest address rfl hframes haddress
  refine ⟨fun bytes operands hbytes hstack hroom => ?_, fun hend hnone => ?_⟩
  · obtain ⟨stack, habove, hsize, hrun⟩ := delivers_pushInt hframes hstack hroom (bytes.headD 0).toInt8.toInt32
    exact ⟨stack, habove, hsize, (peek_found hframes haddress hbytes _).trans hrun⟩
  · exact peek_missing hframes haddress (NativeMemory.locate_of_not hmemory (by decide) hend hnone) _

/-- A method that writes what its second argument stands for. -/
theorem writes_of_poke (hmemory : memory.Sound) {native : Native} {argument : Activation → List UInt8 → Prop}
    (hbytes : ∀ a bytes, argument a bytes → 1 ≤ bytes.length ∧ bytes.length < 2 ^ 63)
    (hnative : ∀ (s : Services) (m : Machine) (a : Activation) (rest : List Frame) (bytes : List UInt8),
      m.frames = .active a :: rest → argument a bytes → native s m = poke s bytes m) : Writes native memory argument := by
  rintro s m a rest address bytes rfl hframes haddress hargument
  obtain ⟨hpos, hbound⟩ := hbytes a bytes hargument
  refine ⟨fun b hb => ?_, fun hend hnone => ?_⟩
  · rw [hnative s m a rest bytes hframes hargument]
    exact poke_found hframes haddress (NativeMemory.at?_of_holds hmemory hpos hb)
  · rw [hnative s m a rest bytes hframes hargument]
    exact poke_missing hframes haddress (NativeMemory.locate_of_not hmemory hbound hend hnone)

/-- The second argument is a long with these bytes. -/
def PassesLong (a : Activation) (bytes : List UInt8) : Prop := ∃ v, a.HasLong 3 v ∧ bytes = littleEndian v

/-- The second argument is an int with this low byte. -/
def PassesByte (a : Activation) (bytes : List UInt8) : Prop :=
  ∃ x, a.locals[3]? = some x ∧ bytes = [x.int.toInt8.toUInt8]

theorem writes_putLong (hmemory : memory.Sound) : Writes putLong memory PassesLong := by
  refine writes_of_poke hmemory ?_ ?_
  · rintro a bytes ⟨v, -, rfl⟩
    rw [length_littleEndian]
    decide
  · rintro s m a rest bytes hframes ⟨v, hv, rfl⟩
    rw [putLong, bind_apply, run_localLong hframes hv]

theorem writes_putByte (hmemory : memory.Sound) : Writes putByte memory PassesByte := by
  refine writes_of_poke hmemory ?_ ?_
  · rintro a bytes ⟨x, -, rfl⟩
    rw [List.length_singleton]
    decide
  · rintro s m a rest bytes hframes ⟨x, hx, rfl⟩
    have hint : localInt 3 m = .ok x.int m := by
      rw [localInt, bind_apply, run_readLocal hframes hx]
      rfl
    rw [putByte, bind_apply, hint]

end Native

open Native in
/-- For every sequence of calls for which the address space suffices: all blocks ever handed out begin at multiples of
sixteen, at different places, and have no address in common. An access whose end is an address leads to the block in
use that holds its bytes, or nowhere, in whatever order blocks are looked through; one whose end is no address leads out
of a block if one begins at it or below, and nowhere if none does. The bytes written last to a block in use are found
there, and zeros where it was not written. The methods of direct access read and write just these bytes, and throw where
no block holds them. -/
theorem memory_reads_last_writes {calls : List MemoryCall} (h : MemoryCall.Suffices calls) :
    let r := MemoryRun.performAll {} calls
    ((∀ b ∈ r.handed, 16 ∣ b.1.toInt) ∧ r.handed.Pairwise fun b c =>
      b.1 ≠ c.1 ∧ (b.1.toInt + (b.2 : Int) ≤ c.1.toInt ∨ c.1.toInt + (c.2 : Int) ≤ b.1.toInt)) ∧
    (∀ (address : Int64) (n : Nat) (blocks : List MemoryBlock), 1 ≤ n → n < 2 ^ 63 → blocks.Perm r.memory.blocks →
      (∀ b, r.memory.Holds address n b →
        NativeMemory.at? { r.memory with blocks } address n = some (b.slice address n)) ∧
      (address.toInt + n < 2 ^ 63 → (∀ b, ¬ r.memory.Holds address n b) →
        NativeMemory.locate { r.memory with blocks } address n = .missing) ∧
      (2 ^ 63 ≤ address.toInt + n →
        ((∃ b ∈ blocks, b.base.toInt ≤ address.toInt) →
          NativeMemory.locate { r.memory with blocks } address n = .outside) ∧
        ((∀ b ∈ blocks, address.toInt < b.base.toInt) →
          NativeMemory.locate { r.memory with blocks } address n = .missing))) ∧
    (∀ before address bytes later b, calls = before ++ .put address bytes :: later → 1 ≤ bytes.length →
      (MemoryRun.performAll {} before).memory.Holds address bytes.length b →
      (∀ call ∈ later, call.Spares address bytes.length b.base) → r.memory.at? address bytes.length = some bytes) ∧
    (∀ before size later (address : Int64) (n : Nat), calls = before ++ .allocate size :: later → 1 ≤ n →
      let base := ((MemoryRun.performAll {} before).memory.allocate size).1
      base.toInt ≤ address.toInt → address.toInt + n ≤ base.toInt + size.toInt.toNat →
      (∀ call ∈ later, call.Spares address n base) → r.memory.at? address n = some (List.replicate n 0)) ∧
    (∀ v, ofLittleEndian (littleEndian v) = v) ∧
    ∃ getLong getByte putLong putByte : Native,
      Natives.standard.find? "sun/misc/Unsafe" "getLong" "(J)J" = some getLong ∧
      Natives.standard.find? "sun/misc/Unsafe" "getByte" "(J)B" = some getByte ∧
      Natives.standard.find? "sun/misc/Unsafe" "putLong" "(JJ)V" = some putLong ∧
      Natives.standard.find? "sun/misc/Unsafe" "putByte" "(JB)V" = some putByte ∧
      Reads getLong r.memory 8 (fun bytes => [.lowHalf (ofLittleEndian bytes), .highHalf (ofLittleEndian bytes)]) ∧
      Reads getByte r.memory 1 (fun bytes => [.num (bytes.headD 0).toInt8.toInt32]) ∧
      Writes putLong r.memory PassesLong ∧ Writes putByte r.memory PassesByte := by
  intro r
  obtain ⟨hlaid, -⟩ : r.Laid ∧ _ := MemoryRun.laid_performAll h
  have hsound := hlaid.sound
  obtain ⟨hgetLong, hgetByte, hputLong, hputByte⟩ := find?_memory
  refine ⟨⟨fun b hb => (hlaid.handed b hb).2.1, hlaid.disjoint⟩, fun address n blocks hn hbound hperm => ?_, ?_, ?_,
    ofLittleEndian_littleEndian, getLong, getByte, putLong, putByte, hgetLong, hgetByte, hputLong, hputByte,
    reads_getLong hsound, reads_getByte hsound, writes_putLong hsound, writes_putByte hsound⟩
  · have hpermuted := hsound.perm hperm
    have hsame (b : MemoryBlock) :
        NativeMemory.Holds { r.memory with blocks } address n b ↔ r.memory.Holds address n b :=
      ⟨fun hb => ⟨hperm.mem_iff.1 hb.live, hb.low, hb.high⟩, fun hb => ⟨hperm.mem_iff.2 hb.live, hb.low, hb.high⟩⟩
    refine ⟨fun b hb => NativeMemory.at?_of_holds hpermuted hn ((hsame b).2 hb), fun hend hnone => ?_, fun hend => ?_⟩
    · exact NativeMemory.locate_of_not hpermuted hbound hend fun b hb => hnone b ((hsame b).1 hb)
    · exact NativeMemory.locate_of_wrap hpermuted hbound hend
  · rintro before address bytes later b rfl hbytes hb hlater
    exact MemoryRun.at?_performAll_put h hbytes hb hlater
  · rintro before size later address n rfl hn base hlow hhigh hlater
    exact MemoryRun.at?_performAll_allocate h hn hlow hhigh hlater

namespace Samples

/-- An activation of a method of direct access to an address. -/
def accessing (address : Int64) : Activation where
  method := { owner := ⟨0⟩, flags := ⟨0⟩, name := "access", desc := "()V" }
  locals := #[.null, .lowHalf address, .highHalf address]
  stack := .ofCapacity 2

/-- A machine that is in the middle of it after calls of memory. -/
def accessed (calls : List MemoryCall) (address : Int64) : Machine where
  options := { classPath := .memory 0 "" }
  frames := [.active (accessing address)]
  memory := (MemoryRun.performAll {} calls).memory

theorem hasLong_accessing (address : Int64) : (accessing address).HasLong 1 address :=
  ⟨_, _, rfl, rfl, Slot.joinLong_halves address⟩

/-- Two blocks, a long written to the end of the first, and the second freed. -/
def scribbled : List MemoryCall :=
  [.allocate 16, .allocate 24, .put 0x1008 (Native.littleEndian (-2)), .free 0x1010]

theorem suffices_scribbled : MemoryCall.Suffices scribbled := by
  refine ⟨fun n hn => ?_, by decide⟩
  simp only [scribbled, List.mem_cons, MemoryCall.allocate.injEq, reduceCtorEq, List.not_mem_nil, or_false] at hn
  rcases hn with rfl | rfl <;> decide

end Samples

open Samples Native in
/-- The long that was written is read, and the freed block is gone. -/
theorem memory_reads_last_writes_scribbled :
    MemoryCall.Suffices scribbled ∧ ∃ getLong getByte : Native,
      Natives.standard.find? "sun/misc/Unsafe" "getLong" "(J)J" = some getLong ∧
      Natives.standard.find? "sun/misc/Unsafe" "getByte" "(J)B" = some getByte ∧
      Delivers (getLong .silent) (accessed scribbled 0x1008) (accessing 0x1008) [] [.lowHalf (-2), .highHalf (-2)] ∧
      getByte .silent (accessed scribbled 0x1010) =
        Throwing.throwNew .silent Throwables.internal "access to unallocated memory" (accessed scribbled 0x1010) := by
  obtain ⟨-, -, hlast, -, hinverse, getLong, getByte, putLong, putByte, hgetLong, hgetByte, -, -, hlong, hbyte, -, -⟩ :=
    memory_reads_last_writes suffices_scribbled
  have hblocks : ∀ b ∈ (MemoryRun.performAll {} scribbled).memory.blocks, b.base.toInt = 0x1000 ∧ b.data.size = 16 := by
    decide
  have hbytes := hlast [.allocate 16, .allocate 24] 0x1008 (littleEndian (-2)) [.free 0x1010]
    ⟨0x1000, Array.replicate 16 0⟩ rfl (by decide) ⟨by decide, by decide, by decide⟩ (by
      simp only [List.mem_singleton, forall_eq]
      exact (by decide : (0x1010 : Int64) ≠ 0x1000))
  refine ⟨suffices_scribbled, getLong, getByte, hgetLong, hgetByte, ?_, ?_⟩
  · have h := (hlong .silent (accessed scribbled 0x1008) (accessing 0x1008) [] 0x1008 rfl rfl (hasLong_accessing _)).1
      _ [] hbytes ⟨Nat.zero_le _, rfl⟩ (by decide)
    dsimp only at h
    rw [hinverse, List.nil_append] at h
    exact h
  · refine (hbyte .silent (accessed scribbled 0x1010) (accessing 0x1010) [] 0x1010 rfl rfl (hasLong_accessing _)).2
      (by decide) fun b hb => ?_
    obtain ⟨hbase, hsize⟩ := hblocks b hb.live
    have hhigh := hb.high
    rw [hbase, hsize] at hhigh
    exact absurd hhigh (by decide)

open Samples Native in
/-- Where a block is in use, an access to the last address is taken for one inside it and leads out of it. -/
theorem last_address_outside :
    ∃ getByte : Native, Natives.standard.find? "sun/misc/Unsafe" "getByte" "(J)B" = some getByte ∧
      (∀ b, ¬ (accessed [.allocate 16] 0x7fffffffffffffff).memory.Holds 0x7fffffffffffffff 1 b) ∧
      getByte .silent (accessed [.allocate 16] 0x7fffffffffffffff) =
        .error (.crash "runtime error: slice bounds out of range") (accessed [.allocate 16] 0x7fffffffffffffff) := by
  have hlocate : (accessed [.allocate 16] 0x7fffffffffffffff).memory.locate 0x7fffffffffffffff 1 = .outside := by
    decide
  have hblocks : ∀ b ∈ (accessed [.allocate 16] 0x7fffffffffffffff).memory.blocks,
      b.base.toInt + (b.data.size : Int) = 0x1010 := by decide
  refine ⟨getByte, find?_memory.2.1, fun b hb => ?_, ?_⟩
  · have hhigh := hb.high
    rw [hblocks b hb.live] at hhigh
    exact absurd hhigh (by decide)
  · rw [getByte, peekMemory, run_withMemory rfl (hasLong_accessing _), hlocate]

end JavaMachine
