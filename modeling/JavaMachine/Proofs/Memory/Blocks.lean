import JavaMachine.Machine.Memory
import Mathlib.Algebra.Group.Int.Defs
import Mathlib.Algebra.GroupWithZero.Nat
import Mathlib.Data.Int.Basic
import Mathlib.Data.List.Pairwise

/-!
Memory outside the heap, over all sequences of calls. Each block takes the addresses from the next one on, rounded up to
a multiple of sixteen, and none of them is handed out again: what is in use is a part of what was ever handed out. Main
results: `Laid.perform`, what one call preserves, and `laid_performAll`, what a sequence of calls comes to, as long as
the address space suffices.

In sound memory an access whose end is an address leads to the one block that holds all of its bytes, and nowhere if there is
none, in whatever order blocks are looked through. What was written stays there until it is written again or its block is
freed, and until then a block holds zeros. Main results: `locate_of_holds`, `locate_of_not`, `locate_of_wrap`,
`at?_performAll_put`, that the bytes written last are found, and `at?_performAll_allocate`, that zeros are found before.
-/

namespace JavaMachine

namespace NativeMemory

/-! ## Rounding up -/

theorem toNat_and_mask (x : BitVec 64) : (x &&& ~~~15#64).toNat = x.toNat / 16 * 16 := by
  have hmask : ∀ i : Fin 64, (~~~15#64).getLsbD i = decide (4 ≤ i.val) := by decide
  have hshift : x &&& ~~~15#64 = (x >>> 4) <<< 4 := by
    refine BitVec.eq_of_getLsbD_eq fun i hi => ?_
    rw [BitVec.getLsbD_and, hmask ⟨i, hi⟩, BitVec.getLsbD_shiftLeft, BitVec.getLsbD_ushiftRight]
    rcases Nat.lt_or_ge i 4 with h | h
    · simp [h]
    · simp [hi, h]
  rw [hshift]
  simp [Nat.shiftLeft_eq, Nat.shiftRight_eq_div_pow]
  omega

theorem toInt_and_mask {n : Int64} (h : 0 ≤ n.toInt) : (n &&& ~~~15).toInt = n.toInt / 16 * 16 := by
  have hand : (n &&& ~~~15).toBitVec = n.toBitVec &&& ~~~15#64 := rfl
  have hlt := n.toInt_lt
  have hnat : n.toBitVec.toNat = n.toInt.toNat := by
    rw [← Int64.toInt_toBitVec, BitVec.toInt_eq_toNat_cond] at h ⊢
    have := n.toBitVec.isLt
    split at h <;> omega
  rw [← Int64.toInt_toBitVec, hand, BitVec.toInt_eq_toNat_cond, toNat_and_mask, hnat]
  split <;> omega

theorem toInt_add_of_fits {a b : Int64} (h : -2 ^ 63 ≤ a.toInt + b.toInt) (h' : a.toInt + b.toInt < 2 ^ 63) :
    (a + b).toInt = a.toInt + b.toInt := by
  rw [Int64.toInt_add, Int.bmod_eq_of_le (by omega) (by omega)]

/-- How many addresses a block of a size takes: rounded up to a multiple of sixteen, and sixteen at least. -/
def room (n : Nat) : Nat := if n = 0 then 16 else (n + 15) / 16 * 16

theorem room_pos (n : Nat) : 0 < room n := by
  unfold room
  split <;> omega

theorem le_room (n : Nat) : n ≤ room n := by
  unfold room
  split <;> omega

theorem dvd_room (n : Nat) : 16 ∣ room n := by
  unfold room
  split
  · exact Nat.dvd_refl 16
  · exact Nat.dvd_mul_left 16 _

variable {m : NativeMemory}

/-- The next address moves on by the room of the block. -/
theorem next_allocate {n : Int64} (h : 0 ≤ n.toInt) (hstart : 0x1000 ≤ m.next.toInt)
    (hroom : m.next.toInt + room n.toInt.toNat < 2 ^ 63) :
    (m.allocate n).2.next.toInt = m.next.toInt + room n.toInt.toNat := by
  have hle := le_room n.toInt.toNat
  have hstep : (((n + 15) &&& ~~~15) + if n = 0 then 16 else 0).toInt = room n.toInt.toNat := by
    by_cases hzero : n = 0
    · subst hzero
      rfl
    · have hne : n.toInt ≠ 0 := fun h0 => hzero (Int64.toInt_inj.1 h0)
      have hround : room n.toInt.toNat = (n.toInt.toNat + 15) / 16 * 16 := if_neg (by omega)
      have hsum : (n + 15).toInt = n.toInt + 15 := toInt_add_of_fits (b := 15) (by change _ ≤ n.toInt + 15; omega)
        (by change n.toInt + 15 < _; omega)
      rw [if_neg hzero, Int64.add_zero, toInt_and_mask (by omega), hsum, hround]
      omega
  change (m.next + (((n + 15) &&& ~~~15) + if n = 0 then 16 else 0)).toInt = _
  rw [toInt_add_of_fits (by rw [hstep]; omega) (by rw [hstep]; omega), hstep]

/-! ## Bytes of a block -/

theorem getElem?_put (data : Array UInt8) (offset : Nat) (bytes : List UInt8) (i : Nat) :
    (put data offset bytes)[i]? =
      if offset ≤ i ∧ i < offset + bytes.length ∧ i < data.size then bytes[i - offset]? else data[i]? := by
  induction bytes generalizing data offset with
  | nil =>
    rw [put, if_neg]
    simp only [List.length_nil]
    omega
  | cons b rest ih =>
    rw [put, ih, Array.size_setIfInBounds, List.length_cons, Array.getElem?_setIfInBounds]
    by_cases hi : offset = i
    · subst hi
      by_cases hsize : offset < data.size
      · rw [if_neg (by omega), if_pos rfl, if_pos hsize, if_pos (by omega), Nat.sub_self]
        rfl
      · rw [if_neg (by omega), if_pos rfl, if_neg hsize, if_neg (by omega), Array.getElem?_eq_none (by omega)]
    · rw [if_neg hi]
      by_cases hinside : offset + 1 ≤ i ∧ i < offset + 1 + rest.length ∧ i < data.size
      · rw [if_pos hinside, if_pos (by omega), show i - offset = i - (offset + 1) + 1 by omega,
          List.getElem?_cons_succ]
      · rw [if_neg hinside, if_neg (by omega)]

theorem size_put (data : Array UInt8) (offset : Nat) (bytes : List UInt8) : (put data offset bytes).size = data.size := by
  induction bytes generalizing data offset with
  | nil => rfl
  | cons b rest ih => rw [put, ih, Array.size_setIfInBounds]

end NativeMemory

/-! ## Calls -/

/-- A call that changes memory. A write is made if its bytes lie in a block. -/
inductive MemoryCall where
  | allocate (n : Int64)
  | free (address : Int64)
  | put (address : Int64) (bytes : List UInt8)

/-- Memory, with the blocks that were ever handed out, the latest first: where they begin and how long they are. -/
structure MemoryRun where
  memory : NativeMemory := {}
  handed : List (Int64 × Nat) := []

open NativeMemory

/-- Memory in which bytes are written, if they lie in a block. -/
def NativeMemory.poked (m : NativeMemory) (address : Int64) (bytes : List UInt8) : NativeMemory :=
  match m.locate address bytes.length with
  | .inside base offset => m.write base offset bytes
  | _ => m

namespace MemoryRun

def perform (r : MemoryRun) : MemoryCall → MemoryRun
  | .allocate n => ⟨(r.memory.allocate n).2, ((r.memory.allocate n).1, n.toInt.toNat) :: r.handed⟩
  | .free address => { r with memory := r.memory.free address }
  | .put address bytes => { r with memory := r.memory.poked address bytes }

def performAll (r : MemoryRun) (calls : List MemoryCall) : MemoryRun := calls.foldl perform r

end MemoryRun

/-- How many addresses a call takes. -/
def MemoryCall.room : MemoryCall → Nat
  | .allocate n => NativeMemory.room n.toInt.toNat
  | _ => 0

/-- No size is negative, and the address space suffices for all blocks. -/
structure MemoryCall.Suffices (calls : List MemoryCall) : Prop where
  sizes : ∀ n, .allocate n ∈ calls → 0 ≤ n.toInt
  space : 0x1000 + (calls.map MemoryCall.room).sum < 2 ^ 63

/-- Where a block begins and how long it is. -/
def MemoryBlock.extent (b : MemoryBlock) : Int64 × Nat := (b.base, b.data.size)

namespace MemoryRun

/-- Blocks were handed out one behind the other at multiples of sixteen, and those in use are among them. -/
structure Laid (r : MemoryRun) : Prop where
  start : 0x1000 ≤ r.memory.next.toInt
  aligned : 16 ∣ r.memory.next.toInt
  handed : ∀ h ∈ r.handed, 0x1000 ≤ h.1.toInt ∧ 16 ∣ h.1.toInt ∧ h.1.toInt + NativeMemory.room h.2 ≤ r.memory.next.toInt
  apart : r.handed.Pairwise fun later earlier => earlier.1.toInt + (NativeMemory.room earlier.2 : Int) ≤ later.1.toInt
  live : (r.memory.blocks.map MemoryBlock.extent).Sublist r.handed

variable {r : MemoryRun}

theorem laid_empty : Laid {} where
  start := by decide
  aligned := by decide
  handed := nofun
  apart := .nil
  live := .slnil

/-- A change of memory that moves no block and hands none out. -/
theorem Laid.changed (h : r.Laid) {m : NativeMemory} (next : m.next = r.memory.next)
    (live : (m.blocks.map MemoryBlock.extent).Sublist (r.memory.blocks.map MemoryBlock.extent)) :
    Laid { r with memory := m } where
  start := by rw [next]; exact h.start
  aligned := by rw [next]; exact h.aligned
  handed := by rw [next]; exact h.handed
  apart := h.apart
  live := live.trans h.live

theorem Laid.allocate (h : r.Laid) {n : Int64} (hn : 0 ≤ n.toInt)
    (hroom : r.memory.next.toInt + NativeMemory.room n.toInt.toNat < 2 ^ 63) : (r.perform (.allocate n)).Laid := by
  have hnext : (r.perform (.allocate n)).memory.next.toInt = r.memory.next.toInt + NativeMemory.room n.toInt.toNat :=
    next_allocate hn h.start hroom
  have hdvd : (16 : Int) ∣ NativeMemory.room n.toInt.toNat := Int.natCast_dvd_natCast.2 (dvd_room _)
  have hstart := h.start
  refine ⟨by omega, hnext ▸ Int.dvd_add h.aligned hdvd, ?_, ?_, ?_⟩
  · rw [hnext]
    refine List.forall_mem_cons.2 ⟨⟨h.start, h.aligned, Int.le_refl _⟩, fun b hb => ?_⟩
    obtain ⟨hlow, haligned, hhigh⟩ := h.handed b hb
    exact ⟨hlow, haligned, by omega⟩
  · exact List.pairwise_cons.2 ⟨fun b hb => (h.handed b hb).2.2, h.apart⟩
  · have hextent : MemoryBlock.extent ⟨r.memory.next, Array.replicate n.toInt.toNat 0⟩ = (r.memory.next, n.toInt.toNat) := by
      rw [MemoryBlock.extent, Array.size_replicate]
    change (MemoryBlock.extent ⟨r.memory.next, _⟩ :: r.memory.blocks.map MemoryBlock.extent).Sublist
      ((r.memory.next, n.toInt.toNat) :: r.handed)
    rw [hextent]
    exact h.live.cons_cons _

theorem Laid.free (h : r.Laid) (address : Int64) : (r.perform (.free address)).Laid :=
  h.changed rfl (List.filter_sublist.map _)

theorem extent_write (m : NativeMemory) (base : Int64) (offset : Nat) (bytes : List UInt8) :
    (m.write base offset bytes).blocks.map MemoryBlock.extent = m.blocks.map MemoryBlock.extent := by
  rw [NativeMemory.write, List.map_map]
  refine List.map_congr_left fun b _ => ?_
  rw [Function.comp_apply]
  split
  · rw [MemoryBlock.extent, size_put, MemoryBlock.extent]
  · rfl

theorem Laid.put (h : r.Laid) (address : Int64) (bytes : List UInt8) : (r.perform (.put address bytes)).Laid := by
  change Laid { r with memory := r.memory.poked address bytes }
  unfold NativeMemory.poked
  split
  · next base offset _ => exact h.changed rfl (extent_write r.memory base offset bytes ▸ List.Sublist.refl _)
  · exact h

/-- What a call preserves, if the address space suffices for it. -/
theorem Laid.perform (h : r.Laid) (call : MemoryCall) (hn : ∀ n, call = .allocate n → 0 ≤ n.toInt)
    (hroom : r.memory.next.toInt + call.room < 2 ^ 63) :
    (r.perform call).Laid ∧ (r.perform call).memory.next.toInt = r.memory.next.toInt + call.room := by
  cases call with
  | allocate n => exact ⟨h.allocate (hn n rfl) hroom, next_allocate (hn n rfl) h.start hroom⟩
  | free address => exact ⟨h.free address, (Int.add_zero _).symm⟩
  | put address bytes =>
    refine ⟨h.put address bytes, ?_⟩
    change (r.memory.poked address bytes).next.toInt = _
    unfold NativeMemory.poked
    split <;> exact (Int.add_zero _).symm

/-- What a sequence of calls comes to. -/
theorem Laid.performAll (h : r.Laid) {calls : List MemoryCall} (hn : ∀ n, .allocate n ∈ calls → 0 ≤ n.toInt)
    (hroom : r.memory.next.toInt + (calls.map MemoryCall.room).sum < 2 ^ 63) :
    (r.performAll calls).Laid ∧
      (r.performAll calls).memory.next.toInt = r.memory.next.toInt + (calls.map MemoryCall.room).sum := by
  induction calls generalizing r with
  | nil => exact ⟨h, (Int.add_zero _).symm⟩
  | cons call rest ih =>
    rw [List.map_cons, List.sum_cons] at hroom ⊢
    obtain ⟨hlaid, hnext⟩ := h.perform call (fun n hcall => hn n (hcall ▸ List.mem_cons_self)) (by omega)
    obtain ⟨hall, hlast⟩ := ih hlaid (fun n hmem => hn n (List.mem_cons_of_mem _ hmem)) (by rw [hnext]; omega)
    refine ⟨hall, hlast.trans ?_⟩
    rw [hnext]
    omega

theorem laid_performAll {calls : List MemoryCall} (h : MemoryCall.Suffices calls) :
    (MemoryRun.performAll {} calls).Laid ∧
      (MemoryRun.performAll {} calls).memory.next.toInt = 0x1000 + (calls.map MemoryCall.room).sum := by
  have hspace := h.space
  refine laid_empty.performAll h.sizes ?_
  change (0x1000 : Int) + _ < _
  omega

/-- Any two blocks that were handed out begin at different places and have no address in common. -/
theorem Laid.disjoint (h : r.Laid) :
    r.handed.Pairwise fun b c =>
      b.1 ≠ c.1 ∧ (b.1.toInt + (b.2 : Int) ≤ c.1.toInt ∨ c.1.toInt + (c.2 : Int) ≤ b.1.toInt) := by
  refine h.apart.imp fun {later earlier} hle => ?_
  have hpos := room_pos earlier.2
  have hroom := le_room earlier.2
  refine ⟨fun heq => ?_, .inr (by omega)⟩
  rw [heq] at hle
  omega

end MemoryRun

namespace NativeMemory

/-- Blocks begin at different places of the address space, and no two of them have an address in common. -/
structure Sound (m : NativeMemory) : Prop where
  range : ∀ b ∈ m.blocks, 0x1000 ≤ b.base.toInt ∧ b.base.toInt + b.data.size < 2 ^ 63
  apart : ∀ b ∈ m.blocks, ∀ c ∈ m.blocks, b ≠ c →
    b.base ≠ c.base ∧ (b.base.toInt + b.data.size ≤ c.base.toInt ∨ c.base.toInt + c.data.size ≤ b.base.toInt)

/-- A block in use holds all bytes of an access. -/
structure Holds (m : NativeMemory) (address : Int64) (n : Nat) (b : MemoryBlock) : Prop where
  live : b ∈ m.blocks
  low : b.base.toInt ≤ address.toInt
  high : address.toInt + n ≤ b.base.toInt + b.data.size

/-- The bytes of an access, if they lie in one block. -/
def at? (m : NativeMemory) (address : Int64) (n : Nat) : Option (List UInt8) :=
  match m.locate address n with
  | .inside base offset => some (m.read base offset n)
  | _ => none

end NativeMemory

/-- The bytes of a block from an address on. -/
def MemoryBlock.slice (b : MemoryBlock) (address : Int64) (n : Nat) : List UInt8 :=
  let offset := (address.toInt - b.base.toInt).toNat
  (b.data.extract offset (offset + n)).toList

theorem MemoryRun.Laid.sound {r : MemoryRun} (h : r.Laid) : r.memory.Sound where
  range b hb := by
    have hmem := h.live.subset (List.mem_map_of_mem (f := MemoryBlock.extent) hb)
    obtain ⟨hlow, -, hhigh⟩ := h.handed _ hmem
    have hroom := NativeMemory.le_room b.data.size
    have hnext := r.memory.next.toInt_lt
    change 0x1000 ≤ b.base.toInt at hlow
    change b.base.toInt + (NativeMemory.room b.data.size : Int) ≤ _ at hhigh
    exact ⟨hlow, by omega⟩
  apart := by
    let R (b c : MemoryBlock) : Prop :=
      b.base ≠ c.base ∧ (b.base.toInt + b.data.size ≤ c.base.toInt ∨ c.base.toInt + c.data.size ≤ b.base.toInt)
    have hpairs : r.memory.blocks.Pairwise R := List.pairwise_map.1 (h.disjoint.sublist h.live)
    have : Std.Symm R := ⟨fun _ _ h => ⟨h.1.symm, h.2.symm⟩⟩
    exact fun b hb c hc hne => hpairs.forall hb hc hne

namespace NativeMemory

variable {m : NativeMemory} {address : Int64} {n : Nat} {b c : MemoryBlock}

theorem Sound.perm (h : m.Sound) {blocks : List MemoryBlock} (hperm : blocks.Perm m.blocks) :
    Sound { m with blocks } where
  range b hb := h.range b (hperm.mem_iff.1 hb)
  apart b hb c hc := h.apart b (hperm.mem_iff.1 hb) c (hperm.mem_iff.1 hc)

/-- Only one block holds the bytes of an access. -/
theorem Holds.unique (hm : m.Sound) (hn : 1 ≤ n) (hb : m.Holds address n b) (hc : m.Holds address n c) : b = c := by
  by_contra hne
  have happart := (hm.apart b hb.live c hc.live hne).2
  have hlow := hb.low
  have hhigh := hb.high
  have hlow' := hc.low
  have hhigh' := hc.high
  omega

/-! ## Looking for a block -/

theorem claims_iff (hm : m.Sound) (hb : b ∈ m.blocks) (hn : n < 2 ^ 63) (hend : address.toInt + n < 2 ^ 63) :
    claims b address n = true ↔ m.Holds address n b := by
  obtain ⟨hlow, hhigh⟩ := hm.range b hb
  have haddress := address.le_toInt
  have hsum : (address + Int64.ofNat n).toInt = address.toInt + n := by
    have hof := Int64.toInt_ofNat_of_lt hn
    rw [toInt_add_of_fits (by rw [hof]; omega) (by rw [hof]; exact hend), hof]
  have hstop : (b.base + Int64.ofNat b.data.size).toInt = b.base.toInt + b.data.size := by
    have hof := Int64.toInt_ofNat_of_lt (n := b.data.size) (by omega)
    rw [toInt_add_of_fits (by rw [hof]; omega) (by rw [hof]; exact hhigh), hof]
  rw [claims, Bool.and_eq_true, decide_eq_true_iff, decide_eq_true_iff, Int64.le_iff_toInt_le, Int64.le_iff_toInt_le,
    hsum, hstop]
  exact ⟨fun h => ⟨hb, h.1, h.2⟩, fun h => ⟨h.low, h.high⟩⟩

/-- Where the end of an access is no address, a block that begins below seems to have its bytes. -/
theorem claims_of_wrap (hm : m.Sound) (hb : b ∈ m.blocks) (hn : n < 2 ^ 63) (hend : 2 ^ 63 ≤ address.toInt + n) :
    claims b address n = true ↔ b.base.toInt ≤ address.toInt := by
  obtain ⟨hlow, hhigh⟩ := hm.range b hb
  have haddress := address.toInt_lt
  have hsum : (address + Int64.ofNat n).toInt = address.toInt + n - 2 ^ 64 := by
    rw [Int64.toInt_add, Int64.toInt_ofNat_of_lt hn, Int.bmod_def]
    omega
  have hstop : (b.base + Int64.ofNat b.data.size).toInt = b.base.toInt + b.data.size := by
    have hof := Int64.toInt_ofNat_of_lt (n := b.data.size) (by omega)
    rw [toInt_add_of_fits (by rw [hof]; omega) (by rw [hof]; exact hhigh), hof]
  rw [claims, Bool.and_eq_true, decide_eq_true_iff, decide_eq_true_iff, Int64.le_iff_toInt_le, Int64.le_iff_toInt_le,
    hsum, hstop]
  exact ⟨fun h => h.1, fun h => ⟨h, by omega⟩⟩

theorem toInt_offset (hm : m.Sound) (hb : b ∈ m.blocks) (h : b.base.toInt ≤ address.toInt) :
    (address - b.base).toInt = address.toInt - b.base.toInt := by
  have hlow := (hm.range b hb).1
  have haddress := address.toInt_lt
  rw [Int64.toInt_sub, Int.bmod_eq_of_le (by omega) (by omega)]

/-- An access leads to the block that holds its bytes. -/
theorem locate_of_holds (hm : m.Sound) (hn : 1 ≤ n) (h : m.Holds address n b) :
    m.locate address n = .inside b.base (address.toInt - b.base.toInt).toNat := by
  obtain ⟨hlow, hhigh⟩ := hm.range b h.live
  have hbegin := h.low
  have hend := h.high
  cases hfind : m.blocks.find? (claims · address n) with
  | none =>
    have hclaims := List.find?_eq_none.1 hfind b h.live
    exact absurd ((claims_iff hm h.live (by omega) (by omega)).2 h) hclaims
  | some c =>
    have hc := List.mem_of_find?_eq_some hfind
    have hclaims := List.find?_some (p := (claims · address n)) hfind
    obtain rfl := h.unique hm hn ((claims_iff hm hc (by omega) (by omega)).1 hclaims)
    rw [locate, hfind]
    simp only
    rw [toInt_offset hm h.live h.low, if_pos (by omega)]

/-- An access whose end is an address leads nowhere if no block holds its bytes. -/
theorem locate_of_not (hm : m.Sound) (hn : n < 2 ^ 63) (hend : address.toInt + n < 2 ^ 63)
    (h : ∀ b, ¬ m.Holds address n b) : m.locate address n = .missing := by
  have hfind : m.blocks.find? (claims · address n) = none :=
    List.find?_eq_none.2 fun b hb hclaims => h b ((claims_iff hm hb hn hend).1 hclaims)
  rw [locate, hfind]

/-- An access whose end is no address leads out of a block, if one begins at it or below. -/
theorem locate_of_wrap (hm : m.Sound) (hn : n < 2 ^ 63) (hend : 2 ^ 63 ≤ address.toInt + n) :
    ((∃ b ∈ m.blocks, b.base.toInt ≤ address.toInt) → m.locate address n = .outside) ∧
      ((∀ b ∈ m.blocks, address.toInt < b.base.toInt) → m.locate address n = .missing) := by
  refine ⟨fun ⟨b, hb, hle⟩ => ?_, fun h => ?_⟩
  · cases hfind : m.blocks.find? (claims · address n) with
    | none =>
      exact absurd ((claims_of_wrap hm hb hn hend).2 hle) (List.find?_eq_none.1 hfind b hb)
    | some c =>
      have hc := List.mem_of_find?_eq_some hfind
      have hle' := (claims_of_wrap hm hc hn hend).1 (List.find?_some (p := (claims · address n)) hfind)
      obtain ⟨-, hhigh⟩ := hm.range c hc
      rw [locate, hfind]
      simp only
      rw [toInt_offset hm hc hle', if_neg (by omega)]
  · have hfind : m.blocks.find? (claims · address n) = none := by
      refine List.find?_eq_none.2 fun b hb hclaims => ?_
      have hle := (claims_of_wrap hm hb hn hend).1 hclaims
      have hlt := h b hb
      omega
    rw [locate, hfind]

theorem block_of_mem (hm : m.Sound) (hb : b ∈ m.blocks) : m.block b.base = b := by
  rw [block]
  cases hfind : m.blocks.find? (·.base == b.base) with
  | none => exact absurd (beq_self_eq_true b.base) (List.find?_eq_none.1 hfind b hb)
  | some c =>
    have hbase : c.base = b.base := eq_of_beq (List.find?_some (p := fun c : MemoryBlock => c.base == b.base) hfind)
    have heq : c = b := by
      by_contra hne
      exact (hm.apart c (List.mem_of_find?_eq_some hfind) b hb hne).1 hbase
    rw [heq]
    rfl

theorem at?_of_holds (hm : m.Sound) (hn : 1 ≤ n) (h : m.Holds address n b) :
    m.at? address n = some (b.slice address n) := by
  rw [at?, locate_of_holds hm hn h]
  simp only
  rw [read, block_of_mem hm h.live]
  rfl

/-! ## What stays -/

theorem slice_put_same {offset : Nat} {bytes : List UInt8} (hoffset : offset = (address.toInt - b.base.toInt).toNat)
    (hfits : offset + bytes.length ≤ b.data.size) :
    { b with data := put b.data offset bytes }.slice address bytes.length = bytes := by
  refine List.ext_getElem? fun i => ?_
  rw [MemoryBlock.slice, Array.getElem?_toList, Array.getElem?_extract, size_put, getElem?_put]
  simp only [← hoffset]
  by_cases hi : i < bytes.length
  · rw [if_pos (by omega), if_pos (by omega), Nat.add_sub_cancel_left]
  · rw [if_neg (by omega), List.getElem?_eq_none (by omega)]

theorem slice_put_apart {offset : Nat} {bytes : List UInt8} {start : Int64} (h : b.base.toInt ≤ address.toInt)
    (hstart : b.base.toInt ≤ start.toInt) (hoffset : offset = (start.toInt - b.base.toInt).toNat)
    (happart : start.toInt + bytes.length ≤ address.toInt ∨ address.toInt + n ≤ start.toInt) :
    { b with data := put b.data offset bytes }.slice address n = b.slice address n := by
  refine List.ext_getElem? fun i => ?_
  rw [MemoryBlock.slice, MemoryBlock.slice, Array.getElem?_toList, Array.getElem?_toList, Array.getElem?_extract,
    Array.getElem?_extract, size_put, getElem?_put]
  simp only
  split
  · rw [if_neg (by omega)]
  · rfl

/-- What is found for an access that leads into a block. -/
theorem of_locate {base : Int64} {offset : Nat} (hm : m.Sound) (h : m.locate address n = .inside base offset) :
    ∃ b ∈ m.blocks, b.base = base ∧ b.base.toInt ≤ address.toInt ∧ offset = (address.toInt - b.base.toInt).toNat ∧
      offset + n ≤ b.data.size := by
  rw [locate] at h
  split at h
  · cases h
  · next c hfind =>
    have hc := List.mem_of_find?_eq_some hfind
    have hclaims := List.find?_some (p := (claims · address n)) hfind
    rw [claims, Bool.and_eq_true, decide_eq_true_iff, Int64.le_iff_toInt_le] at hclaims
    simp only at h
    split at h
    · next hfits =>
      cases h
      exact ⟨c, hc, rfl, hclaims.1, by rw [toInt_offset hm hc hclaims.1], hfits⟩
    · cases h

/-- What a written block is afterwards. -/
theorem mem_write (hb : b ∈ m.blocks) (base : Int64) (offset : Nat) (bytes : List UInt8) :
    (if b.base = base then { b with data := put b.data offset bytes } else b) ∈ (m.write base offset bytes).blocks :=
  List.mem_map_of_mem (f := fun b => if b.base = base then { b with data := put b.data offset bytes } else b) hb

end NativeMemory

/-- A call neither frees a block nor writes to an access. -/
def MemoryCall.Spares (address : Int64) (n : Nat) (base : Int64) : MemoryCall → Prop
  | .allocate _ => True
  | .free freed => freed ≠ base
  | .put start bytes => start.toInt + bytes.length ≤ address.toInt ∨ address.toInt + n ≤ start.toInt

/-- A block holds the bytes of an access, and they are given. -/
def NativeMemory.Keeps (m : NativeMemory) (address : Int64) (bytes : List UInt8) (base : Int64) : Prop :=
  ∃ b, m.Holds address bytes.length b ∧ b.base = base ∧ b.slice address bytes.length = bytes

namespace MemoryRun

variable {r : MemoryRun} {address base : Int64} {bytes : List UInt8}

/-- What a call spares stays as it is. -/
theorem keeps_perform (hr : r.memory.Sound) (h : r.memory.Keeps address bytes base) {call : MemoryCall}
    (hcall : call.Spares address bytes.length base) : (r.perform call).memory.Keeps address bytes base := by
  obtain ⟨b, hb, rfl, hslice⟩ := h
  cases call with
  | allocate n => exact ⟨b, ⟨List.mem_cons_of_mem _ hb.live, hb.low, hb.high⟩, rfl, hslice⟩
  | free freed =>
    have hlive : b ∈ (r.memory.free freed).blocks := List.mem_filter.2 ⟨hb.live, bne_iff_ne.2 (Ne.symm hcall)⟩
    exact ⟨b, ⟨hlive, hb.low, hb.high⟩, rfl, hslice⟩
  | put start written =>
    change (r.memory.poked start written).Keeps address bytes b.base
    unfold poked
    split
    · next base offset hlocate =>
      have hmem := mem_write hb.live base offset written
      split at hmem
      · next hbase =>
        obtain ⟨c, -, hc, hlow, hoffset, -⟩ := of_locate hr hlocate
        have hsame : b.base.toInt = c.base.toInt := by rw [hbase, hc]
        refine ⟨_, ⟨hmem, hb.low, ?_⟩, rfl, ?_⟩
        · have hhigh := hb.high
          rw [← size_put b.data offset written] at hhigh
          exact hhigh
        · rw [slice_put_apart hb.low (hsame ▸ hlow) (hsame ▸ hoffset) hcall, hslice]
      · exact ⟨b, ⟨hmem, hb.low, hb.high⟩, rfl, hslice⟩
    · exact ⟨b, hb, rfl, hslice⟩

/-- What is written to a block is there afterwards. -/
theorem keeps_put (hr : r.memory.Sound) (hbytes : 1 ≤ bytes.length) {b : MemoryBlock}
    (hb : r.memory.Holds address bytes.length b) : (r.perform (.put address bytes)).memory.Keeps address bytes b.base := by
  change (r.memory.poked address bytes).Keeps address bytes b.base
  have hlow := hb.low
  have hhigh := hb.high
  have hmem := mem_write hb.live b.base (address.toInt - b.base.toInt).toNat bytes
  rw [if_pos rfl] at hmem
  rw [poked, locate_of_holds hr hbytes hb]
  refine ⟨_, ⟨hmem, hlow, ?_⟩, rfl, slice_put_same rfl (by omega)⟩
  rw [← size_put b.data (address.toInt - b.base.toInt).toNat bytes] at hhigh
  exact hhigh

/-- What a sequence of calls spares stays as it is. -/
theorem keeps_performAll (hr : r.Laid) (h : r.memory.Keeps address bytes base) {calls : List MemoryCall}
    (hn : ∀ n, .allocate n ∈ calls → 0 ≤ n.toInt)
    (hroom : r.memory.next.toInt + (calls.map MemoryCall.room).sum < 2 ^ 63)
    (hcalls : ∀ call ∈ calls, call.Spares address bytes.length base) :
    (r.performAll calls).memory.Keeps address bytes base := by
  induction calls generalizing r with
  | nil => exact h
  | cons call rest ih =>
    rw [List.map_cons, List.sum_cons] at hroom
    obtain ⟨hlaid, hnext⟩ := hr.perform call (fun n hcall => hn n (hcall ▸ List.mem_cons_self)) (by omega)
    refine ih hlaid (keeps_perform hr.sound h (hcalls call List.mem_cons_self))
      (fun n hmem => hn n (List.mem_cons_of_mem _ hmem)) ?_ fun c hc => hcalls c (List.mem_cons_of_mem _ hc)
    rw [hnext]
    omega

/-- The bytes that a call leaves in a block are found as long as they are spared, whatever else is called. -/
theorem at?_performAll_of_keeps {before later : List MemoryCall} {call : MemoryCall}
    (h : MemoryCall.Suffices (before ++ call :: later)) (hbytes : 1 ≤ bytes.length)
    (hkeeps : ((MemoryRun.performAll {} before).perform call).memory.Keeps address bytes base)
    (hlater : ∀ call ∈ later, call.Spares address bytes.length base) :
    (MemoryRun.performAll {} (before ++ call :: later)).memory.at? address bytes.length = some bytes := by
  have hspace := h.space
  rw [List.map_append, List.map_cons, List.sum_append, List.sum_cons] at hspace
  have hbefore : MemoryCall.Suffices before := ⟨fun n hmem => h.sizes n (List.mem_append_left _ hmem), by omega⟩
  obtain ⟨hlaid, hnext⟩ := laid_performAll hbefore
  obtain ⟨hcall, hnext'⟩ := hlaid.perform call
    (fun n hn => h.sizes n (List.mem_append_right _ (hn ▸ List.mem_cons_self))) (by rw [hnext]; omega)
  have hall : MemoryRun.performAll {} (before ++ call :: later) =
      ((MemoryRun.performAll {} before).perform call).performAll later := List.foldl_append
  have hsizes (n : Int64) (hmem : .allocate n ∈ later) : 0 ≤ n.toInt :=
    h.sizes n (List.mem_append_right _ (List.mem_cons_of_mem _ hmem))
  have hroom : ((MemoryRun.performAll {} before).perform call).memory.next.toInt +
      (later.map MemoryCall.room).sum < 2 ^ 63 := by
    rw [hnext', hnext]
    omega
  obtain ⟨c, hc, -, hslice⟩ := keeps_performAll hcall hkeeps hsizes hroom hlater
  rw [hall, at?_of_holds (hcall.performAll hsizes hroom).1.sound hbytes hc, hslice]

/-- The bytes that were written last are found, whatever else was called since. -/
theorem at?_performAll_put {before later : List MemoryCall} (h : MemoryCall.Suffices (before ++ .put address bytes :: later))
    (hbytes : 1 ≤ bytes.length) {b : MemoryBlock}
    (hb : (MemoryRun.performAll {} before).memory.Holds address bytes.length b)
    (hlater : ∀ call ∈ later, call.Spares address bytes.length b.base) :
    (MemoryRun.performAll {} (before ++ .put address bytes :: later)).memory.at? address bytes.length = some bytes := by
  have hspace := h.space
  rw [List.map_append, List.sum_append] at hspace
  have hbefore : MemoryCall.Suffices before := ⟨fun n hmem => h.sizes n (List.mem_append_left _ hmem), by omega⟩
  exact at?_performAll_of_keeps h hbytes (keeps_put (laid_performAll hbefore).1.sound hbytes hb) hlater

/-- A new block holds zeros. -/
theorem keeps_allocate {n : Int64} {count : Nat} (hlow : r.memory.next.toInt ≤ address.toInt)
    (hhigh : address.toInt + count ≤ r.memory.next.toInt + n.toInt.toNat) :
    (r.perform (.allocate n)).memory.Keeps address (List.replicate count 0) r.memory.next := by
  refine ⟨⟨r.memory.next, Array.replicate n.toInt.toNat 0⟩, ⟨List.mem_cons_self, hlow, ?_⟩, rfl, ?_⟩
  · rw [List.length_replicate, Array.size_replicate]
    exact hhigh
  · simp only [MemoryBlock.slice, Array.extract_replicate, Array.toList_replicate, List.length_replicate]
    congr 1
    omega

/-- Zeros are found in a block until it is written or freed, whatever else is called. -/
theorem at?_performAll_allocate {before later : List MemoryCall} {n : Int64} {count : Nat}
    (h : MemoryCall.Suffices (before ++ .allocate n :: later)) (hcount : 1 ≤ count)
    (hlow : (MemoryRun.performAll {} before).memory.next.toInt ≤ address.toInt)
    (hhigh : address.toInt + count ≤ (MemoryRun.performAll {} before).memory.next.toInt + n.toInt.toNat)
    (hlater : ∀ call ∈ later, call.Spares address count (MemoryRun.performAll {} before).memory.next) :
    (MemoryRun.performAll {} (before ++ .allocate n :: later)).memory.at? address count =
      some (List.replicate count 0) := by
  have hzeros := at?_performAll_of_keeps h (by rwa [List.length_replicate]) (keeps_allocate hlow hhigh)
    (by rwa [List.length_replicate])
  rwa [List.length_replicate] at hzeros

end MemoryRun

end JavaMachine
