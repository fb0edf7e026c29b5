/-!
Decompression of deflated data: stored blocks and blocks with fixed or their own prefix codes. A code is
given by the lengths of its words; words of one length are numbered in the order of their symbols.
-/

namespace JavaMachine.Archive

/-- Why data cannot be decompressed. -/
inductive InflateFault where
  | truncated
  | corrupt (offset : Nat)
deriving DecidableEq, Repr

/-- Decompression under way: input, next byte, bits read ahead of use, and output. -/
structure Inflater where
  input : Array UInt8
  pos : Nat := 0
  hold : Nat := 0
  held : Nat := 0
  output : Array UInt8 := #[]

/-- A step of decompression; what was written before a fault stays. -/
abbrev Inflate (α : Type) := EStateM InflateFault Inflater α

namespace Inflate

/-- Gives up on data that breaks a rule. -/
def corrupt : Inflate α := do throw (.corrupt (← get).pos)

/-- Takes in one more byte. -/
def fill : Inflate Unit := do
  let s ← get
  match s.input[s.pos]? with
  | none => throw .truncated
  | some b => set { s with pos := s.pos + 1, hold := s.hold + b.toNat * Nat.pow 2 s.held, held := s.held + 8 }

/-- Takes in at most the given number of bytes until enough bits are held. -/
def fillTo (bits : Nat) : Nat → Inflate Unit
  | 0 => pure ()
  | n + 1 => do
    if (← get).held < bits then
      fill
      fillTo bits n

/-- Reads a number of bits, the least first. -/
def bits (n : Nat) : Inflate Nat := do
  fillTo n 4
  let s ← get
  set { s with hold := s.hold / Nat.pow 2 n, held := s.held - n }
  return s.hold % Nat.pow 2 n

/-- A prefix code: for each length from one on, how many words have it, and all symbols by length. -/
structure Code where
  counts : Array Nat
  symbols : Array Nat
  least : Nat
deriving Repr, Inhabited

/-- The code of word lengths; none if the lengths are too many or too few, one word of one bit apart. -/
def Code.ofLengths? (lengths : List Nat) : Option Code :=
  let used := lengths.filter (0 < ·)
  let top := used.foldl max 0
  let counts := (List.range top).map fun l => used.count (l + 1)
  let space := counts.foldl (fun c n => 2 * c + n) 0
  let symbols := (List.range top).flatMap fun l =>
    (lengths.zipIdx.filter fun p => p.1 == l + 1).map (·.2)
  if top = 0 ∨ space = Nat.pow 2 top ∨ (space = 1 ∧ top = 1) then
    let code : Code := ⟨counts.toArray, symbols.toArray, used.foldl min 15⟩
    some code
  else none

/-- Walks the words of each length in turn; `first` is the first word of the length and `index` the
place of its symbol. -/
def symbolAt (code : Code) : (lengths : List Nat) → (word first index : Nat) → Inflate Nat
  | [], _, _, _ => corrupt
  | n :: rest, word, first, index => do
    let word := 2 * word + (← bits 1)
    if word < first + n then
      match code.symbols[index + (word - first)]? with
      | some s => return s
      | none => corrupt
    else symbolAt code rest word (2 * (first + n)) (index + n)

/-- Reads a symbol. -/
def symbol (code : Code) : Inflate Nat := do
  if code.counts.isEmpty then corrupt
  fillTo code.least 4
  symbolAt code code.counts.toList 0 0 0

/-- Writes a byte. -/
def emit (b : UInt8) : Inflate Unit := modify fun s => { s with output := s.output.push b }

/-- Repeats what was written a distance ago. -/
def copy (distance : Nat) : Nat → Inflate Unit
  | 0 => pure ()
  | n + 1 => do
    let s ← get
    emit (s.output.getD (s.output.size - distance) 0)
    copy distance n

/-- Least value and number of extra bits of each length symbol from 257 on. -/
def lengthBases : Array (Nat × Nat) :=
  #[(3, 0), (4, 0), (5, 0), (6, 0), (7, 0), (8, 0), (9, 0), (10, 0), (11, 1), (13, 1), (15, 1), (17, 1),
    (19, 2), (23, 2), (27, 2), (31, 2), (35, 3), (43, 3), (51, 3), (59, 3), (67, 4), (83, 4), (99, 4),
    (115, 4), (131, 5), (163, 5), (195, 5), (227, 5), (258, 0)]

/-- Least value and number of extra bits of each distance symbol. -/
def distanceBases : Array (Nat × Nat) :=
  #[(1, 0), (2, 0), (3, 0), (4, 0), (5, 1), (7, 1), (9, 2), (13, 2), (17, 3), (25, 3), (33, 4), (49, 4),
    (65, 5), (97, 5), (129, 6), (193, 6), (257, 7), (385, 7), (513, 8), (769, 8), (1025, 9), (1537, 9),
    (2049, 10), (3073, 10), (4097, 11), (6145, 11), (8193, 12), (12289, 12), (16385, 13), (24577, 13)]

/-- Reads a value by its symbol. -/
def based (table : Array (Nat × Nat)) (i : Nat) : Inflate Nat := do
  match table[i]? with
  | some (base, extra) => return base + (← bits extra)
  | none => corrupt

/-- Reads symbols of a block up to its end. Every symbol takes at least one bit, so that `fuel` is the
number of bits left. -/
def compressed (literals distances : Code) : (fuel : Nat) → Inflate Unit
  | 0 => throw .truncated
  | fuel + 1 => do
    let s ← symbol literals
    if s < 256 then
      emit (UInt8.ofNat s)
      compressed literals distances fuel
    else if s = 256 then pure ()
    else
      let length ← based lengthBases (s - 257)
      let distance ← based distanceBases (← symbol distances)
      if (← get).output.size < distance then corrupt
      copy distance length
      compressed literals distances fuel

/-- Writes the given number of bytes as they stand. -/
def storedBytes : Nat → Inflate Unit
  | 0 => pure ()
  | n + 1 => do
    let s ← get
    match s.input[s.pos]? with
    | none => throw .truncated
    | some b =>
      set { s with pos := s.pos + 1 }
      emit b
      storedBytes n

/-- Reads a stored block. -/
def stored : Inflate Unit := do
  modify fun s => { s with hold := 0, held := 0 }
  let n ← bits 16
  let complement ← bits 16
  if n + complement ≠ 65535 then corrupt
  storedBytes n

/-- The literal code of fixed blocks. -/
def fixedLiterals : List Nat :=
  List.replicate 144 8 ++ List.replicate 112 9 ++ List.replicate 24 7 ++ List.replicate 8 8

/-- The order in which the lengths of the length code are written. -/
def lengthOrder : List Nat := [16, 17, 18, 0, 8, 7, 9, 6, 10, 5, 11, 4, 12, 3, 13, 2, 14, 1, 15]

/-- Reads word lengths until there are `left` more; `done` has those read, the last first. -/
def wordLengths (code : Code) : (fuel left : Nat) → (done : List Nat) → Inflate (List Nat)
  | _, 0, done => return done.reverse
  | 0, _, _ => corrupt
  | fuel + 1, left, done => do
    let s ← symbol code
    if s < 16 then wordLengths code fuel (left - 1) (s :: done)
    else
      let (value, count) ←
        if s = 16 then
          match done with
          | last :: _ => pure (last, 3 + (← bits 2))
          | [] => corrupt
        else if s = 17 then pure (0, 3 + (← bits 3))
        else pure (0, 11 + (← bits 7))
      if left < count then corrupt
      wordLengths code fuel (left - count) (List.replicate count value ++ done)

/-- A code whose lengths have to fit. -/
def codeOf (lengths : List Nat) : Inflate Code :=
  match Code.ofLengths? lengths with
  | some c => pure c
  | none => corrupt

/-- Reads the two codes of a block. -/
def ownCodes : Inflate (Code × Code) := do
  let literals := (← bits 5) + 257
  if literals > 286 then corrupt
  let distances := (← bits 5) + 1
  if distances > 30 then corrupt
  let count := (← bits 4) + 4
  let mut given : List (Nat × Nat) := []
  for place in lengthOrder.take count do
    given := (place, ← bits 3) :: given
  let meta' ← codeOf ((List.range 19).map fun i => (given.lookup i).getD 0)
  let all ← wordLengths meta' (literals + distances) (literals + distances) []
  return (← codeOf (all.take literals), ← codeOf (all.drop literals))

/-- Reads blocks up to the last. -/
def blocks : (fuel : Nat) → Inflate Unit
  | 0 => throw .truncated
  | fuel + 1 => do
    let last ← bits 1
    let kind ← bits 2
    let size := (← get).input.size * 8 + 8
    if kind = 0 then stored
    else if kind = 1 then
      compressed (← codeOf fixedLiterals) (← codeOf (List.replicate 30 5 ++ [5, 5])) size
    else if kind = 2 then
      let (literals, distances) ← ownCodes
      compressed literals distances size
    else corrupt
    if last = 0 then blocks fuel

end Inflate

/-- Decompresses data. What was written before a fault is kept. -/
def inflate (data : Array UInt8) : Array UInt8 × Option InflateFault :=
  match (Inflate.blocks (data.size * 8 + 1)).run { input := data } with
  | .ok _ s => (s.output, none)
  | .error f s => (s.output, some f)

end JavaMachine.Archive
