import JavaMachine.ClassFile.Constant
import JavaMachine.Text.Hex

/-!
Building a constant pool. Every constant has a key, and an index has the place of the constant of each key. Adding a
constant whose key is there gives its place and changes nothing; a new one goes to the end, and a long or double takes the
slot after it as well.
-/

namespace JavaMachine

open Text

namespace Constant

/-- The letter that the key of a constant starts with. -/
def letter : Constant → Char
  | .utf8 _ => 'U'
  | .int _ => 'I'
  | .float _ => 'F'
  | .long _ => 'J'
  | .double _ => 'D'
  | .class _ => 'C'
  | .string _ => 'S'
  | .member .. => 'R'
  | .nameAndType .. => 'N'
  | .methodHandle .. => 'H'
  | .methodType _ => 'T'
  | .invokeDynamic .. => 'Y'

/-- What follows the letter: the bytes of a text, a number, the digits of bits, or indexes between colons. -/
def detail : Constant → String
  | .utf8 raw => String.ofList (raw.map Char.ofUInt8)
  | .int v => toString v.toInt
  | .float bits => Hex.lower 8 bits.toNat
  | .long v => toString v.toInt
  | .double bits => Hex.lower 16 bits.toNat
  | .class name => toString name.toNat
  | .string text => toString text.toNat
  | .member kind owner nt => s!"{kind.tag.toNat}:{owner.toNat}:{nt.toNat}"
  | .nameAndType name desc => s!"{name.toNat}:{desc.toNat}"
  | .methodHandle kind reference => s!"{kind.toNat}:{reference.toNat}"
  | .methodType desc => toString desc.toNat
  | .invokeDynamic bootstrap nt => s!"{bootstrap.toNat}:{nt.toNat}"

/-- The key of a constant. -/
def key (c : Constant) : String := String.singleton c.letter ++ c.detail

end Constant

/-- The keys of an index are those of the constants in a pool, and lead to their places. -/
def ConstantPool.Indexed (pool : ConstantPool) (index : List (String × UInt16)) : Prop :=
  ∀ key i, index.lookup key = some i ↔ ∃ n c, pool[n]? = some (some c) ∧ c.key = key ∧ UInt16.ofNat n = i

namespace ConstantPool.Indexed

variable {pool : ConstantPool} {index : List (String × UInt16)} {c : Constant}

theorem empty : Indexed #[none] [] := by
  intro key i
  refine iff_of_false nofun ?_
  rintro ⟨n, c, hc, -, -⟩
  cases n <;> simp at hc

/-- A slot without a constant needs no key. -/
theorem push_none (h : pool.Indexed index) : Indexed (pool.push none) index := by
  intro key i
  rw [h key i]
  refine exists_congr fun n => exists_congr fun c => and_congr_left fun _ => ?_
  rw [Array.getElem?_push]
  split
  · next hn => simp [hn]
  · rfl

/-- A constant whose key is new goes to the end. -/
theorem push (h : pool.Indexed index) (hnew : index.lookup c.key = none) :
    Indexed (pool.push (some c)) ((c.key, UInt16.ofNat pool.size) :: index) := by
  have hplace (n : Nat) (c' : Constant) :
      (pool.push (some c))[n]? = some (some c') ↔ pool[n]? = some (some c') ∨ n = pool.size ∧ c' = c := by
    rw [Array.getElem?_push]
    split
    · next hn => simp [hn, eq_comm]
    · next hn => simp [hn]
  intro key i
  rw [List.lookup_cons]
  cases hkey : key == c.key with
  | true =>
    obtain rfl := eq_of_beq hkey
    refine ⟨fun hi => ⟨pool.size, c, (hplace _ _).2 (.inr ⟨rfl, rfl⟩), rfl, Option.some.inj hi⟩, ?_⟩
    rintro ⟨n, c', hat, hsame, hn⟩
    rcases (hplace n c').1 hat with hold | ⟨rfl, -⟩
    · cases hnew.symm.trans ((h _ _).2 ⟨n, c', hold, hsame, rfl⟩)
    · exact congrArg some hn
  | false =>
    have hne : c.key ≠ key := fun heq => absurd heq.symm (ne_of_beq_false hkey)
    refine (h key i).trans ⟨?_, ?_⟩
    · rintro ⟨n, c', hat, hsame, hn⟩
      exact ⟨n, c', (hplace n c').2 (.inl hat), hsame, hn⟩
    · rintro ⟨n, c', hat, hsame, hn⟩
      rcases (hplace n c').1 hat with hold | ⟨-, rfl⟩
      · exact ⟨n, c', hold, hsame, hn⟩
      · exact absurd hsame hne

end ConstantPool.Indexed

/-- A pool under construction; slot 0 is empty. -/
structure PoolBuilder where
  pool : ConstantPool := #[none]
  index : List (String × UInt16) := []
  indexed : pool.Indexed index := by exact JavaMachine.ConstantPool.Indexed.empty
deriving DecidableEq, Repr

instance : Inhabited PoolBuilder := ⟨{}⟩

namespace PoolBuilder

/-- The index of a constant, after adding it if it is new. -/
@[irreducible]
def add (c : Constant) (b : PoolBuilder) : UInt16 × PoolBuilder :=
  match h : b.index.lookup c.key with
  | some i => (i, b)
  | none =>
    let i := UInt16.ofNat b.pool.size
    let index := (c.key, i) :: b.index
    if c.isWide then (i, ⟨(b.pool.push (some c)).push none, index, (b.indexed.push h).push_none⟩)
    else (i, ⟨b.pool.push (some c), index, b.indexed.push h⟩)

/-- Adds a text. -/
def utf8 (s : String) (b : PoolBuilder) : UInt16 × PoolBuilder :=
  b.add (.utf8 (ModifiedUtf8.encodeString s))

/-- Adds a class and its name. -/
def className (name : String) (b : PoolBuilder) : UInt16 × PoolBuilder :=
  let (n, b) := b.utf8 name
  b.add (.class n)

/-- Adds a string and its text. -/
def string (s : String) (b : PoolBuilder) : UInt16 × PoolBuilder :=
  let (n, b) := b.utf8 s
  b.add (.string n)

/-- Adds a name with a descriptor. -/
def nameAndType (name desc : String) (b : PoolBuilder) : UInt16 × PoolBuilder :=
  let (n, b) := b.utf8 name
  let (d, b) := b.utf8 desc
  b.add (.nameAndType n d)

/-- Adds a reference to a member. -/
def memberRef (kind : MemberKind) (owner name desc : String) (b : PoolBuilder) :
    UInt16 × PoolBuilder :=
  let (c, b) := b.className owner
  let (nt, b) := b.nameAndType name desc
  b.add (.member kind c nt)

/-- Adds a method type. -/
def methodType (desc : String) (b : PoolBuilder) : UInt16 × PoolBuilder :=
  let (d, b) := b.utf8 desc
  b.add (.methodType d)

/-- Adds a method handle. -/
def methodHandle (kind : UInt8) (reference : UInt16) (b : PoolBuilder) : UInt16 × PoolBuilder :=
  b.add (.methodHandle kind reference)

/-- Adds a dynamic call site. -/
def invokeDynamic (bootstrap : UInt16) (name desc : String) (b : PoolBuilder) :
    UInt16 × PoolBuilder :=
  let (nt, b) := b.nameAndType name desc
  b.add (.invokeDynamic bootstrap nt)

end PoolBuilder

end JavaMachine
