/-!
# Bytes, words and the fields of a word

The machine works on eight-bit bytes and sixteen-bit words.  An instruction word is four nibbles,
most significant first: `Word.nibbles` takes a word apart, `Word.ofNibbles` puts one together, and
the two undo each other (`ofNibbles_nibbles`, `nibbles_ofNibbles`).
-/

namespace ChipEight

/-- A byte: the contents of a memory cell, a register or a timer. -/
abbrev Byte := BitVec 8

/-- A sixteen-bit word: a bus address or an instruction. -/
abbrev Word := BitVec 16

/-- A four-bit number: the number of a register or a key, or the height of a sprite. -/
abbrev Nibble := BitVec 4

/-- A twelve-bit address, the widest an instruction can name. -/
abbrev Address := BitVec 12

namespace Nibble

/-- The nibble with value `n`, if four bits are enough for it. -/
def ofNat? (n : Nat) : Option Nibble :=
  if h : n < 16 then some (BitVec.ofNatLT n h) else none

theorem ofNat?_eq_none_iff (n : Nat) : ofNat? n = none ↔ 16 ≤ n := by
  unfold ofNat?
  split <;> simp <;> omega

theorem toNat_of_ofNat? {n : Nat} {x : Nibble} (h : ofNat? n = some x) : x.toNat = n := by
  unfold ofNat? at h
  split at h
  · cases h; simp
  · cases h

end Nibble

/-- The low four bits of a byte. -/
def Byte.lowNibble (b : Byte) : Nibble := b.setWidth 4

namespace Address

/-- The address as a word. -/
def toWord (a : Address) : Word := a.setWidth 16

theorem toNat_toWord (a : Address) : a.toWord.toNat = a.toNat := by
  have := a.isLt
  simp only [toWord, BitVec.toNat_setWidth]
  omega

end Address

namespace Word

/-- The four nibbles of a word, most significant first. -/
def nibbles (w : Word) : Nibble × Nibble × Nibble × Nibble :=
  (w.extractLsb' 12 4, w.extractLsb' 8 4, w.extractLsb' 4 4, w.extractLsb' 0 4)

/-- The word with these nibbles, most significant first. -/
def ofNibbles (a b c d : Nibble) : Word := a ++ b ++ c ++ d

/-- The word whose high byte is `high` and whose low byte is `low`. -/
def ofBytes (high low : Byte) : Word := high ++ low

/-- The low byte of a word. -/
def lowByte (w : Word) : Byte := w.setWidth 8

/-- The low twelve bits of a word. -/
def address (w : Word) : Address := w.setWidth 12

theorem add_ofNat_succ (w : Word) (n : Nat) :
    w + BitVec.ofNat 16 (n + 1) = w + BitVec.ofNat 16 n + 1 := by
  rw [BitVec.ofNat_add, BitVec.add_assoc]
  rfl

theorem ofNibbles_nibbles (w : Word) :
    ofNibbles w.nibbles.1 w.nibbles.2.1 w.nibbles.2.2.1 w.nibbles.2.2.2 = w := by
  apply BitVec.eq_of_getLsbD_eq
  intro i hi
  simp only [ofNibbles, nibbles, BitVec.getLsbD_append, BitVec.getLsbD_extractLsb']
  repeat' split
  all_goals grind

theorem nibbles_ofNibbles (a b c d : Nibble) : nibbles (ofNibbles a b c d) = (a, b, c, d) := by
  simp only [nibbles, ofNibbles, Prod.mk.injEq]
  refine ⟨?_, ?_, ?_, ?_⟩ <;>
    (apply BitVec.eq_of_getLsbD_eq; intro i hi
     simp only [BitVec.getLsbD_append, BitVec.getLsbD_extractLsb']; grind)

end Word

end ChipEight
