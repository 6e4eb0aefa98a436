import Mathlib.Algebra.BigOperators.Fin
import ChipEight.Proofs.Display.Pixels

/-!
# Sprites pixel by pixel

Drawing works on bytes; here it is said of pixels.  The picture is closed to a torus: column 64 is
column 0 again, and row 32 is row 0.

1. `bitsOn` are the set bits of a sprite that fall on a pixel.  The first row has at most one of
   them, and the other rows are a sprite one row further down (`card_bitsOn_cons`).
2. So a pixel is inverted as often as bits fall on it (`pixel_blitRows`).
3. Lit pixels that go dark on the way are reported row by row (`erased_blitRows_iff`).

`blit_pixelwise` puts these together.
-/

namespace ChipEight

namespace Display

open Stroke (columnAt rowAt)

/-- The set bits of a sprite that fall on a pixel, each given by its row and its place in the row.
The upper left corner of the sprite is at column `x` and row `y`. -/
def bitsOn (x y : Nat) (rows : List Byte) (column : Fin 64) (line : Fin 32) :
    Finset (Fin rows.length × Fin 8) :=
  Finset.univ.filter fun p =>
    rows[p.1].getMsbD p.2.val = true ∧ (x + p.2.val) % 64 = column.val ∧
      (y + p.1.val) % 32 = line.val

theorem rowAt_succ (y : Nat) : rowAt y + 1 = rowAt (y + 1) := by
  apply Fin.ext
  show (y % 32 + 1) % 32 = (y + 1) % 32
  omega

/-! ## Counting bits -/

section Count

variable (x y : Nat) (bits : Byte) (rest rows : List Byte) (column : Fin 64) (line : Fin 32)

theorem rowBit_columnAt_iff :
    rowBit (columnAt x) bits column = true ↔
      ∃ bit : Fin 8, bits.getMsbD bit.val = true ∧ (x + bit.val) % 64 = column.val := by
  rw [rowBit_eq_true_iff]
  refine exists_congr fun bit => and_congr_right fun _ => ?_
  show (x % 64 + bit.val) % 64 = _ ↔ _
  omega

/-- No two bits of a row fall on the same column. -/
theorem sum_bits_of_row (P : Prop) [Decidable P] :
    (∑ bit : Fin 8,
        if bits.getMsbD bit.val = true ∧ (x + bit.val) % 64 = column.val ∧ P then 1 else 0) =
      if P ∧ rowBit (columnAt x) bits column = true then 1 else 0 := by
  by_cases h : P ∧ rowBit (columnAt x) bits column = true
  · obtain ⟨bit, hbit, hcolumn⟩ := (rowBit_columnAt_iff x bits column).1 h.2
    rw [if_pos h, Finset.sum_eq_single bit]
    · rw [if_pos ⟨hbit, hcolumn, h.1⟩]
    · intro other _ hne
      have hval : other.val ≠ bit.val := fun e => hne (Fin.ext e)
      apply if_neg
      rintro ⟨-, hother, -⟩
      omega
    · intro hmem
      exact absurd (Finset.mem_univ bit) hmem
  · rw [if_neg h]
    apply Finset.sum_eq_zero
    intro bit _
    apply if_neg
    rintro ⟨hbit, hcolumn, hP⟩
    exact h ⟨hP, (rowBit_columnAt_iff x bits column).2 ⟨bit, hbit, hcolumn⟩⟩

theorem card_bitsOn_nil : (bitsOn x y [] column line).card = 0 := by
  rw [Finset.card_eq_zero, Finset.eq_empty_iff_forall_notMem]
  intro p
  exact p.1.elim0

theorem card_bitsOn_cons :
    (bitsOn x y (bits :: rest) column line).card =
      (if y % 32 = line.val ∧ rowBit (columnAt x) bits column = true then 1 else 0) +
        (bitsOn x (y + 1) rest column line).card := by
  rw [bitsOn, bitsOn, Finset.card_filter, Finset.card_filter, Fintype.sum_prod_type,
    Fintype.sum_prod_type]
  simp only [List.length_cons]
  rw [Fin.sum_univ_succ]
  congr 1
  · exact sum_bits_of_row x bits column (y % 32 = line.val)
  · refine Finset.sum_congr rfl fun n _ => Finset.sum_congr rfl fun bit _ => ?_
    rw [show y + 1 + n.val = y + n.succ.val by rw [Fin.val_succ]; omega]
    rfl

end Count

/-! ## Drawing -/

theorem odd_one_add (n : Nat) : decide ((1 + n) % 2 = 1) = !decide (n % 2 = 1) := by
  rw [← decide_not]
  exact decide_eq_decide.2 (by omega)

theorem pixel_blitRows (x y : Nat) (rows : List Byte) (d : Display) (column : Fin 64)
    (line : Fin 32) :
    (d.blitRows (columnAt x) (rowAt y) rows).1.pixel column line =
      (d.pixel column line ^^ decide ((bitsOn x y rows column line).card % 2 = 1)) := by
  induction rows generalizing y d with
  | nil =>
    rw [card_bitsOn_nil]
    exact (Bool.xor_false _).symm
  | cons bits rest ih =>
    have hfirst : (decide (line = rowAt y) && rowBit (columnAt x) bits column) =
        decide (y % 32 = line.val ∧ rowBit (columnAt x) bits column = true) := by
      have hline : line = rowAt y ↔ y % 32 = line.val := by
        rw [Fin.ext_iff, eq_comm]
        rfl
      rw [Bool.decide_and, Bool.decide_eq_true, decide_eq_decide.2 hline]
    rw [blitRows_cons, rowAt_succ, ih, pixel_blitRow, card_bitsOn_cons, hfirst, Bool.xor_assoc]
    by_cases h : y % 32 = line.val ∧ rowBit (columnAt x) bits column = true
    · rw [if_pos h, decide_eq_true h, odd_one_add, Bool.true_xor]
    · rw [if_neg h, decide_eq_false h, Nat.zero_add, Bool.false_xor]

/-- Each row reports the lit pixels that it finds under its bits. -/
theorem erased_blitRows_iff (x y : Nat) (rows : List Byte) (d : Display) :
    (d.blitRows (columnAt x) (rowAt y) rows).2 = true ↔
      ∃ (n : Fin rows.length) (bit : Fin 8), rows[n].getMsbD bit.val = true ∧
        (d.blitRows (columnAt x) (rowAt y) (rows.take n)).1.pixel
          (columnAt (x + bit.val)) (rowAt (y + n.val)) = true := by
  induction rows generalizing y d with
  | nil => exact ⟨fun h => (nomatch h), fun ⟨n, _⟩ => n.elim0⟩
  | cons bits rest ih =>
    rw [blitRows_cons, Bool.or_eq_true, erased_blitRow_iff, rowAt_succ, ih]
    refine Iff.trans (or_congr ?_ ?_) Fin.exists_fin_succ.symm
    · -- the first row finds the picture as it was
      show _ ↔ ∃ bit : Fin 8, bits.getMsbD bit.val = true ∧
        d.pixel (columnAt (x + bit.val)) (rowAt y) = true
      simp only [rowBit_columnAt_iff]
      constructor
      · rintro ⟨column, hlit, bit, hbit, hcolumn⟩
        rw [show column = columnAt (x + bit.val) from Fin.ext hcolumn.symm] at hlit
        exact ⟨bit, hbit, hlit⟩
      · rintro ⟨bit, hbit, hlit⟩
        exact ⟨columnAt (x + bit.val), hlit, bit, hbit, rfl⟩
    · refine exists_congr fun n => exists_congr fun bit => and_congr_right fun _ => ?_
      show _ ↔ (d.blitRows (columnAt x) (rowAt y) (bits :: rest.take n)).1.pixel
        (columnAt (x + bit.val)) (rowAt (y + (n.val + 1))) = true
      rw [blitRows_cons, rowAt_succ, show y + (n.val + 1) = y + 1 + n.val by omega]

/-- **Sprites pixel by pixel.**  A sprite inverts each pixel as often as set bits of it fall on that
pixel, counted on round the edges.  It reports a collision just if one of its rows finds a lit pixel
under a set bit after the rows above it were drawn; if it has at most 32 rows, that is, just if a
pixel went dark that was lit before. -/
theorem blit_pixelwise (x y : Byte) (rows : List Byte) (d : Display) :
    (∀ (column : Fin 64) (line : Fin 32),
        (d.blit x y rows).1.pixel column line =
          (d.pixel column line ^^
            decide ((bitsOn x.toNat y.toNat rows column line).card % 2 = 1))) ∧
      ((d.blit x y rows).2 = true ↔
        ∃ (n : Fin rows.length) (bit : Fin 8), rows[n].getMsbD bit.val = true ∧
          (d.blit x y (rows.take n)).1.pixel
            (columnAt (x.toNat + bit.val)) (rowAt (y.toNat + n.val)) = true) ∧
      (rows.length ≤ 32 →
        ((d.blit x y rows).2 = true ↔
          ∃ column line, d.pixel column line = true ∧
            (d.blit x y rows).1.pixel column line = false)) :=
  ⟨pixel_blitRows x.toNat y.toNat rows d, erased_blitRows_iff x.toNat y.toNat rows d,
    fun h => erased_blit_iff_wentDark x y h d⟩

end Display

end ChipEight
