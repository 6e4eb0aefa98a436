import ChipEight.Proofs.Display.InStep
import ChipEight.Proofs.Display.Strokes

/-!
# Strokes as pixels

1. The pixels of the picture are the bits of its bytes (`exists_pixel_iff`), so strokes invert the
   pixels under the bits that they invert together (`pixel_invertAll`).
2. Strokes that are apart report a lit pixel that went dark just if there is one
   (`erased_invertAll_iff_wentDark`).
3. The bits of one row of a sprite lie side by side from its left end on, round the right edge,
   also where the row is split between two bytes (`getMsbD_mask_ofRow`, `rowBit_eq_true_iff`).
-/

namespace ChipEight

/-- A byte that is not zero has a bit that is set. -/
theorem Byte.ne_zero_iff (byte : Byte) : byte ≠ 0 ↔ ∃ bit : Fin 8, byte.getMsbD bit.val = true := by
  constructor
  · intro h
    apply Classical.byContradiction
    intro hbit
    apply h
    apply BitVec.eq_of_getMsbD_eq
    intro i hi
    have hdark : byte.getMsbD i = false :=
      Bool.eq_false_iff.2 fun hset => hbit ⟨⟨i, hi⟩, hset⟩
    rw [hdark]
    exact BitVec.getMsbD_zero.symm
  · rintro ⟨bit, hbit⟩ rfl
    simp at hbit

/-- Inverting bits and setting them come to the same just if none of them was set. -/
theorem Byte.xor_eq_or_iff (byte bits : Byte) :
    byte ^^^ bits = byte ||| bits ↔ byte &&& bits = 0 := by
  have hbit : ∀ a b : Bool, (a ^^ b) = (a || b) ↔ (a && b) = false := by decide
  constructor
  · intro h
    apply BitVec.eq_of_getLsbD_eq
    intro i _
    have hi : (byte ^^^ bits).getLsbD i = (byte ||| bits).getLsbD i := by rw [h]
    rw [BitVec.getLsbD_xor, BitVec.getLsbD_or, hbit] at hi
    rw [BitVec.getLsbD_and, hi]
    exact BitVec.getLsbD_zero.symm
  · intro h
    apply BitVec.eq_of_getLsbD_eq
    intro i _
    have hi : (byte &&& bits).getLsbD i = false := by rw [h]; exact BitVec.getLsbD_zero
    rw [BitVec.getLsbD_and, ← hbit] at hi
    rw [BitVec.getLsbD_xor, BitVec.getLsbD_or, hi]

namespace Display

/-- In `d'` a pixel is dark that is lit in `d`. -/
def WentDark (d d' : Display) : Prop := ∃ x y, d.pixel x y = true ∧ d'.pixel x y = false

/-! ## Pixels and bytes -/

theorem pixel_eq_byteAt (d : Display) (x : Fin 64) (y : Fin 32) :
    d.pixel x y = (d.cells.byteAt (placeOf x y)).getMsbD (x.val % 8) := rfl

/-- The pixels are the bits of the bytes. -/
theorem exists_pixel_iff (P : Fin 256 → Nat → Prop) :
    (∃ x y, P (placeOf x y) (x.val % 8)) ↔ ∃ place, ∃ bit : Fin 8, P place bit.val := by
  constructor
  · rintro ⟨x, y, h⟩
    exact ⟨placeOf x y, ⟨x.val % 8, by omega⟩, h⟩
  · rintro ⟨place, bit, h⟩
    let x : Fin 64 := ⟨place.val % 8 * 8 + bit.val, by omega⟩
    let y : Fin 32 := ⟨place.val / 8, by omega⟩
    obtain ⟨hplace, hbit⟩ := (placeOf_eq_iff x y place bit).2 ⟨rfl, rfl⟩
    refine ⟨x, y, ?_⟩
    rw [hplace, hbit]
    exact h

/-! ## Strokes -/

section Strokes

variable {strokes : List Stroke} (d : Display)

theorem pixel_invertAll (strokes : List Stroke) (x : Fin 64) (y : Fin 32) :
    (d.invertAll strokes).1.pixel x y =
      (d.pixel x y ^^ (Stroke.mask (placeOf x y) strokes).getMsbD (x.val % 8)) := by
  rw [pixel_eq_byteAt, byteAt_invertAll, BitVec.getMsbD_xor]
  rfl

/-- A stroke that meets a lit pixel is told by what it leaves: a bit less than were both set. -/
theorem erased_invert_iff (place : Fin 256) (bits : Byte) :
    (d.invert place bits).2 = true ↔
      d.cells.byteAt place ^^^ bits ≠ d.cells.byteAt place ||| bits := by
  rw [Ne, Byte.xor_eq_or_iff]
  exact bne_iff_ne

/-- Strokes that are apart meet a lit pixel where together they invert one. -/
theorem erased_invertAll_iff_exists (h : Stroke.Apart strokes) :
    (d.invertAll strokes).2 = true ↔ ∃ x y, d.pixel x y = true ∧
      (Stroke.mask (placeOf x y) strokes).getMsbD (x.val % 8) = true := by
  simp only [pixel_eq_byteAt]
  rw [erased_invertAll_iff h, exists_pixel_iff fun place bit =>
    (d.cells.byteAt place).getMsbD bit = true ∧ (Stroke.mask place strokes).getMsbD bit = true]
  constructor
  · rintro ⟨s, hs, hmet⟩
    obtain ⟨bit, hbit⟩ := (Byte.ne_zero_iff _).1 hmet
    rw [BitVec.getMsbD_and, Bool.and_eq_true] at hbit
    refine ⟨s.place, bit, hbit.1, ?_⟩
    rw [Stroke.mask_eq_bits h hs]
    exact hbit.2
  · rintro ⟨place, bit, hlit, hset⟩
    obtain ⟨s, hs, rfl⟩ := Stroke.exists_of_mask_ne_zero ((Byte.ne_zero_iff _).2 ⟨bit, hset⟩)
    refine ⟨s, hs, (Byte.ne_zero_iff _).2 ⟨bit, ?_⟩⟩
    rw [Stroke.mask_eq_bits h hs] at hset
    rw [BitVec.getMsbD_and, hlit, hset]
    rfl

theorem erased_invertAll_iff_wentDark (h : Stroke.Apart strokes) :
    (d.invertAll strokes).2 = true ↔ d.WentDark (d.invertAll strokes).1 := by
  rw [erased_invertAll_iff_exists d h]
  refine exists_congr fun x => exists_congr fun y => and_congr_right fun hlit => ?_
  rw [pixel_invertAll, hlit, Bool.true_xor, Bool.not_eq_false']

end Strokes

/-- A sprite that does not come round reports a lit pixel that went dark just if there is one. -/
theorem erased_blit_iff_wentDark (x y : Byte) {rows : List Byte} (h : rows.length ≤ 32)
    (d : Display) : (d.blit x y rows).2 = true ↔ d.WentDark (d.blit x y rows).1 := by
  rw [blit_eq_invertAll]
  exact erased_invertAll_iff_wentDark d (Stroke.apart_ofSprite x y h)

/-! ## Rows of a sprite -/

/-- The bit of a row of a sprite that falls on a column, its left end being in column `x`. -/
def rowBit (x : Fin 64) (bits : Byte) (column : Fin 64) : Bool :=
  bits.getMsbD (column - x).val

theorem val_column_sub (x column : Fin 64) :
    (column - x).val = (64 - x.val + column.val) % 64 := by
  rw [Fin.sub_def]

theorem rowBit_eq_true_iff (x : Fin 64) (bits : Byte) (column : Fin 64) :
    rowBit x bits column = true ↔
      ∃ bit : Fin 8, bits.getMsbD bit.val = true ∧ (x.val + bit.val) % 64 = column.val := by
  have hsub := val_column_sub x column
  unfold rowBit
  constructor
  · intro h
    have hlt : (column - x).val < 8 := BitVec.lt_of_getMsbD h
    exact ⟨⟨(column - x).val, hlt⟩, h, by simp only; omega⟩
  · rintro ⟨bit, hbit, hcolumn⟩
    rw [show (column - x).val = bit.val by omega]
    exact hbit

/-! ## Rows of a sprite in two bytes -/

theorem offset_eq_iff (row row' : Fin 32) (column column' : Fin 8) :
    offset row column = offset row' column' ↔ row = row' ∧ column = column' := by
  simp only [Fin.ext_iff, offset]
  omega

section Parts

variable {x column : Fin 64} (bits : Byte)

/-- The byte with the left end of a row has the bits of the row up to its own right end. -/
theorem getMsbD_leftPart (h : column.val / 8 = x.val / 8) :
    (bits >>> (x.val % 8)).getMsbD (column.val % 8) = rowBit x bits column := by
  have hsub := val_column_sub x column
  rw [BitVec.getMsbD_ushiftRight, decide_eq_true (by omega), Bool.true_and, rowBit]
  by_cases hleft : column.val % 8 < x.val % 8
  · rw [decide_eq_true hleft, BitVec.getMsbD_of_ge bits (column - x).val (by omega)]
    rfl
  · rw [decide_eq_false hleft, show (column - x).val = column.val % 8 - x.val % 8 by omega]
    rfl

/-- The next byte of the same line has what is left of the row. -/
theorem getMsbD_rightPart (h : column.val / 8 = (x.val / 8 + 1) % 8) :
    (bits <<< (8 - x.val % 8)).getMsbD (column.val % 8) = rowBit x bits column := by
  have hsub := val_column_sub x column
  rw [BitVec.getMsbD_shiftLeft, rowBit]
  congr 1
  omega

theorem rowBit_of_neither (hleft : column.val / 8 ≠ x.val / 8)
    (hright : x.val % 8 ≠ 0 → column.val / 8 ≠ (x.val / 8 + 1) % 8) :
    rowBit x bits column = false := by
  have hsub := val_column_sub x column
  exact BitVec.getMsbD_of_ge bits _ (by omega)

end Parts

theorem mem_ofRow_iff {x : Fin 64} {row : Fin 32} {bits : Byte} {s : Stroke} :
    s ∈ Stroke.ofRow x row bits ↔
      s = ⟨offset row (byteColumn x), bits >>> (x.val % 8)⟩ ∨
      x.val % 8 ≠ 0 ∧
        s = ⟨offset row (Stroke.byteColumnAt ((byteColumn x).val + 1)),
          bits <<< (8 - x.val % 8)⟩ := by
  simp only [Stroke.ofRow]
  split
  · rename_i hshift
    rw [List.mem_singleton]
    exact ⟨Or.inl, fun h => h.resolve_right fun hright => hright.1 hshift⟩
  · rename_i hshift
    rw [List.mem_cons, List.mem_singleton]
    exact or_congr_right (and_iff_right hshift).symm

/-- The two parts of a row are together what falls on the pixels of its line. -/
theorem getMsbD_mask_ofRow (x : Fin 64) (row : Fin 32) (bits : Byte) (column : Fin 64)
    (line : Fin 32) :
    (Stroke.mask (placeOf column line) (Stroke.ofRow x row bits)).getMsbD (column.val % 8) =
      (decide (line = row) && rowBit x bits column) := by
  have hapart := Stroke.apart_ofRow x row bits
  by_cases hleft : line = row ∧ column.val / 8 = x.val / 8
  · have hplace : placeOf column line = offset row (byteColumn x) :=
      (offset_eq_iff ..).2 ⟨hleft.1, Fin.ext hleft.2⟩
    rw [decide_eq_true hleft.1, Bool.true_and, hplace,
      Stroke.mask_eq_bits hapart (mem_ofRow_iff.2 (Or.inl rfl))]
    exact getMsbD_leftPart bits hleft.2
  by_cases hright : x.val % 8 ≠ 0 ∧ line = row ∧ column.val / 8 = (x.val / 8 + 1) % 8
  · have hplace : placeOf column line =
        offset row (Stroke.byteColumnAt ((byteColumn x).val + 1)) :=
      (offset_eq_iff ..).2 ⟨hright.2.1, Fin.ext hright.2.2⟩
    rw [decide_eq_true hright.2.1, Bool.true_and, hplace,
      Stroke.mask_eq_bits hapart (mem_ofRow_iff.2 (Or.inr ⟨hright.1, rfl⟩))]
    exact getMsbD_rightPart bits hright.2.2
  · have hnone : ∀ s ∈ Stroke.ofRow x row bits, s.place ≠ placeOf column line := by
      intro s hs hplace
      rcases mem_ofRow_iff.1 hs with rfl | ⟨hshift, rfl⟩
      · obtain ⟨hrow, hcolumn⟩ := (offset_eq_iff ..).1 hplace
        exact hleft ⟨hrow.symm, (congrArg Fin.val hcolumn).symm⟩
      · obtain ⟨hrow, hcolumn⟩ := (offset_eq_iff ..).1 hplace
        exact hright ⟨hshift, hrow.symm, (congrArg Fin.val hcolumn).symm⟩
    have hdark : (decide (line = row) && rowBit x bits column) = false := by
      by_cases hline : line = row
      · rw [rowBit_of_neither bits (fun h => hleft ⟨hline, h⟩)
          (fun hshift h => hright ⟨hshift, hline, h⟩), Bool.and_false]
      · rw [decide_eq_false hline, Bool.false_and]
    rw [Stroke.mask_eq_zero hnone, hdark]
    exact BitVec.getMsbD_zero

/-! ## One row -/

theorem pixel_blitRow (x : Fin 64) (row : Fin 32) (bits : Byte) (d : Display) (column : Fin 64)
    (line : Fin 32) :
    (d.blitRow x row bits).1.pixel column line =
      (d.pixel column line ^^ (decide (line = row) && rowBit x bits column)) := by
  rw [blitRow_eq_invertAll, pixel_invertAll, getMsbD_mask_ofRow]

/-- A row reports a lit pixel that it has a bit over. -/
theorem erased_blitRow_iff (x : Fin 64) (row : Fin 32) (bits : Byte) (d : Display) :
    (d.blitRow x row bits).2 = true ↔
      ∃ column, d.pixel column row = true ∧ rowBit x bits column = true := by
  rw [blitRow_eq_invertAll, erased_invertAll_iff_exists d (Stroke.apart_ofRow x row bits)]
  simp only [getMsbD_mask_ofRow, Bool.and_eq_true, decide_eq_true_eq]
  constructor
  · rintro ⟨column, line, hlit, rfl, hbit⟩
    exact ⟨column, hlit, hbit⟩
  · rintro ⟨column, hlit, hbit⟩
    exact ⟨column, row, hlit, rfl, hbit⟩

end Display

end ChipEight
