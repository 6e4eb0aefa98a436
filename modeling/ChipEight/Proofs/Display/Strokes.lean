import ChipEight.Display.Sprite

/-!
# Strokes

A sprite is drawn stroke by stroke, and a stroke inverts bits in one byte of the picture.

1. Drawing a sprite is drawing its strokes in order (`blit_eq_invertAll`).
2. Strokes change a byte by all that they invert in it together (`byteAt_invertAll`), so it
   does not matter what comes first.
3. A sprite of at most 32 rows does not come round to a byte where it was before
   (`Stroke.apart_ofSprite`).  Such strokes do not see each other: what each of them finds, and what
   it turns on or off, is read off the picture as it was at first (`erased_invertAll_iff`).
-/

namespace ChipEight

/-- Bits to be inverted in a byte of the picture. -/
structure Stroke where
  place : Fin 256
  bits : Byte
deriving Repr, DecidableEq

namespace Stroke

/-- Column `n`, counted on round the edge of the picture. -/
def columnAt (n : Nat) : Fin 64 := ⟨n % 64, by omega⟩

/-- Column `n`, counted in bytes and on round the edge of the picture. -/
def byteColumnAt (n : Nat) : Fin 8 := ⟨n % 8, by omega⟩

/-- Row `n`, counted on round the edge of the picture. -/
def rowAt (n : Nat) : Fin 32 := ⟨n % 32, by omega⟩

/-- The strokes of one row of a sprite with its left end in column `x`. -/
def ofRow (x : Fin 64) (row : Fin 32) (bits : Byte) : List Stroke :=
  let column := Display.byteColumn x
  let shift := x.val % 8
  let left : Stroke := ⟨Display.offset row column, bits >>> shift⟩
  if shift = 0 then [left]
  else [left, ⟨Display.offset row (byteColumnAt (column.val + 1)), bits <<< (8 - shift)⟩]

/-- The strokes of rows one below the other, the first at `row`. -/
def ofRows (x : Fin 64) : Fin 32 → List Byte → List Stroke
  | _, [] => []
  | row, bits :: rest => ofRow x row bits ++ ofRows x (rowAt (row.val + 1)) rest

/-- The strokes of a sprite with its upper left corner at column `x` and row `y`. -/
def ofSprite (x y : Byte) (rows : List Byte) : List Stroke :=
  ofRows (columnAt x.toNat) (rowAt y.toNat) rows

/-- What strokes invert in the byte at `place`. -/
def mask (place : Fin 256) : List Stroke → Byte
  | [] => 0
  | s :: rest => if s.place = place then s.bits ^^^ mask place rest else mask place rest

/-- No two strokes are in the same byte. -/
def Apart (strokes : List Stroke) : Prop := strokes.Pairwise fun s t => s.place ≠ t.place

/-! ## Strokes that are apart -/

theorem mask_eq_zero {place : Fin 256} {strokes : List Stroke}
    (h : ∀ s ∈ strokes, s.place ≠ place) : mask place strokes = 0 := by
  induction strokes with
  | nil => rfl
  | cons s rest ih =>
    rw [mask, if_neg (h s List.mem_cons_self)]
    exact ih fun t ht => h t (List.mem_cons_of_mem s ht)

theorem mask_eq_bits {strokes : List Stroke} (h : Apart strokes) {s : Stroke} (hs : s ∈ strokes) :
    mask s.place strokes = s.bits := by
  induction strokes with
  | nil => cases hs
  | cons t rest ih =>
    obtain ⟨hfirst, hrest⟩ := List.pairwise_cons.1 h
    rw [mask]
    rcases List.mem_cons.1 hs with rfl | hs
    · rw [if_pos rfl, mask_eq_zero fun t ht => (hfirst t ht).symm]
      exact BitVec.xor_zero
    · rw [if_neg (hfirst s hs)]
      exact ih hrest hs

theorem exists_of_mask_ne_zero {place : Fin 256} {strokes : List Stroke}
    (h : mask place strokes ≠ 0) : ∃ s ∈ strokes, s.place = place := by
  by_cases hplace : ∃ s ∈ strokes, s.place = place
  · exact hplace
  · exact absurd (mask_eq_zero fun s hs e => hplace ⟨s, hs, e⟩) h

theorem val_rowAt (n : Nat) : (rowAt n).val = n % 32 := rfl

variable {x : Fin 64} {row : Fin 32} {s : Stroke}

theorem row_of_mem_ofRow {bits : Byte} (h : s ∈ ofRow x row bits) : s.place.val / 8 = row.val := by
  have hoffset : ∀ column, (Display.offset row column).val / 8 = row.val := by
    intro column
    simp only [Display.offset]
    omega
  simp only [ofRow] at h
  split at h
  · rw [List.mem_singleton.1 h]
    exact hoffset _
  · rcases List.mem_cons.1 h with rfl | h
    · exact hoffset _
    · rw [List.mem_singleton.1 h]
      exact hoffset _

theorem row_of_mem_ofRows {rows : List Byte} (h : s ∈ ofRows x row rows) :
    ∃ n < rows.length, s.place.val / 8 = (row.val + n) % 32 := by
  induction rows generalizing row with
  | nil => cases h
  | cons bits rest ih =>
    rcases List.mem_append.1 h with hfirst | hrest
    · exact ⟨0, Nat.zero_lt_succ _, by rw [row_of_mem_ofRow hfirst]; omega⟩
    · obtain ⟨n, hn, hrow⟩ := ih hrest
      exact ⟨n + 1, Nat.succ_lt_succ hn, by rw [hrow, val_rowAt]; omega⟩

theorem apart_ofRow (x : Fin 64) (row : Fin 32) (bits : Byte) : Apart (ofRow x row bits) := by
  have hnext : Display.offset row (Display.byteColumn x) ≠
      Display.offset row (byteColumnAt ((Display.byteColumn x).val + 1)) := by
    intro h
    have hval := congrArg Fin.val h
    simp only [Display.offset, byteColumnAt] at hval
    omega
  simp only [ofRow]
  split
  · exact List.pairwise_singleton _ _
  · exact List.pairwise_pair.2 hnext

/-- The rows of the picture are as many as those of the tallest sprite that does not come round. -/
theorem apart_ofRows (x : Fin 64) (row : Fin 32) {rows : List Byte} (h : rows.length ≤ 32) :
    Apart (ofRows x row rows) := by
  induction rows generalizing row with
  | nil => exact List.Pairwise.nil
  | cons bits rest ih =>
    rw [List.length_cons] at h
    refine List.pairwise_append.2 ⟨apart_ofRow x row bits, ih (rowAt (row.val + 1)) (by omega), ?_⟩
    intro s hs t ht hplace
    have hrow := row_of_mem_ofRow hs
    obtain ⟨n, hn, hlater⟩ := row_of_mem_ofRows ht
    rw [← hplace, hrow, val_rowAt] at hlater
    -- from `row` to the row of `t` it is at least 1 and less than 32
    omega

theorem apart_ofSprite (x y : Byte) {rows : List Byte} (h : rows.length ≤ 32) :
    Apart (ofSprite x y rows) := apart_ofRows _ _ h

end Stroke

namespace Display

/-- Draws strokes, and tells whether a lit pixel went dark on the way. -/
def invertAll : List Stroke → Display → Display × Bool
  | [], d => (d, false)
  | s :: rest, d =>
    let first := d.invert s.place s.bits
    let others := invertAll rest first.1
    (others.1, first.2 || others.2)

variable {strokes : List Stroke}

theorem invertAll_append (first others : List Stroke) (d : Display) :
    d.invertAll (first ++ others) =
      (((d.invertAll first).1.invertAll others).1,
        (d.invertAll first).2 || ((d.invertAll first).1.invertAll others).2) := by
  induction first generalizing d with
  | nil => simp [invertAll]
  | cons s rest ih =>
    rw [List.cons_append, invertAll, ih]
    simp only [invertAll, Bool.or_assoc]

/-! ## Sprites as strokes -/

theorem blitRow_eq_invertAll (x : Fin 64) (row : Fin 32) (bits : Byte) (d : Display) :
    d.blitRow x row bits = d.invertAll (Stroke.ofRow x row bits) := by
  unfold blitRow Stroke.ofRow
  by_cases h : x.val % 8 = 0
  · simp only [h, if_true, invertAll, Bool.or_false]
  · simp only [h, if_false, invertAll, Bool.or_false]
    rfl

theorem blitRows_eq_invertAll (x : Fin 64) (row : Fin 32) (rows : List Byte) (d : Display) :
    d.blitRows x row rows = d.invertAll (Stroke.ofRows x row rows) := by
  induction rows generalizing row d with
  | nil => rfl
  | cons bits rest ih =>
    rw [blitRows_cons, Stroke.ofRows, invertAll_append, blitRow_eq_invertAll, ih]
    rfl

theorem blit_eq_invertAll (x y : Byte) (rows : List Byte) (d : Display) :
    d.blit x y rows = d.invertAll (Stroke.ofSprite x y rows) := blitRows_eq_invertAll ..

/-! ## What strokes leave -/

theorem byteAt_invert (place : Fin 256) (bits : Byte) (d : Display) (i : Fin 256) :
    (d.invert place bits).1.cells.byteAt i =
      if place = i then d.cells.byteAt i ^^^ bits else d.cells.byteAt i := by
  show (d.cells.set place.val (d.cells.byteAt place ^^^ bits))[i.val] = _
  rw [Vector.getElem_set]
  by_cases h : place = i
  · subst h
    rw [if_pos rfl, if_pos rfl]
  · rw [if_neg h, if_neg fun e => h (Fin.ext e)]
    rfl

theorem byteAt_invertAll (strokes : List Stroke) (d : Display) (i : Fin 256) :
    (d.invertAll strokes).1.cells.byteAt i = d.cells.byteAt i ^^^ Stroke.mask i strokes := by
  induction strokes generalizing d with
  | nil => exact BitVec.xor_zero.symm
  | cons s rest ih =>
    rw [invertAll, ih, byteAt_invert, Stroke.mask]
    split
    · rw [BitVec.xor_assoc]
    · rfl

/-- Each stroke finds its byte as it was at first. -/
theorem erased_invertAll_iff (h : Stroke.Apart strokes) (d : Display) :
    (d.invertAll strokes).2 = true ↔ ∃ s ∈ strokes, d.cells.byteAt s.place &&& s.bits ≠ 0 := by
  induction strokes generalizing d with
  | nil => simp [invertAll]
  | cons s rest ih =>
    obtain ⟨hfirst, hrest⟩ := List.pairwise_cons.1 h
    have hkept : ∀ t ∈ rest,
        (d.invert s.place s.bits).1.cells.byteAt t.place = d.cells.byteAt t.place := by
      intro t ht
      rw [byteAt_invert, if_neg (hfirst t ht)]
    have hfound : (d.invert s.place s.bits).2 = true ↔ d.cells.byteAt s.place &&& s.bits ≠ 0 :=
      bne_iff_ne
    rw [invertAll, Bool.or_eq_true, hfound, ih hrest]
    simp only [List.mem_cons, or_and_right, exists_or, exists_eq_left]
    refine or_congr Iff.rfl (exists_congr fun t => and_congr_right fun ht => ?_)
    rw [hkept t ht]

end Display

end ChipEight
