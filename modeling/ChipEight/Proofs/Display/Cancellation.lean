import ChipEight.Proofs.Display.Pixels

/-!
# Sprites that cancel

1. A sprite inverts the same bits whatever the picture is, so of a row of sprites it only matters
   which there are (`cells_drawAll_perm`), and two that are equal might as well not be drawn
   (`cells_drawAll_delete`).
2. Drawn a second time, a sprite of at most 32 rows turns off what the first time turned on
   (`erased_again_iff`).
-/

namespace ChipEight

/-- A sprite with its upper left corner at column `x` and row `y`. -/
structure Sprite where
  x : Byte
  y : Byte
  rows : List Byte
deriving Repr, DecidableEq

/-- What the sprite inverts in the byte at `place`. -/
def Sprite.mask (place : Fin 256) (s : Sprite) : Byte :=
  Stroke.mask place (Stroke.ofSprite s.x s.y s.rows)

/-- What sprites invert in the byte at `place` together. -/
def Sprite.masks (place : Fin 256) (sprites : List Sprite) : Byte :=
  sprites.foldr (fun s bits => s.mask place ^^^ bits) 0

theorem Sprite.masks_perm {sprites sprites' : List Sprite} (h : sprites.Perm sprites')
    (place : Fin 256) : masks place sprites = masks place sprites' := by
  refine h.foldr_eq' ?_ 0
  intro s _ t _ bits
  rw [← BitVec.xor_assoc, ← BitVec.xor_assoc, BitVec.xor_comm (t.mask place)]

theorem Sprite.masks_cons_cons_self (s : Sprite) (rest : List Sprite) (place : Fin 256) :
    masks place (s :: s :: rest) = masks place rest := by
  show s.mask place ^^^ (s.mask place ^^^ masks place rest) = masks place rest
  rw [← BitVec.xor_assoc, BitVec.xor_self, BitVec.zero_xor]

namespace Display

/-- Draws a sprite. -/
def draw (s : Sprite) (d : Display) : Display := (d.blit s.x s.y s.rows).1

/-- Draws sprites, one after the other. -/
def drawAll (sprites : List Sprite) (d : Display) : Display :=
  sprites.foldl (fun d s => d.draw s) d

/-! ## The order of sprites -/

theorem byteAt_draw (s : Sprite) (d : Display) (i : Fin 256) :
    (d.draw s).cells.byteAt i = d.cells.byteAt i ^^^ s.mask i := by
  rw [draw, blit_eq_invertAll, byteAt_invertAll]
  rfl

theorem byteAt_drawAll (sprites : List Sprite) (d : Display) (i : Fin 256) :
    (d.drawAll sprites).cells.byteAt i = d.cells.byteAt i ^^^ Sprite.masks i sprites := by
  induction sprites generalizing d with
  | nil => exact BitVec.xor_zero.symm
  | cons s rest ih =>
    show ((d.draw s).drawAll rest).cells.byteAt i =
      d.cells.byteAt i ^^^ (s.mask i ^^^ Sprite.masks i rest)
    rw [ih, byteAt_draw, BitVec.xor_assoc]

/-- The picture after sprites is made of the bits that they invert. -/
theorem cells_drawAll_eq {sprites sprites' : List Sprite}
    (h : ∀ i, Sprite.masks i sprites = Sprite.masks i sprites') (d : Display) :
    (d.drawAll sprites).cells = (d.drawAll sprites').cells := by
  refine Vector.ext fun i hi => ?_
  let place : Fin 256 := ⟨i, hi⟩
  calc (d.drawAll sprites).cells[i]
      = d.cells.byteAt place ^^^ Sprite.masks place sprites := byteAt_drawAll sprites d place
    _ = d.cells.byteAt place ^^^ Sprite.masks place sprites' := by rw [h]
    _ = (d.drawAll sprites').cells[i] := (byteAt_drawAll sprites' d place).symm

theorem cells_drawAll_perm {sprites sprites' : List Sprite} (h : sprites.Perm sprites')
    (d : Display) : (d.drawAll sprites).cells = (d.drawAll sprites').cells :=
  cells_drawAll_eq (Sprite.masks_perm h) d

theorem cells_drawAll_delete (s : Sprite) (before between after : List Sprite) (d : Display) :
    (d.drawAll (before ++ s :: (between ++ s :: after))).cells =
      (d.drawAll (before ++ (between ++ after))).cells := by
  have hperm : (before ++ s :: (between ++ s :: after)).Perm
      (s :: s :: (before ++ (between ++ after))) := by
    refine List.perm_middle.trans (List.Perm.cons s ?_)
    rw [← List.append_assoc, ← List.append_assoc]
    exact List.perm_middle
  refine cells_drawAll_eq (fun i => ?_) d
  rw [Sprite.masks_perm hperm, Sprite.masks_cons_cons_self]

/-! ## The same sprite twice -/

/-- What the first time turned on is what the second time meets. -/
theorem erased_again_iff (s : Sprite) (h : s.rows.length ≤ 32) (d : Display) :
    ((d.draw s).blit s.x s.y s.rows).2 = true ↔
      ∃ x y, d.pixel x y = false ∧ (d.draw s).pixel x y = true := by
  have hcells : ((d.draw s).draw s).cells = d.cells := cells_drawAll_delete s [] [] [] d
  rw [erased_blit_iff_wentDark s.x s.y h]
  refine exists_congr fun x => exists_congr fun y => ?_
  show _ ∧ ((d.draw s).draw s).pixel x y = false ↔ _
  rw [pixel_eq_byteAt ((d.draw s).draw s), hcells, and_comm]
  rfl

/-- **Sprites commute and cancel.**  Whatever the picture is, sprites may be drawn in any order, and
two equal ones may be left out.  The same sprite twice in a row gives the picture back, and if it
has at most 32 rows, the second time reports a lit pixel that went dark just if the first time
lit a dark one. -/
theorem sprites_commute_and_cancel (d : Display) :
    (∀ sprites sprites' : List Sprite, sprites.Perm sprites' →
        (d.drawAll sprites).cells = (d.drawAll sprites').cells) ∧
      (∀ (s : Sprite) (before between after : List Sprite),
        (d.drawAll (before ++ s :: (between ++ s :: after))).cells =
          (d.drawAll (before ++ (between ++ after))).cells) ∧
      ∀ (x y : Byte) (rows : List Byte),
        let once := (d.blit x y rows).1
        let twice := once.blit x y rows
        twice.1.cells = d.cells ∧
          (rows.length ≤ 32 →
            (twice.2 = true ↔ ∃ column row, d.pixel column row = false ∧
              once.pixel column row = true)) := by
  refine ⟨fun _ _ h => cells_drawAll_perm h d, fun s before between after =>
    cells_drawAll_delete s before between after d, fun x y rows => ⟨?_, fun h => ?_⟩⟩
  · exact cells_drawAll_delete ⟨x, y, rows⟩ [] [] [] d
  · exact erased_again_iff ⟨x, y, rows⟩ h d

end Display

end ChipEight
