import ChipEight.Display.Basic

/-!
# Sprites

A sprite is a list of rows of eight pixels, one byte each.  Drawing it inverts the picture under
its set bits.  Columns past the right edge continue at the left edge of the same row and rows past
the bottom continue at the top.  `Display.blit` also reports whether some lit pixel went dark.
-/

namespace ChipEight

namespace Display

/-- Inverts the pixels under the set bits of a byte of the picture, and tells whether one of them
was lit. -/
def invert (place : Fin 256) (bits : Byte) (d : Display) : Display × Bool :=
  let old := d.cells.byteAt place
  (d.write place (old ^^^ bits), old &&& bits != 0)

/-- Draws one row of a sprite with its left end in column `x`.  Unless the row falls on a whole
byte, it is split between that byte and the next one of the same row. -/
def blitRow (x : Fin 64) (row : Fin 32) (bits : Byte) (d : Display) : Display × Bool :=
  let column := byteColumn x
  let shift := x.val % 8
  let left := d.invert (offset row column) (bits >>> shift)
  if shift = 0 then
    left
  else
    let right := left.1.invert (offset row (column + 1)) (bits <<< (8 - shift))
    (right.1, left.2 || right.2)

/-- Draws rows one below the other, the first at `row`. -/
def blitRows (x : Fin 64) : Fin 32 → List Byte → Display → Display × Bool
  | _, [], d => (d, false)
  | row, bits :: rest, d =>
    let first := d.blitRow x row bits
    let others := blitRows x (row + 1) rest first.1
    (others.1, first.2 || others.2)

/-- Draws a sprite with its upper left corner at column `x` and row `y`, both taken round the
edges of the picture, and tells whether a lit pixel went dark on the way. -/
def blit (x y : Byte) (rows : List Byte) (d : Display) : Display × Bool :=
  d.blitRows (Fin.ofNat 64 x.toNat) (Fin.ofNat 32 y.toNat) rows

@[simp] theorem blitRows_nil (x : Fin 64) (row : Fin 32) (d : Display) :
    d.blitRows x row [] = (d, false) := rfl

theorem blitRows_cons (x : Fin 64) (row : Fin 32) (bits : Byte) (rest : List Byte) (d : Display) :
    d.blitRows x row (bits :: rest) =
      (((d.blitRow x row bits).1.blitRows x (row + 1) rest).1,
        (d.blitRow x row bits).2 || ((d.blitRow x row bits).1.blitRows x (row + 1) rest).2) := rfl

end Display

end ChipEight
