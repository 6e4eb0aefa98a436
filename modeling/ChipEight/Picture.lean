import ChipEight.Display.Basic
import ChipEight.Instruction.Basic

/-!
# Showing the picture

Whoever shows a running machine is told about it in `Notice`s: pixels to switch, a status to show,
and when a frame is complete.  A `Picture` is the grid of pixels that such a viewer keeps.
`Change.notices` turns a change of the display into notices about pixels.
-/

namespace ChipEight

/-- Where a running machine is. -/
structure Status where
  /-- The address of the coming instruction. -/
  pc : Word
  /-- The coming instruction, if there is one at that address. -/
  next : Option Instruction
  /-- The number of cycles that have been run. -/
  cycles : Nat
deriving Repr, DecidableEq

/-- What a viewer is told. -/
inductive Notice where
  /-- All pixels are dark. -/
  | blank
  /-- The pixel in column `x` of row `y` is lit or dark. -/
  | pixel (x : Fin 64) (y : Fin 32) (lit : Bool)
  /-- Where the machine is. -/
  | status (status : Status)
  /-- The frame is complete. -/
  | present
deriving Repr, DecidableEq

/-- The notice about one pixel of a byte of the display. -/
def pixelNotice (place : Fin 256) (byte : Byte) (bit : Fin 8) : Notice :=
  .pixel ⟨place.val % 8 * 8 + bit.val, by omega⟩ ⟨place.val / 8, by omega⟩ (byte.getMsbD bit.val)

/-- The notices about a change of the display: a byte is eight pixels, from left to right. -/
def Change.notices : Change → List Notice
  | blanked => [.blank]
  | cell place byte => List.ofFn (pixelNotice place byte)

/-- A grid of 64 columns and 32 rows of pixels. -/
structure Picture where
  /-- The rows from top to bottom, each from left to right. -/
  rows : Vector (Vector Bool 64) 32
deriving Repr, DecidableEq

namespace Picture

/-- The grid with all pixels dark. -/
def dark : Picture := ⟨Vector.replicate 32 (Vector.replicate 64 false)⟩

/-- Whether the pixel in column `x` of row `y` is lit. -/
def lit (p : Picture) (x : Fin 64) (y : Fin 32) : Bool := p.rows[y][x]

/-- Switches one pixel. -/
def set (x : Fin 64) (y : Fin 32) (lit : Bool) (p : Picture) : Picture :=
  ⟨p.rows.set y (p.rows[y].set x lit)⟩

/-- The grid after a notice. -/
def heed (p : Picture) : Notice → Picture
  | .blank => dark
  | .pixel x y lit => p.set x y lit
  | .status _ => p
  | .present => p

/-- The grid after notices, one after the other. -/
def heedAll (notices : List Notice) (p : Picture) : Picture := notices.foldl heed p

@[simp] theorem lit_dark (x : Fin 64) (y : Fin 32) : dark.lit x y = false := by
  simp [lit, dark]

theorem lit_set (x x' : Fin 64) (y y' : Fin 32) (b : Bool) (p : Picture) :
    (p.set x y b).lit x' y' = if x' = x ∧ y' = y then b else p.lit x' y' := by
  by_cases hy : y' = y
  · subst hy
    by_cases hx : x' = x
    · subst hx; simp [lit, set]
    · have hne : x.val ≠ x'.val := fun e => hx (Fin.ext e.symm)
      simp [lit, set, hx, hne]
  · have hne : y.val ≠ y'.val := fun e => hy (Fin.ext e.symm)
    simp [lit, set, hy, hne]

end Picture

end ChipEight
