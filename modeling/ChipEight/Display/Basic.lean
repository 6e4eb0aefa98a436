import ChipEight.Bank
import ChipEight.Display.Backlog

/-!
# The display

The picture has 64 columns and 32 rows.  It is kept as 256 bytes, row by row and eight bytes to a
row; the highest bit of a byte is its leftmost pixel.  `Display.pixel` is the picture as pixels.
Every byte that is written also enters the backlog, from which `Display.drain` tells what has to be
shown anew.
-/

namespace ChipEight

/-- The picture, and what of it was not shown yet. -/
structure Display where
  /-- The bytes of the picture. -/
  cells : Bank 256
  /-- What has changed since the picture was last shown. -/
  backlog : Backlog
deriving Repr, DecidableEq

namespace Display

/-- A dark picture of which nothing has to be shown. -/
def dark : Display := ⟨.blank 256, .empty⟩

/-- The place of the byte at `column`, counted in bytes, of `row`. -/
def offset (row : Fin 32) (column : Fin 8) : Fin 256 :=
  ⟨row.val * 8 + column.val, by omega⟩

/-- The column, counted in bytes, that pixel column `x` is in. -/
def byteColumn (x : Fin 64) : Fin 8 := ⟨x.val / 8, by omega⟩

/-- Whether the pixel in column `x` of row `y` is lit. -/
def pixel (d : Display) (x : Fin 64) (y : Fin 32) : Bool :=
  d.cells[offset y (byteColumn x)].getMsbD (x.val % 8)

/-- Whether the pixel `x` places after the start of row `y` is lit.  A column of 64 or more runs on
into the next rows; there is no answer past the last byte. -/
def pixel? (d : Display) (x y : Nat) : Option Bool :=
  d.cells[y * 8 + x / 8]?.map fun byte => byte.getMsbD (x % 8)

/-- Writes a byte of the picture. -/
def write (place : Fin 256) (byte : Byte) (d : Display) : Display :=
  ⟨d.cells.set place byte, d.backlog.push (.cell place byte)⟩

/-- Blanks the picture; older changes no longer matter. -/
def clear (_ : Display) : Display := ⟨.blank 256, .changes #[.blanked]⟩

/-- Every byte of the picture as a change. -/
def allCells (d : Display) : List Change :=
  List.ofFn fun place : Fin 256 => Change.cell place d.cells[place]

/-- The changes to be shown, oldest first.  If the backlog does not list them, the whole picture is
shown again from dark. -/
def pending (d : Display) : List Change :=
  match d.backlog with
  | .changes pending => pending.toList
  | .everything => .blanked :: d.allCells

/-- Hands over the changes to be shown and starts an empty backlog. -/
def drain (d : Display) : List Change × Display := (d.pending, { d with backlog := .empty })

@[simp] theorem cells_write (place : Fin 256) (byte : Byte) (d : Display) :
    (d.write place byte).cells = d.cells.set place byte := rfl

@[simp] theorem cells_clear (d : Display) : d.clear.cells = .blank 256 := rfl

@[simp] theorem cells_drain (d : Display) : d.drain.2.cells = d.cells := rfl

@[simp] theorem pending_drain (d : Display) : d.drain.2.pending = [] := rfl

theorem pixel?_eq_some_pixel (d : Display) (x : Fin 64) (y : Fin 32) :
    d.pixel? x y = some (d.pixel x y) := by
  have h : y.val * 8 + x.val / 8 < 256 := by omega
  simp [pixel?, pixel, offset, byteColumn, h]

theorem pixel_dark (x : Fin 64) (y : Fin 32) : dark.pixel x y = false := by
  simp [pixel, dark]

end Display

end ChipEight
