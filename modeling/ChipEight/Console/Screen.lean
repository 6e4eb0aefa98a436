import ChipEight.Console.Drawing
import ChipEight.Console.StatusLine

/-!
# The screen

On the screen the picture stands in a box of single lines, two cells to a pixel, with the status
line below the box.  A `Screen` takes in notices: it keeps the picture and the status up to date and
shows both, as a `Sheet`, whenever a frame is complete.
-/

namespace ChipEight

/-- What is shown at once. -/
structure Sheet where
  /-- The picture. -/
  picture : Picture
  /-- The status below it. -/
  status : Option Status
deriving Repr, DecidableEq

namespace Sheet

/-- Nothing but a dark picture. -/
def empty : Sheet := ⟨.dark, none⟩

/-- The title of the box. -/
def title : List Char := " CHIP-8 ".toList

/-- The two cells of a pixel. -/
def cells (lit : Bool) : List Char := if lit then ['█', '█'] else [' ', ' ']

/-- A row of pixels as a line. -/
def pixelLine (row : Vector Bool 64) : List Char := row.toList.flatMap cells

/-- The sheet as a drawing. -/
def drawing (sheet : Sheet) : Drawing :=
  ⟨title, sheet.picture.rows.toList.map pixelLine, (statusLine sheet.status).toList⟩

end Sheet

/-- A screen. -/
structure Screen where
  /-- What will be shown next. -/
  coming : Sheet
  /-- What was shown last, if anything was. -/
  shown : Option Sheet
deriving Repr, DecidableEq

namespace Screen

/-- A screen that has shown nothing yet. -/
def blank : Screen := ⟨.empty, none⟩

/-- The screen after a notice. -/
def heed (s : Screen) : Notice → Screen
  | .status status => { s with coming := { s.coming with status := some status } }
  | .present => { s with shown := some s.coming }
  | notice => { s with coming := { s.coming with picture := s.coming.picture.heed notice } }

/-- The rows shown last, by a terminal that paints drawings like this. -/
def rows (paint : Drawing → List String) (s : Screen) : List String :=
  match s.shown with
  | some sheet => paint sheet.drawing
  | none => []

end Screen

end ChipEight
