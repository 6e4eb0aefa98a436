import ChipEight.Console.Screen
import ChipEight.Proofs.Console.Fields
import ChipEight.Proofs.Display.InStep

/-!
# What stands where on the screen

The drawing of a sheet fits the terminal (`Sheet.fits_drawing`).  So a terminal shows the upper side
of the box, 32 rows of pixels, the lower side and the status line, of which nothing is trimmed.
Pixel `x` of a row stands in cells `2 * x` and `2 * x + 1` between the sides of the box.
-/

namespace ChipEight

namespace Picture

/-- The picture of a display. -/
def ofDisplay (d : Display) : Picture :=
  ⟨Vector.ofFn fun y => Vector.ofFn fun x => d.pixel x y⟩

theorem lit_ofDisplay (d : Display) (x : Fin 64) (y : Fin 32) :
    (ofDisplay d).lit x y = d.pixel x y := by
  simp [ofDisplay, lit]

/-- The pixels make the picture. -/
theorem Shows.eq_ofDisplay {p : Picture} {d : Display} (h : p.Shows d) : p = ofDisplay d := by
  have hrows : p.rows = (ofDisplay d).rows := by
    apply Vector.ext
    intro y hy
    apply Vector.ext
    intro x hx
    exact (h ⟨x, hx⟩ ⟨y, hy⟩).trans (lit_ofDisplay d ⟨x, hx⟩ ⟨y, hy⟩).symm
  cases p
  exact congrArg Picture.mk hrows

end Picture

namespace Sheet

/-- One of the two cells of a pixel. -/
def cell (lit : Bool) : Char := if lit then '█' else ' '

theorem cells_eq (lit : Bool) : cells lit = [cell lit, cell lit] := by cases lit <;> rfl

/-- Pixel `i` stands in cells `2 * i` and `2 * i + 1`. -/
theorem getElem?_flatMap_cells {pixels : List Bool} {i : Nat} {lit : Bool}
    (h : pixels[i]? = some lit) :
    (pixels.flatMap cells)[2 * i]? = some (cell lit) ∧
      (pixels.flatMap cells)[2 * i + 1]? = some (cell lit) := by
  induction pixels generalizing i with
  | nil => cases h
  | cons pixel rest ih =>
    rw [List.flatMap_cons, cells_eq]
    cases i with
    | zero =>
      obtain rfl := Option.some.inj h
      exact ⟨rfl, rfl⟩
    | succ i => exact ih h

theorem length_flatMap_cells (pixels : List Bool) :
    (pixels.flatMap cells).length = 2 * pixels.length := by
  induction pixels with
  | nil => rfl
  | cons pixel rest ih =>
    rw [List.flatMap_cons, cells_eq, List.length_append, ih]
    simp only [List.length_cons, List.length_nil]
    omega

theorem length_pixelLine (row : Vector Bool 64) : (pixelLine row).length = 128 := by
  rw [pixelLine, length_flatMap_cells, Vector.length_toList]

theorem isNarrow_of_mem_pixelLine {row : Vector Bool 64} {c : Char} (h : c ∈ pixelLine row) :
    Drawing.IsNarrow c := by
  obtain ⟨lit, -, hc⟩ := List.mem_flatMap.1 h
  cases lit with
  | false => exact Drawing.isNarrow_of_all (by decide) hc
  | true => exact Drawing.isNarrow_of_all (by decide) hc

theorem caption_drawing {sheet : Sheet} {s : Status} (h : sheet.status = some s) :
    sheet.drawing.caption = s.chars := by
  show (statusLine sheet.status).toList = s.chars
  rw [h]
  exact String.toList_ofList

/-- The status line ends in a letter, so nothing of it is trimmed. -/
theorem trimmed_chars (s : Status) : Padding.trimmed s.chars = s.chars := by
  have hletter : s.chars = (' ' :: s.pc.place ++
      ' ' :: Padding.padded instructionField (shownInstruction s.next) ++ Decimal.digits s.cycles ++
        " cycle".toList) ++ ['s'] := by
    rw [List.append_assoc _ _ ['s']]
    rfl
  rw [hletter, Padding.trimmed_concat (by decide)]

/-- A sheet fits the terminal unless its status is very long. -/
theorem fits_drawing {sheet : Sheet} {s : Status} (hstatus : sheet.status = some s)
    (hcycles : s.cycles < 2 ^ 64) : sheet.drawing.Fits where
  title := by
    show title.length ≤ 128
    decide
  height := by simp [drawing]
  width line hline := by
    obtain ⟨row, -, rfl⟩ := List.mem_map.1 hline
    exact length_pixelLine row
  caption := by
    rw [caption_drawing hstatus]
    exact Nat.le_trans (s.length_chars_le hcycles) (by decide)
  narrow text htext c hc := by
    rcases List.mem_cons.1 htext with rfl | htext
    · have htitle : title.all fun c => decide (Drawing.IsNarrow c) := by decide
      exact Drawing.isNarrow_of_all htitle hc
    rcases List.mem_cons.1 htext with rfl | hline
    · rw [caption_drawing hstatus] at hc
      exact Status.isNarrow_of_mem_chars hc
    · obtain ⟨row, -, rfl⟩ := List.mem_map.1 hline
      exact isNarrow_of_mem_pixelLine hc

/-- Row `y` of the picture is line `y` of the drawing. -/
theorem exists_line (sheet : Sheet) (y : Fin 32) :
    ∃ row : Vector Bool 64, sheet.drawing.lines[y.val]? = some (pixelLine row) ∧
      ∀ x : Fin 64, row.toList[x.val]? = some (sheet.picture.lit x y) := by
  refine ⟨sheet.picture.rows[y], ?_, fun x => ?_⟩
  · simp [drawing]
  · simp [Picture.lit]

end Sheet

end ChipEight
