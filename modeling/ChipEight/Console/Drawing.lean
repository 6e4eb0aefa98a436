import ChipEight.Text.Padding

/-!
# Drawings

A `Drawing` is what the program hands to the terminal: a title, the lines of a picture to stand in a
box, and a caption below the box.

How a terminal shows a drawing is not part of the program.  What it relies on, on a terminal of 130
columns and 35 rows, is stated as `Paints`; `Drawing.rows` paints like that (`Drawing.paints_rows`).
-/

namespace ChipEight

/-- What is to be shown at once. -/
structure Drawing where
  /-- The title, which stands in the upper side of the box, right after the corner. -/
  title : List Char
  /-- The lines in the box. -/
  lines : List (List Char)
  /-- The line below the box. -/
  caption : List Char
deriving Repr, DecidableEq

namespace Drawing

/-- The number of cells between the sides of the box. -/
def innerWidth : Nat := 128

/-- The character is known to take up one cell: it is a full block, a visible ASCII character or a
blank. -/
def IsNarrow (c : Char) : Prop := c = '█' ∨ ' '.toNat ≤ c.toNat ∧ c.toNat ≤ '~'.toNat

instance (c : Char) : Decidable (IsNarrow c) := inferInstanceAs (Decidable (_ ∨ _))

/-- The lines fill the box of a terminal of 130 columns and 35 rows, and nothing is cut off. -/
structure Fits (d : Drawing) : Prop where
  title : d.title.length ≤ 128
  height : d.lines.length = 32
  width : ∀ line ∈ d.lines, line.length = 128
  caption : d.caption.length ≤ 130
  narrow : ∀ text ∈ d.title :: d.caption :: d.lines, ∀ c ∈ text, IsNarrow c

/-- The upper side of a box with a title. -/
def upperSide (title : List Char) : List Char :=
  '┌' :: title ++ List.replicate (innerWidth - title.length) '─' ++ ['┐']

/-- The lower side of the box. -/
def lowerSide : List Char := '└' :: List.replicate innerWidth '─' ++ ['┘']

/-- A line between the sides of the box. -/
def framed (line : List Char) : List Char := '│' :: line ++ ['│']

/-- The rows of the box. -/
def boxRows (d : Drawing) : List String :=
  String.ofList (upperSide d.title) :: d.lines.map (fun line => String.ofList (framed line))
    ++ [String.ofList lowerSide]

/-- All rows, without blanks at their ends. -/
def rows (d : Drawing) : List String :=
  d.boxRows ++ [String.ofList (Padding.trimmed d.caption)]

end Drawing

/-- How a terminal of 130 columns and 35 rows shows drawings that fit it, blanks at the ends of rows
aside. -/
structure Paints (paint : Drawing → List String) : Prop where
  /-- All rows of the terminal are used. -/
  height : ∀ d : Drawing, d.Fits → (paint d).length = 35
  /-- The title is in the upper side of the box. -/
  upper : ∀ d : Drawing, d.Fits → (paint d)[0]? = some (String.ofList (Drawing.upperSide d.title))
  /-- Line after line stands between the sides of the box. -/
  line : ∀ d : Drawing, d.Fits → ∀ (i : Nat) (line : List Char), d.lines[i]? = some line →
    (paint d)[1 + i]? = some (String.ofList (Drawing.framed line))
  /-- The box has a lower side. -/
  lower : ∀ d : Drawing, d.Fits → (paint d)[33]? = some (String.ofList Drawing.lowerSide)
  /-- The caption is below the box. -/
  caption : ∀ d : Drawing, d.Fits →
    (paint d)[34]? = some (String.ofList (Padding.trimmed d.caption))

namespace Drawing

theorem isNarrow_of_all {text : List Char} {c : Char}
    (h : text.all fun c => decide (IsNarrow c)) (hc : c ∈ text) : IsNarrow c :=
  of_decide_eq_true (List.all_eq_true.1 h c hc)

theorem length_boxRows {d : Drawing} (h : d.Fits) : d.boxRows.length = 34 := by
  simp [boxRows, h.height]

theorem getElem?_rows_of_lt {d : Drawing} (h : d.Fits) {i : Nat} (hi : i < 34) :
    d.rows[i]? = d.boxRows[i]? :=
  List.getElem?_append_left ((length_boxRows h).symm ▸ hi)

theorem paints_rows : Paints rows where
  height d h := by
    rw [rows, List.length_append, length_boxRows h]
    rfl
  upper d h := rfl
  line d h i line hline := by
    have hlt : i < d.lines.length := (List.getElem?_eq_some_iff.1 hline).1
    rw [getElem?_rows_of_lt h (by rw [h.height] at hlt; omega), boxRows,
      List.getElem?_append_left (by simpa [Nat.add_comm] using hlt), Nat.add_comm,
      List.getElem?_cons_succ, List.getElem?_map, hline]
    rfl
  lower d h := by
    rw [getElem?_rows_of_lt h (by decide), boxRows,
      List.getElem?_append_right (by simp [h.height])]
    simp [h.height]
  caption d h := by
    rw [rows, List.getElem?_append_right (Nat.le_of_eq (length_boxRows h)), length_boxRows h]
    rfl

end Drawing

end ChipEight
