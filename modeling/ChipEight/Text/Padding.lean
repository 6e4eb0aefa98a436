/-!
# Padding

Text in columns: `padded width` fills a text up with blanks at its end, `trimmed` takes blanks at
the end away.
-/

namespace ChipEight.Padding

/-- The text with blanks after it, up to `width` characters.  A longer text stays as it is. -/
def padded (width : Nat) (text : List Char) : List Char :=
  text ++ List.replicate (width - text.length) ' '

/-- The text without the blanks at its end. -/
def trimmed (text : List Char) : List Char := (text.reverse.dropWhile (· == ' ')).reverse

theorem length_padded {width : Nat} {text : List Char} (h : text.length ≤ width) :
    (padded width text).length = width := by
  simp only [padded, List.length_append, List.length_replicate]
  omega

theorem trimmed_concat {c : Char} (hc : c ≠ ' ') (text : List Char) :
    trimmed (text ++ [c]) = text ++ [c] := by
  unfold trimmed
  rw [List.reverse_concat, List.dropWhile_cons_of_neg (by simpa using hc), ← List.reverse_concat,
    List.reverse_reverse]

end ChipEight.Padding
