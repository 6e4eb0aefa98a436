import ChipEight.Picture

/-!
# Viewers in step with the display

A viewer is in step with the display if it shows the display as soon as it has painted the changes
that wait in the backlog (`Picture.InStep`).  Writing a byte and blanking the picture keep viewers
in step, also where the backlog overflows: from then on the whole picture is pending, which brings
any viewer in step (`shows_paint_allCells`).
-/

namespace ChipEight

namespace Display

/-- The place of the byte with the pixel in column `x` of row `y`. -/
def placeOf (x : Fin 64) (y : Fin 32) : Fin 256 := offset y (byteColumn x)

theorem pixel_eq_getMsbD (d : Display) (x : Fin 64) (y : Fin 32) :
    d.pixel x y = d.cells[placeOf x y].getMsbD (x.val % 8) := rfl

theorem placeOf_eq_iff (x : Fin 64) (y : Fin 32) (place : Fin 256) (bit : Fin 8) :
    placeOf x y = place ∧ x.val % 8 = bit.val ↔
      x.val = place.val % 8 * 8 + bit.val ∧ y.val = place.val / 8 := by
  rw [Fin.ext_iff]
  simp only [placeOf, offset, byteColumn]
  omega

theorem pixel_write (place : Fin 256) (byte : Byte) (d : Display) (x : Fin 64) (y : Fin 32) :
    (d.write place byte).pixel x y =
      if placeOf x y = place then byte.getMsbD (x.val % 8) else d.pixel x y := by
  rw [pixel_eq_getMsbD, pixel_eq_getMsbD, cells_write]
  by_cases h : placeOf x y = place
  · subst h
    rw [if_pos rfl]
    simp
  · have hne : place.val ≠ (placeOf x y).val := fun e => h (Fin.ext e.symm)
    rw [if_neg h]
    simp [hne]

theorem pixel_clear (d : Display) (x : Fin 64) (y : Fin 32) : d.clear.pixel x y = false := by
  rw [pixel_eq_getMsbD, cells_clear]
  simp

end Display

namespace Picture

open Display (placeOf)

/-! ## Painting changes -/

/-- The grid after changes of the display, one after the other. -/
def paint (changes : List Change) (p : Picture) : Picture :=
  p.heedAll (changes.flatMap Change.notices)

theorem heedAll_append (ns ns' : List Notice) (p : Picture) :
    p.heedAll (ns ++ ns') = (p.heedAll ns).heedAll ns' := List.foldl_append

theorem paint_append (cs cs' : List Change) (p : Picture) :
    p.paint (cs ++ cs') = (p.paint cs).paint cs' := by
  rw [paint, List.flatMap_append, heedAll_append]
  rfl

theorem paint_cons (c : Change) (cs : List Change) (p : Picture) :
    p.paint (c :: cs) = (p.paint [c]).paint cs := paint_append [c] cs p

theorem paint_singleton (c : Change) (p : Picture) : p.paint [c] = p.heedAll c.notices := by
  rw [paint, List.flatMap_singleton]

theorem lit_heed_pixelNotice (place : Fin 256) (byte : Byte) (bit : Fin 8) (p : Picture)
    (x : Fin 64) (y : Fin 32) :
    (p.heed (pixelNotice place byte bit)).lit x y =
      if placeOf x y = place ∧ x.val % 8 = bit.val then byte.getMsbD bit.val else p.lit x y := by
  show (p.set _ _ _).lit x y = _
  rw [lit_set]
  simp only [Fin.ext_iff (a := x), Fin.ext_iff (a := y), Display.placeOf_eq_iff]

/-- Some of the notices about a byte switch those of its pixels. -/
theorem lit_heedAll_pixelNotices (place : Fin 256) (byte : Byte) (bits : List (Fin 8)) (p : Picture)
    (x : Fin 64) (y : Fin 32) :
    (p.heedAll (bits.map (pixelNotice place byte))).lit x y =
      if placeOf x y = place ∧ bits.any (fun bit => x.val % 8 == bit.val) then
        byte.getMsbD (x.val % 8)
      else p.lit x y := by
  induction bits generalizing p with
  | nil => simp [heedAll]
  | cons bit rest ih =>
    show ((p.heed (pixelNotice place byte bit)).heedAll (rest.map (pixelNotice place byte))).lit x y
      = _
    rw [ih, lit_heed_pixelNotice]
    by_cases hplace : placeOf x y = place
    · by_cases hrest : rest.any (fun bit => x.val % 8 == bit.val)
      · simp [hplace, hrest]
      · by_cases hbit : x.val % 8 = bit.val
        · simp [hplace, hbit]
        · simp [hplace, hrest, hbit]
    · simp [hplace]

theorem lit_paint_cell (place : Fin 256) (byte : Byte) (p : Picture) (x : Fin 64) (y : Fin 32) :
    (p.paint [.cell place byte]).lit x y =
      if placeOf x y = place then byte.getMsbD (x.val % 8) else p.lit x y := by
  have hnotices : (Change.cell place byte).notices
      = (List.finRange 8).map (pixelNotice place byte) :=
    (List.map_ofFn (f := id) (g := pixelNotice place byte)).symm
  have hany : (List.finRange 8).any (fun bit => x.val % 8 == bit.val) := by
    rw [List.any_eq_true]
    exact ⟨⟨x.val % 8, by omega⟩, List.mem_finRange _, beq_self_eq_true _⟩
  rw [paint_singleton, hnotices, lit_heedAll_pixelNotices]
  simp only [hany, and_true]

/-- Changes that give some places the bytes of `f` leave the other places alone. -/
theorem lit_paint_cells (f : Fin 256 → Byte) (places : List (Fin 256)) (p : Picture)
    (x : Fin 64) (y : Fin 32) :
    (p.paint (places.map fun place => .cell place (f place))).lit x y =
      if places.contains (placeOf x y) then (f (placeOf x y)).getMsbD (x.val % 8)
      else p.lit x y := by
  induction places generalizing p with
  | nil => rfl
  | cons place rest ih =>
    rw [List.map_cons, paint_cons, ih, lit_paint_cell, List.contains_cons]
    by_cases hrest : rest.contains (placeOf x y)
    · rw [hrest, Bool.or_true]
      rfl
    · by_cases hplace : placeOf x y = place
      · subst hplace
        rw [if_neg hrest, if_pos rfl, beq_self_eq_true, Bool.true_or]
        rfl
      · rw [if_neg hrest, if_neg hplace, beq_false_of_ne hplace, Bool.false_or, if_neg hrest]

/-! ## Viewers -/

/-- The viewer shows every pixel of the display. -/
def Shows (p : Picture) (d : Display) : Prop := ∀ x y, p.lit x y = d.pixel x y

/-- The viewer shows the display once it has painted what is pending. -/
def InStep (p : Picture) (d : Display) : Prop := Shows (p.paint d.pending) d

/-- The whole picture, painted from dark, is shown whatever was shown before. -/
theorem shows_paint_allCells (p : Picture) (d : Display) :
    Shows (p.paint (.blanked :: d.allCells)) d := by
  intro x y
  have hall : d.allCells = (List.finRange 256).map fun place => .cell place d.cells[place] :=
    (List.map_ofFn (f := id) (g := fun place : Fin 256 => Change.cell place d.cells[place])).symm
  rw [paint_cons, hall, lit_paint_cells,
    if_pos (List.contains_iff_mem.2 (List.mem_finRange _)), d.pixel_eq_getMsbD]

theorem inStep_of_everything {d : Display} (h : d.backlog = .everything) (p : Picture) :
    InStep p d := by
  unfold InStep Display.pending
  rw [h]
  exact shows_paint_allCells p d

theorem inStep_dark : InStep dark Display.dark := by
  intro x y
  rw [Display.pixel_dark]
  exact lit_dark x y

theorem inStep_clear (p : Picture) (d : Display) : InStep p d.clear := by
  intro x y
  rw [Display.pixel_clear]
  exact lit_dark x y

/-- A write waits behind what was pending, or the backlog overflows. -/
theorem InStep.write {p : Picture} {d : Display} (h : InStep p d) (place : Fin 256) (byte : Byte) :
    InStep p (d.write place byte) := by
  cases hb : d.backlog with
  | everything => exact inStep_of_everything (by rw [Display.write, hb]; rfl) p
  | changes pending =>
    by_cases hroom : pending.size < Backlog.limit
    · have hpending : (d.write place byte).pending = d.pending ++ [.cell place byte] := by
        unfold Display.write Display.pending
        simp only [hb, Backlog.push_changes_of_lt _ hroom, Array.toList_push]
      intro x y
      rw [hpending, paint_append, lit_paint_cell, Display.pixel_write, h x y]
    · refine inStep_of_everything ?_ p
      rw [Display.write, hb, Backlog.push_changes_of_le _ (Nat.le_of_not_lt hroom)]

/-- A viewer that has painted what was handed over is in step with the drained display. -/
theorem InStep.drain {p : Picture} {d : Display} (h : InStep p d) :
    Shows (p.paint d.drain.1) d.drain.2 ∧ InStep (p.paint d.drain.1) d.drain.2 := by
  have hshows : Shows (p.paint d.drain.1) d.drain.2 := h
  refine ⟨hshows, ?_⟩
  rw [InStep, Display.pending_drain]
  exact hshows

end Picture

end ChipEight
