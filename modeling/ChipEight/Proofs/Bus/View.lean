import ChipEight.Bus

/-!
# The bus as one bank

`Bus.view` is the bank of the 4096 bytes that a program sees, wherever they are kept.  Each
operation of the bus is an operation on the view: a write sets one cell (`view_setCell`), blanking
the picture, loading a program and loading the glyphs each lay a block over the view, and the keys
are two cells of it.
-/

namespace ChipEight

/-- All that has an address, in one bank. -/
abbrev FlatMemory := Bank 4096

namespace Location

/-- The address of a byte of the picture. -/
def pictureAddress (place : Fin 256) : Fin 4096 := ⟨0x050 + place.val, by omega⟩

/-- The address of the flag of the keypad. -/
def flagAddress : Fin 4096 := 0x150

/-- The address of the key of the keypad. -/
def keyAddress : Fin 4096 := 0x151

theorem of_pictureAddress (place : Fin 256) : of (pictureAddress place) = picture place := by
  unfold of pictureAddress
  rw [dif_pos (by simp only; omega)]
  simp

theorem eq_pictureAddress_of_of_eq {a : Fin 4096} {place : Fin 256} (h : of a = picture place) :
    a = pictureAddress place := by
  unfold of at h
  split at h
  · obtain rfl := Location.picture.inj h
    exact Fin.ext (by simp only [pictureAddress]; omega)
  · split at h
    · cases h
    · split at h <;> cases h

theorem eq_flagAddress_of_of_eq {a : Fin 4096} (h : of a = keyFlag) : a = flagAddress := by
  unfold of at h
  split at h
  · cases h
  · split at h
    · exact Fin.ext (by assumption)
    · split at h <;> cases h

theorem eq_keyAddress_of_of_eq {a : Fin 4096} (h : of a = keyNumber) : a = keyAddress := by
  unfold of at h
  split at h
  · cases h
  · split at h
    · cases h
    · split at h
      · exact Fin.ext (by assumption)
      · cases h

/-- Plain memory is what lies outside the picture and the keypad. -/
theorem of_eq_memory_iff (a : Fin 4096) : of a = memory ↔ a.val < 0x050 ∨ 0x152 ≤ a.val := by
  unfold of
  split
  · simp only [reduceCtorEq, false_iff]; omega
  · split
    · simp only [reduceCtorEq, false_iff]; omega
    · split
      · simp only [reduceCtorEq, false_iff]; omega
      · simp only [true_iff]; omega

end Location

namespace Bus

open Location

theorem ext {b b' : Bus} (hmemory : b.memory = b'.memory) (hdisplay : b.display = b'.display)
    (hkeypad : b.keypad = b'.keypad) : b = b' := by
  obtain ⟨memory, display, keypad⟩ := b
  obtain ⟨memory', display', keypad'⟩ := b'
  subst hmemory hdisplay hkeypad
  rfl

/-! ## Cells -/

theorem cell_of_memory {a : Fin 4096} (h : Location.of a = .memory) (b : Bus) :
    b.cell a = b.memory.byteAt a := by
  unfold cell; rw [h]

theorem cell_pictureAddress (place : Fin 256) (b : Bus) :
    b.cell (pictureAddress place) = b.display.cells.byteAt place := by
  unfold cell; rw [of_pictureAddress]

theorem setCell_of_memory {a : Fin 4096} (h : Location.of a = .memory) (byte : Byte) (b : Bus) :
    b.setCell a byte = { b with memory := b.memory.put a byte } := by
  unfold setCell; rw [h]

theorem setCell_pictureAddress (place : Fin 256) (byte : Byte) (b : Bus) :
    b.setCell (pictureAddress place) byte = { b with display := b.display.write place byte } := by
  unfold setCell; rw [of_pictureAddress]

theorem setCell_flagAddress (byte : Byte) (b : Bus) :
    b.setCell flagAddress byte = { b with keypad := { b.keypad with flag := byte } } := rfl

theorem setCell_keyAddress (byte : Byte) (b : Bus) :
    b.setCell keyAddress byte = { b with keypad := { b.keypad with key := byte } } := rfl

/-- A write to one address is not seen at another. -/
theorem cell_setCell_of_ne {a a' : Fin 4096} (h : a' ≠ a) (byte : Byte) (b : Bus) :
    (b.setCell a byte).cell a' = b.cell a' := by
  have hne : a.val ≠ a'.val := fun e => h (Fin.ext e.symm)
  -- two addresses are kept in one place only if they are the same
  cases ha : Location.of a with
  | memory =>
    rw [setCell_of_memory ha]
    unfold cell
    cases ha' : Location.of a' <;> simp [hne]
  | picture place =>
    rw [eq_pictureAddress_of_of_eq ha, setCell_pictureAddress]
    unfold cell
    cases ha' : Location.of a' with
    | picture place' =>
      have hplace : place.val ≠ place'.val := by
        intro e
        rw [eq_pictureAddress_of_of_eq ha, eq_pictureAddress_of_of_eq ha', Fin.ext e] at hne
        exact hne rfl
      simp [hplace]
    | memory | keyFlag | keyNumber => rfl
  | keyFlag =>
    rw [eq_flagAddress_of_of_eq ha, setCell_flagAddress]
    unfold cell
    cases ha' : Location.of a' with
    | keyFlag =>
      rw [eq_flagAddress_of_of_eq ha, eq_flagAddress_of_of_eq ha'] at hne
      exact absurd rfl hne
    | memory | picture | keyNumber => rfl
  | keyNumber =>
    rw [eq_keyAddress_of_of_eq ha, setCell_keyAddress]
    unfold cell
    cases ha' : Location.of a' with
    | keyNumber =>
      rw [eq_keyAddress_of_of_eq ha, eq_keyAddress_of_of_eq ha'] at hne
      exact absurd rfl hne
    | memory | picture | keyFlag => rfl

theorem cell_setCell (a a' : Fin 4096) (byte : Byte) (b : Bus) :
    (b.setCell a byte).cell a' = if a' = a then byte else b.cell a' := by
  split
  · subst a'; exact cell_setCell_self a byte b
  · rename_i h; exact cell_setCell_of_ne h byte b

/-! ## The view -/

/-- The bytes at all addresses. -/
def view (b : Bus) : FlatMemory := Vector.ofFn b.cell

@[simp] theorem getElem_view (b : Bus) (i : Nat) (h : i < 4096) : b.view[i] = b.cell ⟨i, h⟩ := by
  simp [view]

theorem view_setCell (a : Fin 4096) (byte : Byte) (b : Bus) :
    (b.setCell a byte).view = b.view.set a byte a.isLt := by
  apply Vector.ext
  intro i hi
  rw [getElem_view, cell_setCell, Vector.getElem_set, getElem_view]
  by_cases h : a.val = i
  · rw [if_pos (Fin.ext h.symm), if_pos h]
  · rw [if_neg (fun e => h (congrArg Fin.val e).symm), if_neg h]

/-- A bus with other plain memory is seen to differ where the memory differs. -/
theorem view_withMemory (memory : Bank 4096) (b : Bus) :
    { b with memory := memory }.view =
      Vector.ofFn fun a => if Location.of a = .memory then memory.byteAt a else b.cell a := by
  apply Vector.ext
  intro i hi
  rw [getElem_view, Vector.getElem_ofFn]
  unfold cell
  cases Location.of ⟨i, hi⟩ <;> simp

/-- A block laid over plain memory is laid over the view, if it meets neither the picture nor the
keypad. -/
theorem view_overlay (start : Nat) (bytes : Array Byte) (b : Bus)
    (h : start + bytes.size ≤ 0x050 ∨ 0x152 ≤ start) :
    { b with memory := b.memory.overlay start bytes }.view = b.view.overlay start bytes := by
  apply Vector.ext
  intro i hi
  rw [view_withMemory, Vector.getElem_ofFn, Bank.getElem_overlay, getElem_view]
  by_cases ha : Location.of ⟨i, hi⟩ = .memory
  · rw [if_pos ha, cell_of_memory ha]
    exact Bank.getElem_overlay ..
  · rw [if_neg ha]
    have hout : i < start ∨ start + bytes.size ≤ i := by
      rw [of_eq_memory_iff] at ha
      simp only at ha
      omega
    split
    · rw [Array.getElem?_eq_none (by omega), Option.getD_none]
    · rfl

/-- A program that was loaded fits, and lies over memory. -/
theorem loadProgram_eq_ok {image : Array Byte} {b b' : Bus} (h : b.loadProgram image = .ok b') :
    image.size ≤ programCapacity ∧
      b' = { b with memory := b.memory.overlay programStart image } := by
  unfold loadProgram at h
  split at h
  · rename_i hsize
    exact ⟨hsize, (Except.ok.inj h).symm⟩
  · cases h

theorem view_loadProgram {image : Array Byte} {b b' : Bus} (h : b.loadProgram image = .ok b') :
    b'.view = b.view.overlay programStart image := by
  obtain ⟨-, rfl⟩ := loadProgram_eq_ok h
  exact view_overlay _ _ _ (Or.inr (by decide))

theorem view_loadGlyphs (b : Bus) : b.loadGlyphs.view = b.view.overlay 0 Glyph.rows.toArray :=
  view_overlay 0 _ b (Or.inl (Nat.le_of_eq (by rw [Vector.size_toArray])))

theorem view_clear (b : Bus) : b.clear.view = b.view.overlay 0x050 (Array.replicate 256 0) := by
  apply Vector.ext
  intro i hi
  rw [getElem_view, Bank.getElem_overlay, getElem_view]
  by_cases hin : 0x050 ≤ i ∧ i < 0x150
  · obtain ⟨place, hplace⟩ : ∃ place : Fin 256, ⟨i, hi⟩ = pictureAddress place :=
      ⟨⟨i - 0x050, by omega⟩, Fin.ext (by simp only [pictureAddress]; omega)⟩
    rw [hplace, cell_pictureAddress, if_pos hin.1]
    have hsmall : i - 0x050 < 256 := by omega
    simp [clear, hsmall]
  · have hcell : b.clear.cell ⟨i, hi⟩ = b.cell ⟨i, hi⟩ := by
      unfold cell
      cases ha : Location.of ⟨i, hi⟩ with
      | picture place =>
        have := congrArg Fin.val (eq_pictureAddress_of_of_eq ha)
        simp only [pictureAddress] at this
        omega
      | memory | keyFlag | keyNumber => rfl
    rw [hcell]
    split
    · rw [Array.getElem?_eq_none (by rw [Array.size_replicate]; omega), Option.getD_none]
    · rfl

/-! ## The keypad in the view -/

theorem press_eq_setCell (key : Nibble) (b : Bus) :
    b.press key = (b.setCell flagAddress Keypad.down).setCell keyAddress (key.setWidth 8) := rfl

theorem release_eq_setCell (b : Bus) : b.release = b.setCell flagAddress 0 := rfl

theorem view_press (key : Nibble) (b : Bus) :
    (b.press key).view =
      (b.view.put flagAddress Keypad.down).put keyAddress (key.setWidth 8) := by
  rw [press_eq_setCell, view_setCell, view_setCell]
  rfl

theorem view_release (b : Bus) : b.release.view = b.view.put flagAddress 0 := by
  rw [release_eq_setCell, view_setCell]
  rfl

theorem keypad_eq_of_view (b : Bus) :
    b.keypad = ⟨b.view.byteAt flagAddress, b.view.byteAt keyAddress⟩ := by
  rw [Bank.byteAt_eq_getElem, Bank.byteAt_eq_getElem, getElem_view, getElem_view]
  rfl

/-! ## The picture in the view -/

theorem withDisplay_write (place : Fin 256) (byte : Byte) (b : Bus) :
    { b with display := b.display.write place byte } = b.setCell (pictureAddress place) byte :=
  (setCell_pictureAddress place byte b).symm

/-- What changes only the display is seen only in the picture. -/
theorem cell_withDisplay {a : Fin 4096} (d : Display) (b : Bus)
    (h : a.val < 0x050 ∨ 0x150 ≤ a.val) : { b with display := d }.cell a = b.cell a := by
  unfold cell
  cases ha : Location.of a with
  | picture place =>
    have := congrArg Fin.val (eq_pictureAddress_of_of_eq ha)
    simp only [pictureAddress] at this
    omega
  | memory | keyFlag | keyNumber => rfl

/-- A sprite that was drawn changes the display only. -/
theorem draw_eq_ok {x y : Byte} {address : Word} {height : Nat} {b : Bus} {r : Bus × Bool}
    (h : b.draw x y address height = .ok r) :
    ∃ rows, b.loadAll address height = .ok rows ∧
      r = ({ b with display := (b.display.blit x y rows).1 }, (b.display.blit x y rows).2) := by
  unfold draw at h
  cases hrows : b.loadAll address height with
  | error f =>
    rw [hrows] at h
    cases h
  | ok rows =>
    rw [hrows] at h
    exact ⟨rows, rfl, (Except.ok.inj h).symm⟩

theorem draw_of_drawLimited? {x y : Byte} {address : Word} {height : Nat} {b : Bus} {r : Bus × Bool}
    (h : b.drawLimited? x y address height = .ok (some r)) :
    b.draw x y address (min height heightLimit) = .ok r := by
  unfold drawLimited? at h
  cases hdraw : b.draw x y address (min height heightLimit) with
  | error f =>
    rw [hdraw] at h
    cases h
  | ok drawn =>
    simp only [hdraw] at h
    split at h
    · rw [Option.some.inj (Except.ok.inj h)]
    · cases h

/-- What waits to be shown is not seen. -/
theorem view_drain (b : Bus) : { b with display := b.display.drain.2 }.view = b.view := by
  apply Vector.ext
  intro i hi
  rw [getElem_view, getElem_view]
  unfold cell
  cases Location.of ⟨i, hi⟩ <;> rfl

end Bus

end ChipEight
