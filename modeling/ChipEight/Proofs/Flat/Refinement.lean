import ChipEight.Proofs.Flat.LockStep
import ChipEight.Proofs.Machine.Hidden

/-!
# The bus refines a flat memory

`Bus.ActsOnView` lists what each operation of a bus does to its view, cell by cell.  Every bus acts
so (`Bus.actsOnView`), and therefore a machine and its flat machine stay in lock step whatever is
done to them (`Machine.refines_flat`).
-/

namespace ChipEight

/-- What the operations of a bus do to the view. -/
structure Bus.ActsOnView (b : Bus) : Prop where
  read_ok : ∀ (address : Word) (h : address.toNat < 0x1000),
    b.read address = .ok b.view[address.toNat]
  read_error : ∀ (address : Word) (f : Fault),
    b.read address = .error f ↔ 0x1000 ≤ address.toNat ∧ f = .outOfBounds address
  write_ok : ∀ (address : Word) (byte : Byte) (h : address.toNat < 0x1000),
    ∃ b', b.write address byte = .ok b' ∧ b'.view = b.view.set address.toNat byte
  write_error : ∀ (address : Word) (byte : Byte) (f : Fault),
    b.write address byte = .error f ↔ 0x1000 ≤ address.toNat ∧ f = .outOfBounds address
  press : ∀ key : Nibble, (b.press key).view = (b.view.set 0x150 0xFF).set 0x151 (key.setWidth 8)
  release : b.release.view = b.view.set 0x150 0
  clear : ∀ (i : Nat) (h : i < 4096),
    b.clear.view[i] = if 0x050 ≤ i ∧ i < 0x150 then 0 else b.view[i]
  blit : ∀ (x y : Byte) (rows : List Byte) (i : Nat) (h : i < 4096), i < 0x050 ∨ 0x150 ≤ i →
    { b with display := (b.display.blit x y rows).1 }.view[i] = b.view[i]
  draw : ∀ (x y : Byte) (address : Word) (height : Nat) (r : Bus × Bool),
    b.draw x y address height = .ok r →
      ∀ (i : Nat) (h : i < 4096), i < 0x050 ∨ 0x150 ≤ i → r.1.view[i] = b.view[i]
  drawLimited : ∀ (x y : Byte) (address : Word) (height : Nat) (r : Bus × Bool),
    b.drawLimited? x y address height = .ok (some r) →
      ∀ (i : Nat) (h : i < 4096), i < 0x050 ∨ 0x150 ≤ i → r.1.view[i] = b.view[i]
  loadProgram : ∀ (image : Array Byte) (b' : Bus), b.loadProgram image = .ok b' →
    0x200 + image.size ≤ 0x1000 ∧ ∀ (i : Nat) (h : i < 4096),
      b'.view[i] = if 0x200 ≤ i then image[i - 0x200]?.getD b.view[i] else b.view[i]
  loadGlyphs : ∀ (i : Nat) (h : i < 4096), b.loadGlyphs.view[i] = Glyph.rows[i]?.getD b.view[i]

namespace Bus

/-- A drawing is seen in the picture only. -/
theorem view_withDisplay (d : Display) (b : Bus) (i : Nat) (h : i < 4096)
    (hi : i < 0x050 ∨ 0x150 ≤ i) : { b with display := d }.view[i] = b.view[i] := by
  rw [getElem_view, getElem_view]
  exact cell_withDisplay d b hi

theorem view_of_draw {x y : Byte} {address : Word} {height : Nat} {b : Bus} {r : Bus × Bool}
    (hdraw : b.draw x y address height = .ok r) (i : Nat) (h : i < 4096)
    (hi : i < 0x050 ∨ 0x150 ≤ i) : r.1.view[i] = b.view[i] := by
  obtain ⟨rows, -, rfl⟩ := draw_eq_ok hdraw
  exact view_withDisplay _ b i h hi

theorem refused_iff {α : Type} {address : Word} (access : address.toNat < 4096 → α) (f : Fault) :
    (if h : address.toNat < 4096 then Except.ok (access h)
      else .error (.outOfBounds address)) = .error f ↔
        0x1000 ≤ address.toNat ∧ f = .outOfBounds address := by
  split
  · rename_i h
    constructor
    · intro e; cases e
    · intro e; omega
  · rename_i h
    constructor
    · intro e; exact ⟨by omega, (Except.error.inj e).symm⟩
    · intro e; rw [e.2]

theorem actsOnView (b : Bus) : b.ActsOnView where
  read_ok address h := by rw [read_eq_ok address b h, getElem_view]
  read_error address f := refused_iff _ f
  write_ok address byte h := ⟨_, write_eq_ok address byte b h, view_setCell _ byte b⟩
  write_error address byte f := refused_iff _ f
  press key := view_press key b
  release := view_release b
  clear i h := by
    rw [view_clear, Bank.getElem_overlay]
    by_cases hin : 0x050 ≤ i ∧ i < 0x150
    · have hsmall : i - 0x050 < 256 := by omega
      rw [if_pos hin, if_pos hin.1]
      simp [hsmall]
    · rw [if_neg hin]
      split
      · rw [Array.getElem?_eq_none (by rw [Array.size_replicate]; omega), Option.getD_none]
      · rfl
  blit x y rows i h hi := view_withDisplay _ b i h hi
  draw x y address height r hdraw i h hi := view_of_draw hdraw i h hi
  drawLimited x y address height r hdraw i h hi :=
    view_of_draw (draw_of_drawLimited? hdraw) i h hi
  loadProgram image b' hload := by
    refine ⟨?_, fun i h => ?_⟩
    · have hsize := (loadProgram_eq_ok hload).1
      unfold programCapacity at hsize
      omega
    · rw [view_loadProgram hload, Bank.getElem_overlay]
      rfl
  loadGlyphs i h := by
    rw [view_loadGlyphs, Bank.getElem_overlay, if_pos (Nat.zero_le i), Nat.sub_zero,
      Vector.getElem?_toArray]

end Bus

namespace Machine

/-- A machine and its flat machine stay in lock step, whatever the hidden bytes are. -/
theorem refines_flat (m : Machine) (ops : List Operation) :
    (m.after ops).bus.ActsOnView ∧
      (m.after ops).flat = m.flat.after ops ∧
      (∀ op, ((m.after ops).respond op).map flat = (m.flat.after ops).respond op) ∧
      ∀ hidden, (m.fill (.ofBank hidden)).after ops = (m.after ops).fill (.ofBank hidden) ∧
        ∀ op, ((m.fill (.ofBank hidden)).after ops).respond op =
          ((m.after ops).respond op).map (fill (.ofBank hidden)) := by
  refine ⟨Bus.actsOnView _, flat_after ops m, fun op => ?_, fun hidden => ⟨?_, fun op => ?_⟩⟩
  · rw [flat_respond, flat_after]
  · exact after_fill _ ops m
  · rw [after_fill, respond_fill]

end Machine

end ChipEight
