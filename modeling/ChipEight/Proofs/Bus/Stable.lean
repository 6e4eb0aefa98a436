import ChipEight.Proofs.Bus.View
import ChipEight.Proofs.Machine.Frame

/-!
# Properties of the bus that operations keep

A running machine changes its bus by single writes and by blanking the picture, and by nothing
else: drawing a sprite, storing a row of bytes and key events are rows of writes.  A property that
these two keep is `Bus.Stable`, and then instructions, ticks and all operations from outside that
neither load nor drain keep it (`Bus.Stable.respond`).
-/

namespace ChipEight

namespace Bus

open Location

/-- Writes and blanking the picture keep `P`. -/
structure Stable (P : Bus → Prop) : Prop where
  setCell : ∀ {b : Bus} (a : Fin 4096) (byte : Byte), P b → P (b.setCell a byte)
  clear : ∀ {b : Bus}, P b → P b.clear

namespace Stable

variable {P : Bus → Prop}

section Accesses

variable {b : Bus}

theorem write (hP : Stable P) {address : Word} {byte : Byte} {b' : Bus}
    (h : b.write address byte = .ok b') (hb : P b) : P b' := by
  unfold Bus.write at h
  split at h
  · rw [← Except.ok.inj h]
    exact hP.setCell _ _ hb
  · cases h

theorem storeFrom (hP : Stable P) (done : Nat) (address : Word) (bytes : List Byte) (hb : P b) :
    P (b.storeFrom done address bytes).value := by
  induction bytes generalizing done address b with
  | nil => exact hb
  | cons byte rest ih =>
    rw [Bus.storeFrom]
    cases h : b.write address byte with
    | ok b' => exact ih _ _ (hP.write h hb)
    | error f => exact hb

theorem store (hP : Stable P) (address : Word) (bytes : List Byte) (hb : P b) :
    P (b.store address bytes).value := hP.storeFrom 0 address bytes hb

theorem press (hP : Stable P) (key : Nibble) (hb : P b) : P (b.press key) := by
  rw [press_eq_setCell]
  exact hP.setCell _ _ (hP.setCell _ _ hb)

theorem release (hP : Stable P) (hb : P b) : P b.release := by
  rw [release_eq_setCell]
  exact hP.setCell _ _ hb

end Accesses

/-! ## Drawing -/

section Drawing

variable {b : Bus} {d : Display}

theorem invert (hP : Stable P) (place : Fin 256) (bits : Byte) (h : P { b with display := d }) :
    P { b with display := (d.invert place bits).1 } :=
  withDisplay_write place (d.cells[place] ^^^ bits) { b with display := d } ▸ hP.setCell _ _ h

theorem blitRow (hP : Stable P) (x : Fin 64) (row : Fin 32) (bits : Byte)
    (h : P { b with display := d }) : P { b with display := (d.blitRow x row bits).1 } := by
  unfold Display.blitRow
  simp only
  split
  · exact hP.invert _ _ h
  · exact hP.invert _ _ (hP.invert _ _ h)

theorem blitRows (hP : Stable P) (x : Fin 64) (row : Fin 32) (rows : List Byte)
    (h : P { b with display := d }) : P { b with display := (d.blitRows x row rows).1 } := by
  induction rows generalizing row d with
  | nil => exact h
  | cons bits rest ih =>
    rw [Display.blitRows_cons]
    exact ih _ (hP.blitRow x row bits h)

theorem blit (hP : Stable P) (x y : Byte) (rows : List Byte) (hb : P b) :
    P { b with display := (b.display.blit x y rows).1 } := hP.blitRows _ _ rows hb

theorem draw (hP : Stable P) {x y : Byte} {address : Word} {height : Nat} {r : Bus × Bool}
    (h : b.draw x y address height = .ok r) (hb : P b) : P r.1 := by
  obtain ⟨rows, -, rfl⟩ := draw_eq_ok h
  exact hP.blit x y rows hb

theorem drawLimited? (hP : Stable P) {x y : Byte} {address : Word} {height : Nat} {r : Bus × Bool}
    (h : b.drawLimited? x y address height = .ok (some r)) (hb : P b) : P r.1 :=
  hP.draw (draw_of_drawLimited? h) hb

end Drawing

/-! ## Machines -/

section Machines

variable {m : Machine}

theorem perform (hP : Stable P) (noise : Byte) (i : Instruction) (hm : P m.bus) :
    P (m.perform noise i).value.bus := by
  rcases Machine.bus_perform noise i m with h | ⟨-, h⟩ | ⟨x, y, height, r, -, hr, h⟩ | ⟨bytes, -, h⟩
  · rw [h]; exact hm
  · rw [h]; exact hP.clear hm
  · rw [h]; exact hP.draw hr hm
  · rw [h]; exact hP.store _ _ hm

theorem step (hP : Stable P) (noise : Byte) (hm : P m.bus) : P (m.step noise).value.bus :=
  Machine.step_induction (P := fun m => P m.bus) hm (fun _ h => h)
    fun i _ h => hP.perform noise i h

theorem tick (hP : Stable P) (noise : Byte) (hm : P m.bus) : P (m.tick noise).value.bus :=
  Machine.tick_induction (P := fun m => P m.bus) (hP.step noise hm) fun _ h => h

/-- Operations keep a stable property that loading keeps, if it survives draining or nothing is
drained. -/
theorem respond (hP : Stable P)
    (hload : ∀ {b b' : Bus} {image : Array Byte}, b.loadProgram image = .ok b' → P b → P b')
    (hglyphs : ∀ {b : Bus}, P b → P b.loadGlyphs) {op : Operation}
    (hdrain : op = .drain → ∀ {b : Bus}, P b → P { b with display := b.display.drain.2 })
    (hm : P m.bus) : P (m.respond op).value.bus := by
  cases op with
  | load image =>
    simp only [Machine.respond, Machine.loadProgram]
    cases h : m.bus.loadProgram image with
    | ok b => exact hload h hm
    | error f => exact hm
  | loadImage image =>
    simp only [Machine.respond]
    cases h : m.bus.loadProgram image with
    | ok b => exact hload h hm
    | error f => exact hm
  | loadGlyphs => exact hglyphs hm
  | tick noise => exact hP.tick noise hm
  | step noise => exact hP.step noise hm
  | perform noise i => exact hP.perform noise i hm
  | read address =>
    simp only [Machine.respond]
    cases m.bus.read address <;> exact hm
  | readWord address =>
    simp only [Machine.respond]
    cases m.bus.readWord address <;> exact hm
  | write address byte =>
    simp only [Machine.respond]
    cases h : m.bus.write address byte with
    | ok b => exact hP.write h hm
    | error f => exact hm
  | press key => exact hP.press key hm
  | release => exact hP.release hm
  | clear => exact hP.clear hm
  | blit x y rows => exact hP.blit x y rows hm
  | draw x y address height =>
    simp only [Machine.respond]
    cases h : m.bus.drawLimited? x y address height with
    | error f => exact hm
    | ok drawn =>
      cases drawn with
      | none => exact hm
      | some r => exact hP.drawLimited? h hm
  | drain => exact hdrain rfl hm
  | lowerTimers | setReg | pointTo | goTo => exact hm

end Machines

end Stable

end Bus

end ChipEight
