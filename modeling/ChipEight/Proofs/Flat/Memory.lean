import ChipEight.Proofs.Bus.View

/-!
# A flat memory

A `FlatMemory` is one bank of 4096 bytes in which the bytes of the picture and of the keypad are
cells like all others.  It answers the same requests as a bus.  The view of a bus is a flat memory,
and every operation of the bus is the operation of the same name on the view (`view_write`,
`view_store`, `view_draw`, …).
-/

namespace ChipEight

namespace FlatMemory

/-! ## Accesses -/

def read (address : Word) (v : FlatMemory) : Except Fault Byte :=
  if h : address.toNat < 4096 then .ok v[address.toNat] else .error (.outOfBounds address)

def write (address : Word) (byte : Byte) (v : FlatMemory) : Except Fault FlatMemory :=
  if h : address.toNat < 4096 then .ok (v.set address.toNat byte)
  else .error (.outOfBounds address)

def readWord (address : Word) (v : FlatMemory) : Except Fault Word :=
  match v.read address with
  | .error f => .error f
  | .ok high =>
    match v.read (address + 1) with
    | .error f => .error f
    | .ok low => .ok (.ofBytes high low)

/-- Writes bytes from an address on, up to the first that is refused. -/
def store (address : Word) : List Byte → FlatMemory → Outcome FlatMemory
  | [], v => .success v
  | byte :: rest, v =>
    match v.write address byte with
    | .ok v' => store (address + 1) rest v'
    | .error f => .failure v f

/-- Reads `count` bytes from an address on, up to the first that is refused. -/
def load (v : FlatMemory) (address : Word) : Nat → Outcome (List Byte)
  | 0 => .success []
  | count + 1 =>
    match v.read address with
    | .ok byte => (v.load (address + 1) count).map (byte :: ·)
    | .error f => .failure [] f

def loadAll (address : Word) (count : Nat) (v : FlatMemory) : Except Fault (List Byte) :=
  let o := v.load address count
  match o.fault with
  | none => .ok o.value
  | some f => .error f

/-! ## Picture cells -/

/-- Inverts a picture cell under the set bits of a byte, and tells whether one of them was set. -/
def invert (place : Fin 256) (bits : Byte) (v : FlatMemory) : FlatMemory × Bool :=
  let a := Location.pictureAddress place
  (v.set a (v[a] ^^^ bits), v[a] &&& bits != 0)

def blitRow (x : Fin 64) (row : Fin 32) (bits : Byte) (v : FlatMemory) : FlatMemory × Bool :=
  let column := Display.byteColumn x
  let shift := x.val % 8
  let left := v.invert (Display.offset row column) (bits >>> shift)
  if shift = 0 then
    left
  else
    let next : Fin 8 := ⟨(column.val + 1) % 8, Nat.mod_lt _ (by decide)⟩
    let right := left.1.invert (Display.offset row next) (bits <<< (8 - shift))
    (right.1, left.2 || right.2)

def blitRows (x : Fin 64) : Fin 32 → List Byte → FlatMemory → FlatMemory × Bool
  | _, [], v => (v, false)
  | row, bits :: rest, v =>
    let first := v.blitRow x row bits
    let others := blitRows x ⟨(row.val + 1) % 32, Nat.mod_lt _ (by decide)⟩ rest first.1
    (others.1, first.2 || others.2)

def blit (x y : Byte) (rows : List Byte) (v : FlatMemory) : FlatMemory × Bool :=
  v.blitRows ⟨x.toNat % 64, Nat.mod_lt _ (by decide)⟩ ⟨y.toNat % 32, Nat.mod_lt _ (by decide)⟩ rows

def draw (x y : Byte) (address : Word) (height : Nat) (v : FlatMemory) :
    Except Fault (FlatMemory × Bool) :=
  (v.loadAll address height).map fun rows => v.blit x y rows

def drawLimited? (x y : Byte) (address : Word) (height : Nat) (v : FlatMemory) :
    Except Fault (Option (FlatMemory × Bool)) :=
  (v.draw x y address (min height Bus.heightLimit)).map fun drawn =>
    if height ≤ Bus.heightLimit then some drawn else none

def clear (v : FlatMemory) : FlatMemory := v.overlay 0x050 (Array.replicate 256 0)

/-! ## Key cells -/

def press (key : Nibble) (v : FlatMemory) : FlatMemory :=
  (v.put Location.flagAddress Keypad.down).put Location.keyAddress (key.setWidth 8)

def release (v : FlatMemory) : FlatMemory := v.put Location.flagAddress 0

/-- The number of the key that is down. -/
def pressed? (v : FlatMemory) : Option Byte :=
  if v.byteAt Location.flagAddress = Keypad.down then some (v.byteAt Location.keyAddress) else none

/-! ## Loading -/

def loadProgram (image : Array Byte) (v : FlatMemory) : Except Fault FlatMemory :=
  if image.size ≤ programCapacity then .ok (v.overlay Bus.programStart image)
  else .error (.imageTooLarge image.size programCapacity)

def loadGlyphs (v : FlatMemory) : FlatMemory := v.overlay 0 Glyph.rows.toArray

end FlatMemory

namespace Bus

open Location

/-! ## The view of an access -/

theorem view_read (address : Word) (b : Bus) : b.view.read address = b.read address := by
  unfold FlatMemory.read read
  split
  · rw [getElem_view]
  · rfl

theorem view_write (address : Word) (byte : Byte) (b : Bus) :
    (b.write address byte).map view = b.view.write address byte := by
  unfold FlatMemory.write write
  split
  · rw [Except.map, view_setCell]
  · rfl

theorem view_readWord (address : Word) (b : Bus) :
    b.view.readWord address = b.readWord address := by
  unfold FlatMemory.readWord readWord
  cases h : b.read address with
  | error f => simp only [view_read, h]
  | ok high => cases h' : b.read (address + 1) <;> simp only [view_read, h, h']

theorem view_storeFrom (done : Nat) (address : Word) (bytes : List Byte) (b : Bus) :
    (b.storeFrom done address bytes).toOutcome.map view = b.view.store address bytes := by
  induction bytes generalizing done address b with
  | nil => rfl
  | cons byte rest ih =>
    rw [storeFrom, FlatMemory.store, ← view_write]
    cases b.write address byte with
    | ok b' => exact ih _ _ b'
    | error f => rfl

theorem view_store (address : Word) (bytes : List Byte) (b : Bus) :
    (b.store address bytes).toOutcome.map view = b.view.store address bytes :=
  view_storeFrom 0 address bytes b

theorem view_load (b : Bus) (address : Word) (count : Nat) :
    b.view.load address count = b.load address count := by
  induction count generalizing address with
  | zero => rfl
  | succ count ih =>
    rw [FlatMemory.load, load, view_read]
    cases b.read address with
    | ok byte => simp only [ih]
    | error f => rfl

theorem view_loadAll (address : Word) (count : Nat) (b : Bus) :
    b.view.loadAll address count = b.loadAll address count := by
  unfold FlatMemory.loadAll loadAll
  cases h : (b.load address count).fault <;> simp only [view_load, h]

/-! ## The view of a drawing -/

/-- What drawing on the display does to the view of the bus. -/
def drawnView (b : Bus) (r : Display × Bool) : FlatMemory × Bool :=
  ({ b with display := r.1 }.view, r.2)

theorem view_invert (place : Fin 256) (bits : Byte) (d : Display) (b : Bus) :
    b.drawnView (d.invert place bits) = { b with display := d }.view.invert place bits := by
  have hold : { b with display := d }.view[pictureAddress place] = d.cells.byteAt place := by
    rw [Fin.getElem_fin, getElem_view]
    exact cell_pictureAddress place { b with display := d }
  unfold drawnView Display.invert FlatMemory.invert
  simp only [hold]
  rw [← view_setCell, setCell_pictureAddress]

theorem view_blitRow (x : Fin 64) (row : Fin 32) (bits : Byte) (d : Display) (b : Bus) :
    b.drawnView (d.blitRow x row bits) = { b with display := d }.view.blitRow x row bits := by
  unfold Display.blitRow FlatMemory.blitRow
  simp only
  split
  · exact view_invert _ _ d b
  · rw [← view_invert]
    simp only [drawnView]
    rw [← view_invert]
    rfl

theorem view_blitRows (x : Fin 64) (row : Fin 32) (rows : List Byte) (d : Display) (b : Bus) :
    b.drawnView (d.blitRows x row rows) = { b with display := d }.view.blitRows x row rows := by
  induction rows generalizing row d with
  | nil => rfl
  | cons bits rest ih =>
    rw [Display.blitRows_cons, FlatMemory.blitRows, ← view_blitRow]
    simp only [drawnView]
    rw [← ih]
    rfl

theorem view_blit (x y : Byte) (rows : List Byte) (b : Bus) :
    b.drawnView (b.display.blit x y rows) = b.view.blit x y rows := view_blitRows _ _ rows _ b

theorem view_draw (x y : Byte) (address : Word) (height : Nat) (b : Bus) :
    (b.draw x y address height).map (fun r => (r.1.view, r.2)) =
      b.view.draw x y address height := by
  unfold FlatMemory.draw draw
  rw [view_loadAll]
  cases b.loadAll address height with
  | error f => rfl
  | ok rows => simp only [Except.map, ← view_blit]; rfl

theorem view_drawLimited? (x y : Byte) (address : Word) (height : Nat) (b : Bus) :
    (b.drawLimited? x y address height).map (Option.map fun r => (r.1.view, r.2)) =
      b.view.drawLimited? x y address height := by
  unfold FlatMemory.drawLimited? drawLimited?
  rw [← view_draw]
  cases b.draw x y address (min height heightLimit) with
  | error f => rfl
  | ok r =>
    simp only [Except.map]
    split <;> rfl

/-! ## The view of the keypad and of loading -/

theorem view_pressed? (b : Bus) : b.view.pressed? = b.keypad.pressed? := by
  rw [keypad_eq_of_view b]
  unfold FlatMemory.pressed? Keypad.pressed? Keypad.isPressed
  simp only [beq_iff_eq]

theorem view_loadProgram_map (image : Array Byte) (b : Bus) :
    (b.loadProgram image).map view = b.view.loadProgram image := by
  cases h : b.loadProgram image with
  | ok b' =>
    rw [Except.map, view_loadProgram h]
    unfold loadProgram at h
    unfold FlatMemory.loadProgram
    split at h
    · rename_i hsize
      rw [if_pos hsize]
    · cases h
  | error f =>
    unfold loadProgram at h
    unfold FlatMemory.loadProgram
    split at h
    · cases h
    · rename_i hsize
      rw [if_neg hsize, ← Except.error.inj h]
      rfl

end Bus

end ChipEight
