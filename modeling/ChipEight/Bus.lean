import ChipEight.Display.Sprite
import ChipEight.Glyph
import ChipEight.Keypad
import ChipEight.Outcome

/-!
# The bus

Programs see 4096 addresses.  Most of them are plain memory, with the glyphs at the bottom and the
program from `0x200` on; `0x050` to `0x14F` are the bytes of the picture, `0x150` is the flag of the
keypad and `0x151` its key.  `Bus.cell` is the byte at an address and `Bus.setCell` changes it,
wherever it is kept (`cell_setCell_self`).

A single access outside the 4096 addresses is refused.  A row of accesses goes through ascending
addresses and stops at the first one that is refused: `Bus.store` keeps what was stored before and
`Bus.load` what was read before.
-/

namespace ChipEight

/-- Where the byte at an address is kept. -/
inductive Location where
  /-- In plain memory. -/
  | memory
  /-- In the picture. -/
  | picture (place : Fin 256)
  /-- In the keypad, as its flag. -/
  | keyFlag
  /-- In the keypad, as the number of the key. -/
  | keyNumber
deriving Repr, DecidableEq

/-- Where the byte at address `a` is kept. -/
def Location.of (a : Fin 4096) : Location :=
  if h : 0x050 ≤ a.val ∧ a.val < 0x150 then .picture ⟨a.val - 0x050, by omega⟩
  else if a.val = 0x150 then .keyFlag
  else if a.val = 0x151 then .keyNumber
  else .memory

/-- Everything that has an address. -/
structure Bus where
  /-- Plain memory.  The cells at the addresses of the picture and the keypad are never used. -/
  memory : Bank 4096
  /-- The picture. -/
  display : Display
  /-- The keypad. -/
  keypad : Keypad
deriving Repr, DecidableEq

namespace Bus

/-- The address at which programs start. -/
def programStart : Nat := 0x200

/-- The byte at address `a`. -/
def cell (b : Bus) (a : Fin 4096) : Byte :=
  match Location.of a with
  | .memory => b.memory.byteAt a
  | .picture place => b.display.cells.byteAt place
  | .keyFlag => b.keypad.flag
  | .keyNumber => b.keypad.key

/-- Changes the byte at address `a`. -/
def setCell (a : Fin 4096) (byte : Byte) (b : Bus) : Bus :=
  match Location.of a with
  | .memory => { b with memory := b.memory.put a byte }
  | .picture place => { b with display := b.display.write place byte }
  | .keyFlag => { b with keypad := { b.keypad with flag := byte } }
  | .keyNumber => { b with keypad := { b.keypad with key := byte } }

/-- Reads the byte at an address. -/
def read (address : Word) (b : Bus) : Except Fault Byte :=
  if h : address.toNat < 4096 then .ok (b.cell ⟨address.toNat, h⟩)
  else .error (.outOfBounds address)

/-- Writes the byte at an address. -/
def write (address : Word) (byte : Byte) (b : Bus) : Except Fault Bus :=
  if h : address.toNat < 4096 then .ok (b.setCell ⟨address.toNat, h⟩ byte)
  else .error (.outOfBounds address)

/-- Reads the word at an address, high byte first. -/
def readWord (address : Word) (b : Bus) : Except Fault Word :=
  match b.read address with
  | .error f => .error f
  | .ok high =>
    match b.read (address + 1) with
    | .error f => .error f
    | .ok low => .ok (.ofBytes high low)

/-! ## Rows of accesses -/

/-- Writes bytes from an address on; `done` bytes were written before. -/
def storeFrom (done : Nat) (address : Word) : List Byte → Bus → Progress Bus
  | [], b => ⟨.success b, done⟩
  | byte :: rest, b =>
    match b.write address byte with
    | .ok b' => storeFrom (done + 1) (address + 1) rest b'
    | .error f => ⟨.failure b f, done⟩

/-- Writes bytes from an address on. -/
def store (address : Word) (bytes : List Byte) (b : Bus) : Progress Bus :=
  b.storeFrom 0 address bytes

/-- Reads `count` bytes from an address on. -/
def load (b : Bus) (address : Word) : Nat → Outcome (List Byte)
  | 0 => .success []
  | count + 1 =>
    match b.read address with
    | .ok byte => (b.load (address + 1) count).map (byte :: ·)
    | .error f => .failure [] f

/-- Reads `count` bytes from an address on, all of them or none. -/
def loadAll (address : Word) (count : Nat) (b : Bus) : Except Fault (List Byte) :=
  let o := b.load address count
  match o.fault with
  | none => .ok o.value
  | some f => .error f

/-! ## The picture -/

/-- Draws the sprite of `height` rows at an address.  All rows are read before any is drawn. -/
def draw (x y : Byte) (address : Word) (height : Nat) (b : Bus) : Except Fault (Bus × Bool) :=
  match b.loadAll address height with
  | .error f => .error f
  | .ok rows =>
    let drawn := b.display.blit x y rows
    .ok ({ b with display := drawn.1 }, drawn.2)

/-- The greatest height of a sprite that is drawn on request from outside. -/
def heightLimit : Nat := 16

/-- Draws a sprite as `draw` does, but nothing of a sprite that is taller than `heightLimit`.  Of
such a sprite the first rows are read all the same, and a row that cannot be read is what counts. -/
def drawLimited? (x y : Byte) (address : Word) (height : Nat) (b : Bus) :
    Except Fault (Option (Bus × Bool)) :=
  match b.draw x y address (min height heightLimit) with
  | .error f => .error f
  | .ok drawn => .ok (if height ≤ heightLimit then some drawn else none)

/-- Blanks the picture. -/
def clear (b : Bus) : Bus := { b with display := b.display.clear }

/-! ## The keypad -/

/-- A key goes down. -/
def press (key : Nibble) (b : Bus) : Bus := { b with keypad := b.keypad.press key }

/-- The key goes up. -/
def release (b : Bus) : Bus := { b with keypad := b.keypad.release }

/-! ## Loading -/

/-- Copies the glyphs to the bottom of memory. -/
def loadGlyphs (b : Bus) : Bus := { b with memory := b.memory.overlay 0 Glyph.rows.toArray }

/-- Copies a program to the place where programs start, if all of it fits. -/
def loadProgram (image : Array Byte) (b : Bus) : Except Fault Bus :=
  if image.size ≤ programCapacity then
    .ok { b with memory := b.memory.overlay programStart image }
  else
    .error (.imageTooLarge image.size programCapacity)

/-- A bus with the glyphs in memory, a dark picture and the given keypad. -/
def fresh (keypad : Keypad) : Bus := loadGlyphs ⟨.blank 4096, .dark, keypad⟩

/-! ## Reading back -/

theorem cell_setCell_self (a : Fin 4096) (byte : Byte) (b : Bus) :
    (b.setCell a byte).cell a = byte := by
  unfold cell setCell
  cases Location.of a <;> simp

theorem read_eq_ok (address : Word) (b : Bus) (h : address.toNat < 4096) :
    b.read address = .ok (b.cell ⟨address.toNat, h⟩) := dif_pos h

theorem read_eq_error (address : Word) (b : Bus) (h : ¬ address.toNat < 4096) :
    b.read address = .error (.outOfBounds address) := dif_neg h

theorem write_eq_ok (address : Word) (byte : Byte) (b : Bus) (h : address.toNat < 4096) :
    b.write address byte = .ok (b.setCell ⟨address.toNat, h⟩ byte) := dif_pos h

theorem write_eq_error (address : Word) (byte : Byte) (b : Bus) (h : ¬ address.toNat < 4096) :
    b.write address byte = .error (.outOfBounds address) := dif_neg h

end Bus

end ChipEight
