import ChipEight.Instruction.Encoding
import ChipEight.Proofs.Checked.Basic

/-!
# Checked encoding

The word of an instruction, put together by shifts.  A shift is checked not to be by the width or
more; families and last nibbles are numbers here, checked to fit into four bits.  Nothing traps, and
the fields do not overlap (`encode?_eq`).
-/

namespace ChipEight.Checked

/-- The word with these nibbles, most significant first. -/
def join? (a b c d : Nibble) : Option Word := do
  return (← shiftLeft? (a.setWidth 16) 12) ||| (← shiftLeft? (b.setWidth 16) 8) |||
    (← shiftLeft? (c.setWidth 16) 4) ||| d.setWidth 16

/-- The word of an instruction in `family` on two registers. -/
def registersWord? (family : Nat) (x y : Nibble) (last : Nat) : Option Word := do
  join? (← Nibble.ofNat? family) x y (← Nibble.ofNat? last)

/-- The word of an instruction in `family` on one register, told apart from others by `low`. -/
def serviceWord? (family : Nat) (x : Nibble) (low : Byte) : Option Word := do
  join? (← Nibble.ofNat? family) x (Byte.lowNibble (← shiftRight? low 4)) low.lowNibble

/-- The word of an instruction in `family` with a register and a constant. -/
def constantWord? (family : Word) (x : Nibble) (n : Byte) : Option Word := do
  return (← shiftLeft? family 12) ||| (← shiftLeft? (x.setWidth 16) 8) ||| n.setWidth 16

/-- The word of an instruction in `family` with an address. -/
def addressWord? (family : Word) (target : Address) : Option Word := do
  return (← shiftLeft? family 12) ||| target.toWord

/-- The instruction word. -/
def encode? : Instruction → Option Word
  | .clear => some 0x00E0
  | .ret => some 0x00EE
  | .jump target => addressWord? 0x1 target
  | .call target => addressWord? 0x2 target
  | .skip (.equalsByte x n) => constantWord? 0x3 x n
  | .skip (.differsByte x n) => constantWord? 0x4 x n
  | .skip (.equals x y) => registersWord? 0x5 x y 0x0
  | .load x n => constantWord? 0x6 x n
  | .addByte x n => constantWord? 0x7 x n
  | .combine op x y => registersWord? 0x8 x y op.selector.toNat
  | .skip (.differs x y) => registersWord? 0x9 x y 0x0
  | .point target => addressWord? 0xA target
  | .jumpOffset base => addressWord? 0xB base
  | .random x mask => constantWord? 0xC x mask
  | .draw x y height => registersWord? 0xD x y height.toNat
  | .skip (.keyDown x) => serviceWord? 0xE x 0x9E
  | .skip (.keyUp x) => serviceWord? 0xE x 0xA1
  | .readDelay x => serviceWord? 0xF x 0x07
  | .awaitKey x => serviceWord? 0xF x 0x0A
  | .setDelay x => serviceWord? 0xF x 0x15
  | .setSound x => serviceWord? 0xF x 0x18
  | .advance x => serviceWord? 0xF x 0x1E
  | .pointGlyph x => serviceWord? 0xF x 0x29
  | .storeDecimal x => serviceWord? 0xF x 0x33
  | .storeRegisters x => serviceWord? 0xF x 0x55
  | .loadRegisters x => serviceWord? 0xF x 0x65

/-! ## Fields that are joined do not overlap -/

theorem ofNat?_toNat (x : Nibble) : Nibble.ofNat? x.toNat = some x := by
  unfold Nibble.ofNat?
  rw [dif_pos x.isLt]
  exact congrArg some (BitVec.eq_of_toNat_eq rfl)

theorem join?_eq (a b c d : Nibble) : join? a b c d = some (.ofNibbles a b c d) := by
  have hjoined : (a ++ b ++ c ++ d).setWidth 16 =
      a.setWidth 16 <<< 12 ||| b.setWidth 16 <<< 8 ||| c.setWidth 16 <<< 4 ||| d.setWidth 16 :=
    BitVec.setWidth_append_append_append_eq_shiftLeft_setWidth_or
  rw [BitVec.setWidth_eq] at hjoined
  exact congrArg some hjoined.symm

theorem registersWord?_eq (family x y last : Nibble) :
    registersWord? family.toNat x y last.toNat = some (.ofNibbles family x y last) := by
  unfold registersWord?
  rw [ofNat?_toNat, ofNat?_toNat]
  exact join?_eq family x y last

theorem constantWord?_eq (family x : Nibble) (n : Byte) :
    constantWord? (family.setWidth 16) x n = some (Instruction.constantWord family x n) := by
  have hjoined : (family ++ x ++ n).setWidth 16 =
      family.setWidth 16 <<< 12 ||| x.setWidth 16 <<< 8 ||| n.setWidth 16 :=
    BitVec.setWidth_append_append_eq_shiftLeft_setWidth_or
  rw [BitVec.setWidth_eq] at hjoined
  exact congrArg some hjoined.symm

theorem addressWord?_eq (family : Nibble) (target : Address) :
    addressWord? (family.setWidth 16) target = some (Instruction.addressWord family target) := by
  have hjoined : (family ++ target).setWidth 16 =
      family.setWidth 16 <<< 12 ||| target.setWidth 16 :=
    BitVec.setWidth_append_eq_shiftLeft_setWidth_or
  rw [BitVec.setWidth_eq] at hjoined
  exact congrArg some hjoined.symm

/-- The two nibbles of the low byte side by side are the low byte. -/
theorem serviceWord?_eq (family x : Nibble) (low : Byte) :
    serviceWord? family.toNat x low = some (Instruction.constantWord family x low) := by
  have hlow : (Byte.lowNibble (low >>> 4) ++ low.lowNibble : Byte) = low := by
    unfold Byte.lowNibble
    rw [BitVec.setWidth_ushiftRight_eq_extractLsb, BitVec.setWidth_eq_extractLsb' (by decide)]
    exact BitVec.extractLsb'_append_extractLsb'
  have hword : Word.ofNibbles family x (Byte.lowNibble (low >>> 4)) low.lowNibble =
      Instruction.constantWord family x low := by
    unfold Instruction.constantWord
    conv => rhs; rw [← hlow]
    exact BitVec.append_assoc.trans (BitVec.cast_eq _ _)
  unfold serviceWord?
  simp only [ofNat?_toNat, shiftRight?_eq_some low (show 4 < 8 by decide), Option.bind_eq_bind,
    Option.bind_some]
  rw [join?_eq, hword]

/-- **Encoding does not trap.** -/
theorem encode?_eq (i : Instruction) : encode? i = some i.encode := by
  cases i with
  | clear | ret => rfl
  | jump target => exact addressWord?_eq 0x1 target
  | call target => exact addressWord?_eq 0x2 target
  | skip test =>
    cases test with
    | equalsByte x n => exact constantWord?_eq 0x3 x n
    | differsByte x n => exact constantWord?_eq 0x4 x n
    | equals x y => exact registersWord?_eq 0x5 x y 0x0
    | differs x y => exact registersWord?_eq 0x9 x y 0x0
    | keyDown x => exact serviceWord?_eq 0xE x 0x9E
    | keyUp x => exact serviceWord?_eq 0xE x 0xA1
  | load x n => exact constantWord?_eq 0x6 x n
  | addByte x n => exact constantWord?_eq 0x7 x n
  | combine op x y => exact registersWord?_eq 0x8 x y op.selector
  | point target => exact addressWord?_eq 0xA target
  | jumpOffset base => exact addressWord?_eq 0xB base
  | random x mask => exact constantWord?_eq 0xC x mask
  | draw x y height => exact registersWord?_eq 0xD x y height
  | readDelay x => exact serviceWord?_eq 0xF x 0x07
  | awaitKey x => exact serviceWord?_eq 0xF x 0x0A
  | setDelay x => exact serviceWord?_eq 0xF x 0x15
  | setSound x => exact serviceWord?_eq 0xF x 0x18
  | advance x => exact serviceWord?_eq 0xF x 0x1E
  | pointGlyph x => exact serviceWord?_eq 0xF x 0x29
  | storeDecimal x => exact serviceWord?_eq 0xF x 0x33
  | storeRegisters x => exact serviceWord?_eq 0xF x 0x55
  | loadRegisters x => exact serviceWord?_eq 0xF x 0x65

end ChipEight.Checked
