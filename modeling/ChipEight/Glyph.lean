import ChipEight.Bank

/-!
# Glyphs of the hexadecimal digits

Each of the sixteen digits has a glyph of five rows, four pixels wide.  The glyphs stand one after
the other, so the glyph of digit `d` starts `5 * d` bytes after the first one.
-/

namespace ChipEight.Glyph

/-- The number of rows of a glyph. -/
def height : Nat := 5

/-- The rows of all glyphs, from digit 0 to digit F. -/
def rows : Bank 80 := #v[
  0xF0, 0x90, 0x90, 0x90, 0xF0,
  0x20, 0x60, 0x20, 0x20, 0x70,
  0xF0, 0x10, 0xF0, 0x80, 0xF0,
  0xF0, 0x10, 0xF0, 0x10, 0xF0,
  0x90, 0x90, 0xF0, 0x10, 0x10,
  0xF0, 0x80, 0xF0, 0x10, 0xF0,
  0xF0, 0x80, 0xF0, 0x90, 0xF0,
  0xF0, 0x10, 0x20, 0x40, 0x40,
  0xF0, 0x90, 0xF0, 0x90, 0xF0,
  0xF0, 0x90, 0xF0, 0x10, 0xF0,
  0xF0, 0x90, 0xF0, 0x90, 0x90,
  0xE0, 0x90, 0xE0, 0x90, 0xE0,
  0xF0, 0x80, 0x80, 0x80, 0xF0,
  0xE0, 0x90, 0x90, 0x90, 0xE0,
  0xF0, 0x80, 0xF0, 0x80, 0xF0,
  0xF0, 0x80, 0xF0, 0x80, 0x80]

/-- The address of the glyph of the digit in the low four bits of a byte. -/
def address (digit : Byte) : Word := BitVec.ofNat 16 (digit.lowNibble.toNat * height)

theorem toNat_address (digit : Byte) : (address digit).toNat = digit.toNat % 16 * 5 := by
  simp only [address, Byte.lowNibble, height, BitVec.toNat_ofNat, BitVec.toNat_setWidth]
  omega

end ChipEight.Glyph
