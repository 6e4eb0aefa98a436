import ChipEight.Bits

/-!
# Instructions

What a program can ask of the machine.  Operands keep the width they have in an instruction word:
registers are nibbles, constants are bytes, jump targets are twelve-bit addresses.  The
instructions that combine two registers share the constructor `combine` and differ in its
`RegisterOp`; the instructions that may skip the next one share `skip` and differ in its `Test`.
-/

namespace ChipEight

/-- How `combine` computes the new contents of its first register. -/
inductive RegisterOp where
  /-- The second register. -/
  | copy
  /-- Bitwise or. -/
  | or
  /-- Bitwise and. -/
  | and
  /-- Bitwise exclusive or. -/
  | xor
  /-- The sum, with the carry as flag. -/
  | add
  /-- The first register less the second; the flag tells whether the first was the greater. -/
  | subtract
  /-- Half the first register, with its lowest bit as flag. -/
  | shiftRight
  /-- The second register less the first; the flag tells whether the second was the greater. -/
  | subtractFrom
  /-- Twice the first register, with its highest bit as flag. -/
  | shiftLeft
deriving Repr, DecidableEq

/-- When a `skip` passes over the next instruction. -/
inductive Test where
  /-- Register `x` holds `n`. -/
  | equalsByte (x : Nibble) (n : Byte)
  /-- Register `x` does not hold `n`. -/
  | differsByte (x : Nibble) (n : Byte)
  /-- Registers `x` and `y` hold the same byte. -/
  | equals (x y : Nibble)
  /-- Registers `x` and `y` hold different bytes. -/
  | differs (x y : Nibble)
  /-- The key whose number is in register `x` is down. -/
  | keyDown (x : Nibble)
  /-- The key whose number is in register `x` is not down. -/
  | keyUp (x : Nibble)
deriving Repr, DecidableEq

/-- An instruction of the machine. -/
inductive Instruction where
  /-- Blanks the picture. -/
  | clear
  /-- Leaves the running subroutine. -/
  | ret
  /-- Goes on at `target`. -/
  | jump (target : Address)
  /-- Goes on at `base` plus register 0. -/
  | jumpOffset (base : Address)
  /-- Runs the subroutine at `target`. -/
  | call (target : Address)
  /-- Passes over the next instruction if the test holds. -/
  | skip (test : Test)
  /-- Puts `n` into register `x`. -/
  | load (x : Nibble) (n : Byte)
  /-- Adds `n` to register `x`, without a flag. -/
  | addByte (x : Nibble) (n : Byte)
  /-- Combines registers `x` and `y` into register `x`. -/
  | combine (op : RegisterOp) (x y : Nibble)
  /-- Points the index at `target`. -/
  | point (target : Address)
  /-- Adds register `x` to the index. -/
  | advance (x : Nibble)
  /-- Puts a random byte, masked by `mask`, into register `x`. -/
  | random (x : Nibble) (mask : Byte)
  /-- Draws the sprite of `height` rows at the index, at column `x` and row `y`. -/
  | draw (x y : Nibble) (height : Nibble)
  /-- Waits for a key and puts its number into register `x`. -/
  | awaitKey (x : Nibble)
  /-- Puts the delay timer into register `x`. -/
  | readDelay (x : Nibble)
  /-- Sets the delay timer to register `x`. -/
  | setDelay (x : Nibble)
  /-- Sets the sound timer to register `x`. -/
  | setSound (x : Nibble)
  /-- Points the index at the glyph of the digit in register `x`. -/
  | pointGlyph (x : Nibble)
  /-- Stores the three decimal digits of register `x` at the index. -/
  | storeDecimal (x : Nibble)
  /-- Stores registers 0 to `x` at the index. -/
  | storeRegisters (x : Nibble)
  /-- Loads registers 0 to `x` from the index. -/
  | loadRegisters (x : Nibble)
deriving Repr, DecidableEq

end ChipEight
