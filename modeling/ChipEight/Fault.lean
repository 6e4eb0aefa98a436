import ChipEight.Bits
import ChipEight.Text.Hex
import ChipEight.Text.Decimal

/-!
# What can go wrong

A `Fault` says why an operation of the machine was refused, and `Fault.message` words it.
-/

namespace ChipEight

/-- The number of bytes from the start of a program to the end of memory. -/
def programCapacity : Nat := 3584

/-- The number of calls that can be open at once. -/
def callDepthLimit : Nat := 12

/-- Why an operation of the machine was refused. -/
inductive Fault where
  /-- A program image of `size` bytes does not fit into the `capacity` bytes that are there. -/
  | imageTooLarge (size capacity : Nat)
  /-- No memory cell, picture byte or key byte has this address. -/
  | outOfBounds (address : Word)
  /-- A call was made with `depth` calls open, just before `address`. -/
  | stackOverflow (depth : Nat) (address : Word)
  /-- A return was made with no call open. -/
  | stackUnderflow
  /-- The word is not an instruction. -/
  | unknownInstruction (word : Word)
deriving Repr, DecidableEq

namespace Fault

/-- The wording of a fault. -/
def message : Fault → String
  | imageTooLarge size capacity =>
    "ROM is too large (" ++ Decimal.text size ++ " bytes), max size is " ++ Decimal.text capacity
      ++ " bytes"
  | outOfBounds address => "Memory access out of bounds at address " ++ Hex.text 4 address.toNat
  | stackOverflow depth address =>
    "Stack overflow: call depth exceeded " ++ Decimal.text depth ++ " at address "
      ++ Hex.text 4 address.toNat
  | stackUnderflow =>
    "Stack underflow: attempted to return from a subroutine with empty call stack"
  | unknownInstruction word => "Unknown opcode: " ++ Hex.text 4 word.toNat

end Fault

end ChipEight
