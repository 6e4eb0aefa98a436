import ChipEight.Instruction.Basic
import ChipEight.Machine.Basic

/-!
# Arithmetic on registers

The instructions that combine two registers compute a result and, for sums, differences and shifts,
a flag, both from the registers as they were.  The result goes into the first register and then the
flag into register F, so that the flag wins where the two are the same register.
-/

namespace ChipEight

/-- What the first register receives if the two registers hold `a` and `b`. -/
def RegisterOp.result (op : RegisterOp) (a b : Byte) : Byte :=
  match op with
  | copy => b
  | or => a ||| b
  | and => a &&& b
  | xor => a ^^^ b
  | add => a + b
  | subtract => a - b
  | shiftRight => a >>> 1
  | subtractFrom => b - a
  | shiftLeft => a <<< 1

/-- The flag that goes with the result, for the operations that have one. -/
def RegisterOp.flag? (op : RegisterOp) (a b : Byte) : Option Bool :=
  match op with
  | copy | or | and | xor => none
  | add => some (256 ≤ a.toNat + b.toNat)
  | subtract => some (b < a)
  | shiftRight => some (a.getLsbD 0)
  | subtractFrom => some (a < b)
  | shiftLeft => some (a.getMsbD 0)

namespace Machine

/-- Combines registers `x` and `y` into register `x`. -/
def combine (op : RegisterOp) (x y : Nibble) (m : Machine) : Machine :=
  let a := m.reg x
  let b := m.reg y
  let combined := m.setReg x (op.result a b)
  match op.flag? a b with
  | none => combined
  | some flag => combined.setFlag flag

/-- A shift does not look at its second register. -/
theorem combine_shift {op : RegisterOp} (h : op = .shiftRight ∨ op = .shiftLeft)
    (x y y' : Nibble) (m : Machine) : m.combine op x y = m.combine op x y' := by
  rcases h with rfl | rfl <;> rfl

end Machine

end ChipEight
