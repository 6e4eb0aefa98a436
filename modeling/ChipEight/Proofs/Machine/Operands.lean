import ChipEight.Proofs.Machine.WriteSet

/-!
# Operands

What instructions that combine two registers compute, said with numbers.

1. `RegisterOp.number` is the result and `RegisterOp.flagNumber` the flag that goes with it, both
   made from the numbers in the two registers (`toNat_result`, `map_toNat_flag?`).
2. The registers are read before one is written, so it does not matter which of the two registers
   and register F are the same (`reg_combine_of_some`, `reg_combine_of_none`).
-/

namespace ChipEight

namespace RegisterOp

/-- The number that an operation makes of the numbers in its registers. -/
def number (op : RegisterOp) (a b : Nat) : Nat :=
  match op with
  | copy => b
  | or => a ||| b
  | and => a &&& b
  | xor => a ^^^ b
  | add => (a + b) % 256
  | subtract => (a + 256 - b) % 256
  | shiftRight => a / 2
  | subtractFrom => (b + 256 - a) % 256
  | shiftLeft => 2 * a % 256

/-- The flag that an operation makes of the numbers in its registers: the carry of a sum, whether a
difference is positive, or the bit that a shift drops. -/
def flagNumber (op : RegisterOp) (a b : Nat) : Option Nat :=
  match op with
  | copy | or | and | xor => none
  | add => some ((a + b) / 256)
  | subtract => some (if b < a then 1 else 0)
  | shiftRight => some (a % 2)
  | subtractFrom => some (if a < b then 1 else 0)
  | shiftLeft => some (a / 128)

theorem toNat_result (op : RegisterOp) (a b : Byte) :
    (op.result a b).toNat = op.number a.toNat b.toNat := by
  have ha := a.isLt
  have hb := b.isLt
  cases op with
  | copy => rfl
  | or => exact BitVec.toNat_or a b
  | and => exact BitVec.toNat_and a b
  | xor => exact BitVec.toNat_xor a b
  | add => exact BitVec.toNat_add a b
  | subtract =>
    rw [result, number, BitVec.toNat_sub]
    omega
  | subtractFrom =>
    rw [result, number, BitVec.toNat_sub]
    omega
  | shiftRight =>
    rw [result, number, BitVec.toNat_ushiftRight, Nat.shiftRight_eq_div_pow]
  | shiftLeft =>
    rw [result, number, BitVec.toNat_shiftLeft, Nat.shiftLeft_eq, Nat.mul_comm]

theorem toNat_decide (P : Prop) [Decidable P] : (decide P).toNat = if P then 1 else 0 := by
  by_cases h : P
  · rw [decide_eq_true h, if_pos h]
    rfl
  · rw [decide_eq_false h, if_neg h]
    rfl

theorem map_toNat_flag? (op : RegisterOp) (a b : Byte) :
    (op.flag? a b).map Bool.toNat = op.flagNumber a.toNat b.toNat := by
  have ha := a.isLt
  have hb := b.isLt
  cases op with
  | copy | or | and | xor => rfl
  | add =>
    refine congrArg some ((toNat_decide (256 ≤ a.toNat + b.toNat)).trans ?_)
    split <;> omega
  | subtract => exact congrArg some (toNat_decide (b < a))
  | subtractFrom => exact congrArg some (toNat_decide (a < b))
  | shiftRight =>
    refine congrArg some ?_
    rw [← BitVec.testBit_toNat, Nat.testBit_zero, toNat_decide]
    split <;> omega
  | shiftLeft =>
    refine congrArg some ?_
    rw [← BitVec.msb_eq_getMsbD_zero, BitVec.msb_eq_decide, toNat_decide]
    split <;> omega

end RegisterOp

namespace Machine

section Combine

variable {op : RegisterOp} {x y : Nibble} {m : Machine}

/-- The flag is written last. -/
theorem reg_combine_of_some {flag : Bool} (h : op.flag? (m.reg x) (m.reg y) = some flag)
    (z : Nibble) :
    (m.combine op x y).reg z =
      if z = flagRegister then (if flag then 1 else 0)
      else if z = x then op.result (m.reg x) (m.reg y) else m.reg z := by
  unfold combine
  simp only [h]
  rw [setFlag, reg_setReg, reg_setReg]

theorem reg_combine_of_none (h : op.flag? (m.reg x) (m.reg y) = none) (z : Nibble) :
    (m.combine op x y).reg z =
      if z = x then op.result (m.reg x) (m.reg y) else m.reg z := by
  unfold combine
  simp only [h]
  exact reg_setReg ..

variable (op x y m)

theorem registers_combine_of_some {flag : Nat}
    (h : op.flagNumber (m.reg x).toNat (m.reg y).toNat = some flag) :
    ((m.combine op x y).reg flagRegister).toNat = flag ∧
      (x ≠ flagRegister →
        ((m.combine op x y).reg x).toNat = op.number (m.reg x).toNat (m.reg y).toNat) ∧
      ∀ z, z ≠ x → z ≠ flagRegister → (m.combine op x y).reg z = m.reg z := by
  rw [← op.map_toNat_flag?, Option.map_eq_some_iff] at h
  obtain ⟨bit, hbit, rfl⟩ := h
  have hreg := reg_combine_of_some hbit
  refine ⟨?_, ?_, ?_⟩
  · rw [hreg, if_pos rfl]
    cases bit <;> rfl
  · intro hx
    rw [hreg, if_neg hx, if_pos rfl, op.toNat_result]
  · intro z hz hf
    rw [hreg, if_neg hf, if_neg hz]

theorem registers_combine_of_none
    (h : op.flagNumber (m.reg x).toNat (m.reg y).toNat = none) :
    ((m.combine op x y).reg x).toNat = op.number (m.reg x).toNat (m.reg y).toNat ∧
      ∀ z, z ≠ x → (m.combine op x y).reg z = m.reg z := by
  rw [← op.map_toNat_flag?, Option.map_eq_none_iff] at h
  have hreg := reg_combine_of_none h
  constructor
  · rw [hreg, if_pos rfl, op.toNat_result]
  · intro z hz
    rw [hreg, if_neg hz]

end Combine

/-- **Operands as they were.**  An instruction that combines two registers always succeeds and
changes nothing but registers.  An operation with a flag puts it into register F and its result into
the first register unless that is register F too; one without a flag writes its first register only.
Result and flag come from what the two registers held before, and shifts do not look at the second.
-/
theorem operands_as_they_were (noise : Byte) (op : RegisterOp) (x y : Nibble) (m : Machine) :
    let o := m.perform noise (.combine op x y)
    let a := (m.reg x).toNat
    let b := (m.reg y).toNat
    o.fault = none ∧
      (match op.flagNumber a b with
        | some flag =>
          (o.value.reg flagRegister).toNat = flag ∧
            (x ≠ flagRegister → (o.value.reg x).toNat = op.number a b) ∧
            ∀ z, z ≠ x → z ≠ flagRegister → o.value.reg z = m.reg z
        | none =>
          (o.value.reg x).toNat = op.number a b ∧ ∀ z, z ≠ x → o.value.reg z = m.reg z) ∧
      (∀ p : Part, (∀ z, p ≠ .register z) → p.Agree m o.value) ∧
      (op = .shiftRight ∨ op = .shiftLeft →
        ∀ y', m.perform noise (.combine op x y') = o) := by
  refine ⟨rfl, ?_, ?_, ?_⟩
  · cases hflag : op.flagNumber (m.reg x).toNat (m.reg y).toNat with
    | some flag => exact registers_combine_of_some op x y m hflag
    | none => exact registers_combine_of_none op x y m hflag
  · intro p hp
    rcases combine_confined m p op x y with (hx | ⟨-, hf⟩) | hkept
    · exact absurd hx (hp x)
    · exact absurd hf (hp flagRegister)
    · exact hkept
  · intro hshift y'
    exact congrArg Outcome.success (m.combine_shift hshift x y' y)

end Machine

end ChipEight
