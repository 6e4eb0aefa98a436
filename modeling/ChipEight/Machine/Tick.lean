import ChipEight.Instruction.Encoding
import ChipEight.Machine.Perform

/-!
# Ticks

In a tick the machine runs the instruction at the program counter and then lowers both timers.  A
tick that fails lowers neither.  `Machine.next` looks at the instruction that the coming tick will
run without running it.
-/

namespace ChipEight

namespace Machine

/-- The word at the program counter. -/
def fetch (m : Machine) : Except Fault Word := m.bus.readWord m.pc

/-- The instruction at the program counter. -/
def next (m : Machine) : Except Fault Instruction :=
  match m.fetch with
  | .ok word => Instruction.decode word
  | .error f => .error f

/-- Runs the instruction at the program counter, which first moves past it. -/
def step (noise : Byte) (m : Machine) : Outcome Machine :=
  match m.fetch with
  | .error f => .failure m f
  | .ok word =>
    let past := m.goTo (m.pc + 2)
    match Instruction.decode word with
    | .error f => .failure past f
    | .ok i => past.perform noise i

/-- A timer one tick later. -/
def lowered (timer : Byte) : Byte := if timer = 0 then 0 else timer - 1

/-- Lowers both timers. -/
def lowerTimers (m : Machine) : Machine :=
  { m with delay := lowered m.delay, sound := lowered m.sound }

/-- Runs one instruction and lowers the timers. -/
def tick (noise : Byte) (m : Machine) : Outcome Machine :=
  (m.step noise).andThen fun ran => .success ran.lowerTimers

/-- Up to `n` ticks, until one fails. -/
def ticks (noise : Byte) (n : Nat) (m : Machine) : Progress Machine := repeated (tick noise) n m

theorem toNat_lowered (timer : Byte) : (lowered timer).toNat = timer.toNat - 1 := by
  unfold lowered
  split
  · subst timer; rfl
  · rename_i h
    have hpos : timer.toNat ≠ 0 := fun e => h (BitVec.eq_of_toNat_eq e)
    have hone : (1 : Byte).toNat = 1 := rfl
    have := timer.isLt
    rw [BitVec.toNat_sub, hone]
    omega

end Machine

end ChipEight
