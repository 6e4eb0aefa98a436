import ChipEight.Proofs.Checked.Simulation
import ChipEight.Proofs.Machine.Faults

/-!
# No program traps

Starting from a fresh machine, whatever was asked of it before and whatever faults that met, the
checked machine stands for the machine and its depth is bounded (`Stored.after_follows`).  So the
next tick and the next instruction do not trap (`Stored.never_traps`).
-/

namespace ChipEight

namespace Stored

/-- A stored machine that has run nothing yet. -/
def fresh (keypad : Keypad) : Stored where
  bus := .fresh keypad
  registers := .blank 16
  pc := BitVec.ofNat 16 Bus.programStart
  index := 0
  slots := .replicate 16 0
  depth := 0
  delay := 0
  sound := 0

/-- Carries out an operation.  Instructions are run checked; anything else that is asked from
outside does not reach the slots and is taken over. -/
def respond? (s : Stored) : Operation → Option (Outcome Stored)
  | .tick noise => s.tick? noise
  | .step noise => s.step? noise
  | .perform noise i => s.perform? noise i
  | op => some ((s.machine.respond op).toOutcome.map s.adopt)

/-- The stored machine after operations, one after the other; one that trapped would leave it as it
was. -/
def after (s : Stored) (ops : List Operation) : Stored :=
  ops.foldl (fun s op => ((s.respond? op).getD (.success s)).value) s

variable {s : Stored}

theorem respond?_follows (op : Operation) (hs : s.Bounded) :
    Follows (s.respond? op) (s.machine.respond op).toOutcome := by
  cases op with
  | tick noise => exact tick?_follows noise hs
  | step noise => exact step?_follows noise hs
  | perform noise i => exact perform?_follows noise i hs
  | load image =>
    refine follows_adopt hs ?_
    simp only [Machine.respond, Machine.loadProgram]
    cases s.machine.bus.loadProgram image <;> rfl
  | loadImage image =>
    refine follows_adopt hs ?_
    simp only [Machine.respond]
    cases s.machine.bus.loadProgram image <;> rfl
  | read address =>
    refine follows_adopt hs ?_
    simp only [Machine.respond]
    cases s.machine.bus.read address <;> rfl
  | readWord address =>
    refine follows_adopt hs ?_
    simp only [Machine.respond]
    cases s.machine.bus.readWord address <;> rfl
  | write address byte =>
    refine follows_adopt hs ?_
    simp only [Machine.respond]
    cases s.machine.bus.write address byte <;> rfl
  | draw x y address height =>
    refine follows_adopt hs ?_
    simp only [Machine.respond]
    cases s.machine.bus.drawLimited? x y address height with
    | error f => rfl
    | ok drawn => cases drawn <;> rfl
  | loadGlyphs | lowerTimers | setReg | pointTo | goTo | press | release | clear | blit | drain =>
    exact follows_adopt hs rfl

theorem after_follows (ops : List Operation) (hs : s.Bounded) :
    (s.after ops).machine = s.machine.after ops ∧ (s.after ops).Bounded := by
  induction ops generalizing s with
  | nil => exact ⟨rfl, hs⟩
  | cons op rest ih =>
    obtain ⟨o, hrun, ho, hbounded⟩ := respond?_follows op hs
    have hnext : s.after (op :: rest) = o.value.after rest := by
      unfold after
      rw [List.foldl_cons, hrun]
      rfl
    have hmachine : o.value.machine = (s.machine.respond op).value := congrArg Outcome.value ho
    rw [hnext, Machine.after_cons, ← hmachine]
    exact ih hbounded

/-- **No program traps.**  After any operations on a fresh machine, running an instruction, with or
without the timers, uses no index and computes no number out of range, does what it does on the
machine, and fails in one of four ways if it fails. -/
theorem never_traps (keypad : Keypad) (ops : List Operation) (noise : Byte) (i : Instruction) :
    let s := (fresh keypad).after ops
    s.machine = (Machine.fresh keypad).after ops ∧
      (∃ o, s.tick? noise = some o ∧ o.map machine = s.machine.tick noise ∧
        ∀ f, o.fault = some f → (∃ a, f = .outOfBounds a) ∨ (∃ a, f = .stackOverflow 12 a) ∨
          f = .stackUnderflow ∨ ∃ w, f = .unknownInstruction w) ∧
      ∃ o, s.perform? noise i = some o ∧ o.map machine = s.machine.perform noise i ∧
        ∀ f, o.fault = some f → (∃ a, f = .outOfBounds a) ∨ f = .stackOverflow 12 s.pc ∨
          f = .stackUnderflow := by
  intro s
  obtain ⟨hmachine, hbounded⟩ := after_follows ops (s := fresh keypad) (Nat.zero_le _)
  obtain ⟨o, hrun, ho, -⟩ := tick?_follows noise hbounded
  obtain ⟨o', hrun', ho', -⟩ := perform?_follows noise i hbounded
  refine ⟨hmachine, ⟨o, hrun, ho, fun f hf => ?_⟩, o', hrun', ho', fun f hf => ?_⟩
  · rw [← Outcome.fault_map machine, ho, Machine.fault_tick] at hf
    exact Machine.fault_step hf
  · rw [← Outcome.fault_map machine, ho'] at hf
    exact Machine.fault_perform hf

end Stored

end ChipEight
