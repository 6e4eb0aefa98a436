import ChipEight.Proofs.Machine.Accesses
import ChipEight.Proofs.Machine.Frame

/-!
# The faults of a running machine

1. A fetch is a row of two accesses from the program counter on (`fetch_eq_error_iff`); one that is
   not refused finds the word of the two bytes there (`fetch_eq_ok_iff`).
2. A call can overflow the stack, a return can underflow it, and a row from the index on can reach
   past the end of memory; an instruction fails in no other way (`fault_perform_eq_some_iff`).
3. So each fault of a tick has one cause, which can be read off the machine beforehand, and no
   access of a tick comes round to the bottom of memory (`tick_fails_iff`).

That a program does not fit is a fault of loading only (`fault_perform`, `fault_step`).
-/

namespace ChipEight

/-- The number of places that an instruction reaches from the index on. -/
def Instruction.reach : Instruction → Nat
  | draw _ _ height => height.toNat
  | storeDecimal _ => 3
  | storeRegisters x => x.toNat + 1
  | loadRegisters x => x.toNat + 1
  | _ => 0

namespace Machine

variable {m : Machine} {f : Fault}

/-- The two bytes at the program counter are in bounds and make up `w`, high byte first. -/
def AtPc (m : Machine) (w : Word) : Prop :=
  ∃ _ : m.pc.toNat + 1 < 0x1000, w = .ofBytes m.bus.view[m.pc.toNat] m.bus.view[m.pc.toNat + 1]

/-- The tick of `m` meets a fault.  Sums are numbers here, so they do not come round. -/
inductive Fails (m : Machine) : Fault → Prop where
  | fetch {address : Word} (hpc : 0xFFF ≤ m.pc.toNat)
      (haddress : address.toNat = max m.pc.toNat 0x1000) : m.Fails (.outOfBounds address)
  | decode {w : Word} (hw : m.AtPc w) (hnone : Instruction.ofWord? w = none) :
      m.Fails (.unknownInstruction w)
  | call {w address : Word} {target : Address} (hw : m.AtPc w)
      (hi : Instruction.ofWord? w = some (.call target)) (hfull : 12 ≤ m.stack.length)
      (haddress : address.toNat = m.pc.toNat + 2) : m.Fails (.stackOverflow 12 address)
  | ret {w : Word} (hw : m.AtPc w) (hi : Instruction.ofWord? w = some .ret)
      (hclosed : m.stack = []) : m.Fails .stackUnderflow
  | row {w address : Word} {i : Instruction} (hw : m.AtPc w) (hi : Instruction.ofWord? w = some i)
      (hreach : 1 ≤ i.reach) (hpast : 0x1000 < m.index.toNat + i.reach)
      (haddress : address.toNat = max m.index.toNat 0x1000) : m.Fails (.outOfBounds address)

/-! ## The fetch -/

theorem fetch_eq_error_iff : m.fetch = .error f ↔ Bus.rowFault m.pc 2 = some f :=
  Bus.readWord_eq_error_iff

theorem fetch_eq_ok_iff {w : Word} : m.fetch = .ok w ↔ m.AtPc w := by
  unfold fetch AtPc
  by_cases h : m.pc.toNat + 1 < 0x1000
  · rw [Bus.readWord_eq_ok h, Except.ok.injEq]
    exact ⟨fun e => ⟨h, e.symm⟩, fun ⟨_, e⟩ => e.symm⟩
  · have herror : m.bus.readWord m.pc = .error (.outOfBounds (Bus.firstRefused m.pc)) :=
      Bus.readWord_eq_error_iff.2 (Bus.rowFault_eq_some_iff.2 ⟨by omega, by omega, rfl⟩)
    rw [herror]
    exact ⟨fun e => (nomatch e), fun ⟨h', _⟩ => absurd h' h⟩

/-! ## The instruction -/

theorem fault_call_eq_some_iff {target : Address} :
    (m.call target).fault = some f ↔
      callDepthLimit ≤ m.stack.length ∧ f = .stackOverflow callDepthLimit m.pc := by
  unfold call
  split
  · rename_i hroom
    exact ⟨fun e => (nomatch e), fun h => absurd hroom (Nat.not_lt.2 h.1)⟩
  · rename_i hfull
    rw [Outcome.fault_failure, Option.some.injEq]
    exact ⟨fun e => ⟨Nat.not_lt.1 hfull, e.symm⟩, fun h => h.2.symm⟩

theorem fault_ret_eq_some_iff : m.ret.fault = some f ↔ m.stack = [] ∧ f = .stackUnderflow := by
  unfold ret
  cases m.stack with
  | nil =>
    rw [Outcome.fault_failure, Option.some.injEq]
    exact ⟨fun e => ⟨rfl, e.symm⟩, fun h => h.2.symm⟩
  | cons caller older => exact ⟨fun e => (nomatch e), fun h => (nomatch h.1)⟩

theorem fault_draw_eq (x y height : Nibble) (m : Machine) :
    (m.draw x y height).fault = Bus.rowFault m.index height.toNat := by
  unfold draw
  cases hdraw : m.bus.draw (m.reg x) (m.reg y) m.index height.toNat with
  | error f => exact (Bus.draw_eq_error_iff.1 hdraw).symm
  | ok drawn =>
    cases hrow : Bus.rowFault m.index height.toNat with
    | none => rfl
    | some f =>
      rw [Bus.draw_eq_error_iff.2 hrow] at hdraw
      cases hdraw

/-- An instruction that reaches nothing reaches no place out of bounds. -/
theorem fault_perform_of_reach (noise : Byte) (m : Machine) {i : Instruction}
    (hcall : ∀ target, i ≠ .call target) (hret : i ≠ .ret) :
    (m.perform noise i).fault = Bus.rowFault m.index i.reach := by
  cases i with
  | call target => exact absurd rfl (hcall target)
  | ret => exact absurd rfl hret
  | draw x y height => exact fault_draw_eq x y height m
  | storeDecimal x => exact Bus.fault_store_eq m.index (m.reg x).decimalDigits m.bus
  | storeRegisters x =>
    have hstored := Bus.fault_store_eq m.index (m.firstRegs x) m.bus
    rwa [length_firstRegs] at hstored
  | loadRegisters x => exact Bus.fault_load_eq m.bus m.index (x.toNat + 1)
  | clear | jump | jumpOffset | skip | load | addByte | combine | point | advance | random
  | awaitKey | readDelay | setDelay | setSound | pointGlyph =>
    exact (Bus.rowFault_zero m.index).symm

theorem fault_perform_eq_some_iff {noise : Byte} {i : Instruction} :
    (m.perform noise i).fault = some f ↔
      (∃ target, i = .call target ∧ callDepthLimit ≤ m.stack.length ∧
        f = .stackOverflow callDepthLimit m.pc) ∨
      (i = .ret ∧ m.stack = [] ∧ f = .stackUnderflow) ∨
      (1 ≤ i.reach ∧ 0x1000 < m.index.toNat + i.reach ∧
        f = .outOfBounds (Bus.firstRefused m.index)) := by
  constructor
  · intro h
    by_cases hcall : ∃ target, i = .call target
    · obtain ⟨target, rfl⟩ := hcall
      exact Or.inl ⟨target, rfl, fault_call_eq_some_iff.1 h⟩
    by_cases hret : i = .ret
    · subst hret
      exact Or.inr (Or.inl ⟨rfl, fault_ret_eq_some_iff.1 h⟩)
    · rw [fault_perform_of_reach noise m (fun target e => hcall ⟨target, e⟩) hret] at h
      exact Or.inr (Or.inr (Bus.rowFault_eq_some_iff.1 h))
  · rintro (⟨target, rfl, h⟩ | ⟨rfl, h⟩ | h)
    · exact fault_call_eq_some_iff.2 h
    · exact fault_ret_eq_some_iff.2 h
    · -- calls and returns reach nothing
      have hcall : ∀ target, i ≠ .call target := by
        rintro target rfl
        exact absurd h.1 (Nat.not_succ_le_zero 0)
      have hret : i ≠ .ret := by
        rintro rfl
        exact absurd h.1 (Nat.not_succ_le_zero 0)
      rw [fault_perform_of_reach noise m hcall hret]
      exact Bus.rowFault_eq_some_iff.2 h

/-! ## The step -/

section Step

variable {w : Word} (noise : Byte)

theorem step_of_fetch_error (h : m.fetch = .error f) : m.step noise = .failure m f := by
  unfold step
  rw [h]

theorem step_of_no_instruction (hw : m.AtPc w) (hnone : Instruction.ofWord? w = none) :
    m.step noise = .failure (m.goTo (m.pc + 2)) (.unknownInstruction w) := by
  unfold step
  rw [fetch_eq_ok_iff.2 hw]
  simp only [(Instruction.decode_eq_error_iff w _).2 ⟨hnone, rfl⟩]

theorem step_of_instruction {i : Instruction} (hw : m.AtPc w)
    (hi : Instruction.ofWord? w = some i) :
    m.step noise = (m.goTo (m.pc + 2)).perform noise i := by
  unfold step
  rw [fetch_eq_ok_iff.2 hw]
  simp only [(Instruction.decode_eq_ok_iff w i).2 hi]

/-- The three ways of a step, told by the word at the program counter. -/
theorem step_cases_of_word (m : Machine) :
    (0xFFF ≤ m.pc.toNat ∧ m.step noise = .failure m (.outOfBounds (Bus.firstRefused m.pc))) ∨
      (∃ w, m.AtPc w ∧ Instruction.ofWord? w = none ∧
        m.step noise = .failure (m.goTo (m.pc + 2)) (.unknownInstruction w)) ∨
      ∃ w i, m.AtPc w ∧ Instruction.ofWord? w = some i ∧
        m.step noise = (m.goTo (m.pc + 2)).perform noise i := by
  cases hfetch : m.fetch with
  | error f =>
    obtain ⟨-, hpast, rfl⟩ := Bus.rowFault_eq_some_iff.1 (fetch_eq_error_iff.1 hfetch)
    exact Or.inl ⟨by omega, step_of_fetch_error noise hfetch⟩
  | ok w =>
    have hw := fetch_eq_ok_iff.1 hfetch
    cases hi : Instruction.ofWord? w with
    | none => exact Or.inr (Or.inl ⟨w, hw, hi, step_of_no_instruction noise hw hi⟩)
    | some i => exact Or.inr (Or.inr ⟨w, i, hw, hi, step_of_instruction noise hw hi⟩)

end Step

/-- Past a word that was fetched the counter has not come round. -/
theorem toNat_past {w : Word} (hw : m.AtPc w) : (m.pc + 2).toNat = m.pc.toNat + 2 := by
  obtain ⟨hpc, -⟩ := hw
  rw [BitVec.toNat_add]
  show (m.pc.toNat + 2) % 2 ^ 16 = _
  omega

theorem eq_firstRefused {address base : Word} (h : address.toNat = max base.toNat 0x1000) :
    address = Bus.firstRefused base :=
  BitVec.eq_of_toNat_eq (h.trans (Bus.toNat_firstRefused base).symm)

theorem fails_of_step {noise : Byte} (h : (m.step noise).fault = some f) : m.Fails f := by
  rcases step_cases_of_word noise m with ⟨hpc, hs⟩ | ⟨w, hw, hnone, hs⟩ | ⟨w, i, hw, hi, hs⟩
  · rw [hs] at h
    obtain rfl := Option.some.inj h
    exact .fetch hpc (Bus.toNat_firstRefused m.pc)
  · rw [hs] at h
    obtain rfl := Option.some.inj h
    exact .decode hw hnone
  · rw [hs] at h
    rcases fault_perform_eq_some_iff.1 h with ⟨target, rfl, hfull, rfl⟩ | ⟨rfl, hclosed, rfl⟩ |
      ⟨hreach, hpast, rfl⟩
    · exact .call hw hi hfull (toNat_past hw)
    · exact .ret hw hi hclosed
    · exact .row hw hi hreach hpast (Bus.toNat_firstRefused m.index)

theorem step_of_fails (noise : Byte) (h : m.Fails f) : (m.step noise).fault = some f := by
  cases h with
  | fetch hpc haddress =>
    obtain rfl := eq_firstRefused haddress
    have hrow : Bus.rowFault m.pc 2 = some (.outOfBounds (Bus.firstRefused m.pc)) :=
      Bus.rowFault_eq_some_iff.2 ⟨by omega, by omega, rfl⟩
    rw [step_of_fetch_error noise (fetch_eq_error_iff.2 hrow)]
    rfl
  | decode hw hnone =>
    rw [step_of_no_instruction noise hw hnone]
    rfl
  | @call w address target hw hi hfull haddress =>
    obtain rfl := BitVec.eq_of_toNat_eq (haddress.trans (toNat_past hw).symm)
    rw [step_of_instruction noise hw hi]
    exact fault_perform_eq_some_iff.2 (Or.inl ⟨target, rfl, hfull, rfl⟩)
  | ret hw hi hclosed =>
    rw [step_of_instruction noise hw hi]
    exact fault_perform_eq_some_iff.2 (Or.inr (Or.inl ⟨rfl, hclosed, rfl⟩))
  | row hw hi hreach hpast haddress =>
    obtain rfl := eq_firstRefused haddress
    rw [step_of_instruction noise hw hi]
    exact fault_perform_eq_some_iff.2 (Or.inr (Or.inr ⟨hreach, hpast, rfl⟩))

/-- **Failing ticks.**  A tick meets a fault exactly if the machine shows its cause beforehand, and
else it succeeds.  No access of a tick, the refused one included, comes round to the bottom of
memory. -/
theorem tick_fails_iff (noise : Byte) (m : Machine) :
    (∀ f, (m.tick noise).fault = some f ↔ m.Fails f) ∧
      ((m.tick noise).fault = none ↔ ∀ f, ¬ m.Fails f) ∧
      (m.tracedTick noise).result = m.tick noise ∧
      ∀ a ∈ (m.tracedTick noise).accesses, ¬ a.Wraps := by
  have hfault : ∀ f, (m.tick noise).fault = some f ↔ m.Fails f := by
    intro f
    rw [fault_tick]
    exact ⟨fails_of_step, step_of_fails noise⟩
  refine ⟨hfault, ?_, result_tracedTick noise m, straight_tracedTick noise m⟩
  rw [Option.eq_none_iff_forall_ne_some]
  exact forall_congr' fun f => not_congr (hfault f)

/-! ## Kinds of faults -/

theorem fault_perform {noise : Byte} {i : Instruction} (h : (m.perform noise i).fault = some f) :
    (∃ a, f = .outOfBounds a) ∨ f = .stackOverflow 12 m.pc ∨ f = .stackUnderflow := by
  rcases fault_perform_eq_some_iff.1 h with ⟨-, -, -, hf⟩ | ⟨-, -, hf⟩ | ⟨-, -, hf⟩
  · exact Or.inr (Or.inl hf)
  · exact Or.inr (Or.inr hf)
  · exact Or.inl ⟨_, hf⟩

theorem fault_step {noise : Byte} (h : (m.step noise).fault = some f) :
    (∃ a, f = .outOfBounds a) ∨ (∃ a, f = .stackOverflow 12 a) ∨ f = .stackUnderflow ∨
      ∃ w, f = .unknownInstruction w := by
  cases fails_of_step h with
  | fetch | row => exact Or.inl ⟨_, rfl⟩
  | call => exact Or.inr (Or.inl ⟨_, rfl⟩)
  | ret => exact Or.inr (Or.inr (Or.inl rfl))
  | decode => exact Or.inr (Or.inr (Or.inr ⟨_, rfl⟩))

end Machine

end ChipEight
