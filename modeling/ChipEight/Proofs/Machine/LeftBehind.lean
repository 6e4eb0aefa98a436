import ChipEight.Proofs.Machine.Faults

/-!
# What a failing tick leaves behind

1. A row that is stored past the end of memory has filled plain memory up to the end, far from the
   picture and the keypad (`store_past`).
2. A row that is loaded past the end of memory has filled the first registers with what was there
   (`loadRegisters_past`).
3. All other failing instructions have done nothing yet (`value_perform_of_fault`), and a failing
   tick lowers no timer (`failing_tick_leaves`).
-/

namespace ChipEight

namespace Instruction

variable {i : Instruction} {m : Machine} {bytes : List Byte}

theorem length_stored_le (h : i.stored? m = some bytes) : bytes.length ≤ 16 := by
  cases i with
  | storeDecimal x =>
    obtain rfl := Option.some.inj h
    exact Nat.le_add_left 3 13
  | storeRegisters x =>
    obtain rfl := Option.some.inj h
    rw [Machine.length_firstRegs]
    exact x.isLt
  | clear | ret | jump | jumpOffset | call | skip | load | addByte | combine | point | advance
  | random | draw | awaitKey | readDelay | setDelay | setSound | pointGlyph | loadRegisters =>
    cases h

theorem perform_of_stored (h : i.stored? m = some bytes) (noise : Byte) :
    m.perform noise i = m.store bytes := by
  cases i with
  | storeDecimal x | storeRegisters x =>
    obtain rfl := Option.some.inj h
    rfl
  | clear | ret | jump | jumpOffset | call | skip | load | addByte | combine | point | advance
  | random | draw | awaitKey | readDelay | setDelay | setSound | pointGlyph | loadRegisters =>
    cases h

end Instruction

namespace Machine

variable {m : Machine}

/-- From the index to the end of memory the cells hold `bytes`, and below it what they held. -/
def FillsMemory (m : Machine) (bytes : List Byte) (memory : Bank 4096) : Prop :=
  ∀ (a : Nat) (_ : a < 0x1000),
    if m.index.toNat ≤ a then bytes[a - m.index.toNat]? = some memory[a]
    else memory[a] = m.bus.memory[a]

/-- The first registers hold the bytes from the index to the end of memory, and the others what they
held. -/
def FillsRegisters (m : Machine) (registers : Bank 16) : Prop :=
  ∀ (z : Nat) (_ : z < 16), registers[z] =
    if _ : m.index.toNat + z < 0x1000 then m.bus.view[m.index.toNat + z] else m.registers[z]

/-- The machine that a failing tick of `m` leaves behind: `m` itself if there is no word at the
program counter, and else `m` past the word, with what a row has done before it was refused.  What
is at the program counter decides which of the cases it is. -/
inductive Leaves (m : Machine) : Machine → Prop where
  | fetch (hpc : 0xFFF ≤ m.pc.toNat) : m.Leaves m
  | decode {w : Word} (hw : m.AtPc w) (hnone : Instruction.ofWord? w = none) :
      m.Leaves (m.goTo (m.pc + 2))
  | nothing {w : Word} {i : Instruction} (hw : m.AtPc w) (hi : Instruction.ofWord? w = some i)
      (hstored : i.stored? m = none) (hload : ∀ x, i ≠ .loadRegisters x) :
      m.Leaves (m.goTo (m.pc + 2))
  | store {w : Word} {i : Instruction} {bytes : List Byte} {memory : Bank 4096} (hw : m.AtPc w)
      (hi : Instruction.ofWord? w = some i) (hstored : i.stored? m = some bytes)
      (hmemory : m.FillsMemory bytes memory) :
      m.Leaves ((m.goTo (m.pc + 2)).withBus { m.bus with memory })
  | load {w : Word} {x : Nibble} {registers : Bank 16} (hw : m.AtPc w)
      (hi : Instruction.ofWord? w = some (.loadRegisters x))
      (hregisters : m.FillsRegisters registers) :
      m.Leaves { m.goTo (m.pc + 2) with registers }

/-! ## Rows past the end -/

/-- A row that reaches past the end and is not longer than the register file starts far above the
picture and the keypad. -/
theorem store_past {bytes : List Byte} (hlength : bytes.length ≤ 16)
    (hpast : 0x1000 < m.index.toNat + bytes.length) :
    ∃ memory : Bank 4096,
      (m.store bytes).value = m.withBus { m.bus with memory } ∧ m.FillsMemory bytes memory := by
  have hdisplay := Bus.display_store m.index bytes m.bus (by omega)
  have hkeypad := Bus.keypad_store m.index bytes m.bus (by omega)
  refine ⟨(m.bus.store m.index bytes).value.memory, ?_, fun a ha => ?_⟩
  · have hbus : (m.bus.store m.index bytes).value =
        { m.bus with memory := (m.bus.store m.index bytes).value.memory } :=
      Bus.ext rfl hdisplay hkeypad
    exact congrArg m.withBus hbus
  · split
    · rename_i hle
      have hplain : Location.of ⟨a, ha⟩ = .memory :=
        (Location.of_eq_memory_iff ⟨a, ha⟩).2 (Or.inr (by simp only; omega))
      have hcell : (m.bus.store m.index bytes).value.view[a] =
          (m.bus.store m.index bytes).value.memory[a] := by
        rw [Bus.getElem_view, Bus.cell_of_memory hplain]
        rfl
      have hbyte : bytes[a - m.index.toNat]? = some bytes[a - m.index.toNat] :=
        List.getElem?_eq_getElem (by omega)
      rw [← hcell, Bus.view_store_eq, Bank.getElem_overlay, if_pos hle, List.getElem?_toArray,
        hbyte]
      rfl
    · exact Bus.getElem_memory_store m.index bytes m.bus a ha (by omega)

theorem loadRegisters_past {x : Nibble} (hpast : 0x1000 < m.index.toNat + (x.toNat + 1)) :
    ∃ registers : Bank 16,
      (m.loadRegisters x).value = { m with registers } ∧ m.FillsRegisters registers := by
  refine ⟨m.registers.overlay 0 (m.bus.load m.index (x.toNat + 1)).value.toArray, ?_, ?_⟩
  · unfold loadRegisters
    rw [Outcome.value_map, setFirstRegs]
  · intro z hz
    rw [Bank.getElem_overlay, if_pos (Nat.zero_le z), Nat.sub_zero, List.getElem?_toArray]
    split
    · rename_i hin
      have hread : (m.bus.load m.index (x.toNat + 1)).value[z]? =
          some m.bus.view[m.index.toNat + z] := by
        rw [Bus.value_load, List.getElem?_take, if_pos (by omega), List.getElem?_drop,
          Vector.getElem?_toList, Vector.getElem?_eq_getElem hin]
      rw [hread, Option.getD_some]
    · rename_i hout
      have hread : (m.bus.load m.index (x.toNat + 1)).value[z]? = none := by
        rw [List.getElem?_eq_none]
        rw [Bus.value_load, List.length_take, List.length_drop, Vector.length_toList]
        omega
      rw [hread, Option.getD_none]

/-! ## Failing instructions -/

variable {noise : Byte} {i : Instruction} {f : Fault}

theorem value_call_of_fault {target : Address} (h : (m.call target).fault = some f) :
    (m.call target).value = m := by
  obtain ⟨hfull, -⟩ := fault_call_eq_some_iff.1 h
  unfold call
  rw [if_neg (Nat.not_lt.2 hfull)]
  rfl

theorem value_ret_of_fault (h : m.ret.fault = some f) : m.ret.value = m := by
  obtain ⟨hclosed, -⟩ := fault_ret_eq_some_iff.1 h
  unfold ret
  rw [hclosed]
  rfl

theorem value_draw_of_fault {x y height : Nibble} (h : (m.draw x y height).fault = some f) :
    (m.draw x y height).value = m := by
  unfold draw at h ⊢
  cases hdraw : m.bus.draw (m.reg x) (m.reg y) m.index height.toNat with
  | error f' => rfl
  | ok drawn =>
    rw [hdraw] at h
    cases h

theorem value_perform_of_fault (hstored : i.stored? m = none) (hload : ∀ x, i ≠ .loadRegisters x)
    (h : (m.perform noise i).fault = some f) : (m.perform noise i).value = m := by
  cases i with
  | call target => exact value_call_of_fault h
  | ret => exact value_ret_of_fault h
  | draw x y height => exact value_draw_of_fault h
  | loadRegisters x => exact absurd rfl (hload x)
  | storeDecimal | storeRegisters => cases hstored
  | clear | jump | jumpOffset | skip | load | addByte | combine | point | advance | random
  | awaitKey | readDelay | setDelay | setSound | pointGlyph => cases h

theorem leaves_perform {w : Word} (hw : m.AtPc w) (hi : Instruction.ofWord? w = some i)
    (h : ((m.goTo (m.pc + 2)).perform noise i).fault = some f) :
    m.Leaves ((m.goTo (m.pc + 2)).perform noise i).value := by
  cases hstored : i.stored? m with
  | some bytes =>
    have hlength := Instruction.length_stored_le hstored
    -- the program counter is not stored
    have hpast : i.stored? (m.goTo (m.pc + 2)) = some bytes := hstored
    rw [Instruction.perform_of_stored hpast] at h ⊢
    obtain ⟨-, hpast, -⟩ := Bus.rowFault_eq_some_iff.1 ((Bus.fault_store_eq _ _ _).symm.trans h)
    obtain ⟨memory, hvalue, hmemory⟩ := store_past hlength hpast
    rw [hvalue]
    exact .store hw hi hstored hmemory
  | none =>
    by_cases hload : ∃ x, i = .loadRegisters x
    · obtain ⟨x, rfl⟩ := hload
      obtain ⟨-, hpast, -⟩ := Bus.rowFault_eq_some_iff.1 ((Bus.fault_load_eq _ _ _).symm.trans h)
      obtain ⟨registers, hvalue, hregisters⟩ := loadRegisters_past hpast
      rw [show ((m.goTo (m.pc + 2)).perform noise (.loadRegisters x)).value = _ from hvalue]
      exact .load hw hi hregisters
    · have hkept := fun x e => hload ⟨x, e⟩
      rw [value_perform_of_fault (m := m.goTo (m.pc + 2)) hstored hkept h]
      exact .nothing hw hi hstored hkept

/-! ## Failing ticks -/

theorem leaves_step (h : (m.step noise).fault = some f) : m.Leaves (m.step noise).value := by
  rcases step_cases_of_word noise m with ⟨hpc, hs⟩ | ⟨w, hw, hnone, hs⟩ | ⟨w, i, hw, hi, hs⟩
  · rw [hs]
    exact .fetch hpc
  · rw [hs]
    exact .decode hw hnone
  · rw [hs] at h ⊢
    exact leaves_perform hw hi h

theorem Leaves.kept {m' : Machine} (h : m.Leaves m') :
    m'.delay = m.delay ∧ m'.sound = m.sound ∧ m'.index = m.index ∧ m'.stack = m.stack ∧
      m'.bus.display = m.bus.display ∧ m'.bus.keypad = m.bus.keypad := by
  cases h <;> exact ⟨rfl, rfl, rfl, rfl, rfl, rfl⟩

/-- **What a failing tick leaves behind.**  Whatever the fault, the timers, the index, the stack,
the picture with the changes that wait to be shown, and the keypad are as they were. -/
theorem failing_tick_leaves (noise : Byte) (m : Machine) (h : (m.tick noise).fault ≠ none) :
    let m' := (m.tick noise).value
    m.Leaves m' ∧ m'.delay = m.delay ∧ m'.sound = m.sound ∧ m'.index = m.index ∧
      m'.stack = m.stack ∧ m'.bus.display = m.bus.display ∧ m'.bus.keypad = m.bus.keypad := by
  obtain ⟨f, hf⟩ := Option.ne_none_iff_exists'.1 h
  rw [fault_tick] at hf
  have hvalue : (m.tick noise).value = (m.step noise).value := by
    rcases tick_eq noise m with ⟨ht, -⟩ | ⟨-, hnone⟩
    · rw [ht]
    · rw [hnone] at hf
      cases hf
  have hleaves : m.Leaves (m.tick noise).value := hvalue ▸ leaves_step hf
  exact ⟨hleaves, hleaves.kept⟩

/-- Registers 0 to 3 do not fit into the last two cells. -/
theorem failing_tick_leaves_two_bytes :
    let m := (new.withBus ((new.bus.setCell 0x200 0xF3).setCell 0x201 0x55)).pointTo 0xFFE
    (m.tick 0).fault = some (.outOfBounds 0x1000) ∧ m.Leaves (m.tick 0).value := by
  intro m
  have hw : m.AtPc 0xF355 := by
    refine ⟨by decide, ?_⟩
    rw [Bus.getElem_view, Bus.getElem_view]
    show (0xF355 : Word) = .ofBytes
      (((new.bus.setCell 0x200 0xF3).setCell 0x201 0x55).cell 0x200)
      (((new.bus.setCell 0x200 0xF3).setCell 0x201 0x55).cell 0x201)
    rw [Bus.cell_setCell_self, Bus.cell_setCell_of_ne (by decide), Bus.cell_setCell_self]
    rfl
  have hfault : (m.tick 0).fault = some (.outOfBounds 0x1000) := by
    rw [fault_tick]
    exact step_of_fails 0 (.row (i := .storeRegisters 3) hw rfl (by decide) (by decide) rfl)
  exact ⟨hfault, (failing_tick_leaves 0 m (hfault ▸ Option.some_ne_none _)).1⟩

end Machine

end ChipEight
