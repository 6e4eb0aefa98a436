import ChipEight.Proofs.Flat.LockStep
import ChipEight.Proofs.Machine.Hidden
import ChipEight.Proofs.Repetition

/-!
# Machines up to the changes that wait to be shown

Two machines are the same up to the backlog of their displays if they are the same once both are
drained.  A machine is known up to its backlog by its flat machine and its hidden bytes
(`settled_eq_of_flat`), so ticks cannot tell such machines apart (`tick_congr`).
-/

namespace ChipEight

namespace Machine

theorem settled_settled (m : Machine) : m.settled.settled = m.settled := rfl

theorem memory_settled (m : Machine) : m.settled.bus.memory = m.bus.memory := rfl

/-- The bytes that are seen and the bytes that are not make up the bus, its backlog aside. -/
theorem settled_eq_of_flat {m m' : Machine} (hflat : m.flat = m'.flat)
    (hhidden : ∀ (i : Nat) (h : i < 4096), Location.of ⟨i, h⟩ ≠ .memory →
      m.bus.memory[i] = m'.bus.memory[i]) : m.settled = m'.settled := by
  have hview : m.bus.view = m'.bus.view := by rw [← memory_flat, ← memory_flat, hflat]
  have hcell : ∀ a, m.bus.cell a = m'.bus.cell a := by
    intro a
    have h := congrArg (fun v : FlatMemory => v[a.val]) hview
    simpa only [Bus.getElem_view] using h
  have hmemory : m.bus.memory = m'.bus.memory := by
    apply Vector.ext
    intro i hi
    by_cases ha : Location.of ⟨i, hi⟩ = .memory
    · have h := hcell ⟨i, hi⟩
      rwa [Bus.cell_of_memory ha, Bus.cell_of_memory ha] at h
    · exact hhidden i hi ha
  have hcells : m.bus.display.cells = m'.bus.display.cells := by
    apply Vector.ext
    intro i hi
    have h := hcell (Location.pictureAddress ⟨i, hi⟩)
    rwa [Bus.cell_pictureAddress, Bus.cell_pictureAddress] at h
  have hkeypad : m.bus.keypad = m'.bus.keypad := by
    rw [Bus.keypad_eq_of_view, Bus.keypad_eq_of_view, hview]
  have hbus : { m.bus with display := m.bus.display.drain.2 } =
      { m'.bus with display := m'.bus.display.drain.2 } := by
    refine Bus.ext hmemory ?_ hkeypad
    show Display.mk m.bus.display.cells .empty = Display.mk m'.bus.display.cells .empty
    rw [hcells]
  obtain ⟨bus, registers, pc, index, stack, delay, sound⟩ := m
  obtain ⟨bus', registers', pc', index', stack', delay', sound'⟩ := m'
  simp only [flat, FlatMachine.mk.injEq] at hflat
  obtain ⟨-, rfl, rfl, rfl, rfl, rfl, rfl⟩ := hflat
  rw [settled, settled, hbus]
  rfl

theorem flat_eq_of_settled {m m' : Machine} (h : m.settled = m'.settled) : m.flat = m'.flat := by
  rw [← flat_settled m, ← flat_settled m', h]

/-- What waits to be shown has no influence on a tick. -/
theorem tick_congr (noise : Byte) {m m' : Machine} (h : m.settled = m'.settled) :
    (m.tick noise).map settled = (m'.tick noise).map settled := by
  have hflat : (m.tick noise).map flat = (m'.tick noise).map flat := by
    rw [flat_tick, flat_tick, flat_eq_of_settled h]
  have hvalue : (m.tick noise).value.settled = (m'.tick noise).value.settled := by
    refine settled_eq_of_flat (Outcome.value_of_map_eq hflat) fun i hi ha => ?_
    have hkept := getElem_hidden_respond (.tick noise) m i hi ha
    have hkept' := getElem_hidden_respond (.tick noise) m' i hi ha
    have hmemory : m.bus.memory = m'.bus.memory := by
      rw [← memory_settled m, ← memory_settled m', h]
    exact hkept.trans ((congrArg (fun memory : Bank 4096 => memory[i]) hmemory).trans hkept'.symm)
  unfold Outcome.map
  rw [hvalue, Outcome.fault_of_map_eq hflat]

end Machine

end ChipEight
