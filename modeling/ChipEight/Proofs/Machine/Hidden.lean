import ChipEight.Proofs.Bus.View
import ChipEight.Proofs.Machine.Frame

/-!
# Hidden memory

The cells of plain memory at the addresses of the picture and the keypad are reached by no access.
A `Filling` puts bytes there, and every operation of the bus and of the machine commutes with it
(`Machine.respond_fill`): hidden bytes are neither read nor written, and all that can be observed,
the changes waiting to be shown included, is the same whatever they are.
-/

namespace ChipEight

/-- A change of plain memory that overwrites the hidden cells and keeps the others. -/
structure Filling where
  fill : Bank 4096 → Bank 4096
  getElem_fill : ∀ memory i (h : i < 4096), Location.of ⟨i, h⟩ = .memory →
    (fill memory)[i] = memory[i]
  fill_hidden : ∀ memory memory' i (h : i < 4096), Location.of ⟨i, h⟩ ≠ .memory →
    (fill memory)[i] = (fill memory')[i]

/-- Takes the hidden cells from a bank. -/
def Filling.ofBank (hidden : Bank 4096) : Filling where
  fill memory := Vector.ofFn fun a =>
    if Location.of a = .memory then memory.byteAt a else hidden.byteAt a
  getElem_fill memory i h ha := by rw [Vector.getElem_ofFn, if_pos ha]; rfl
  fill_hidden memory memory' i h ha := by
    rw [Vector.getElem_ofFn, Vector.getElem_ofFn, if_neg ha, if_neg ha]

namespace Filling

theorem getElem_ofBank_hidden (hidden memory : Bank 4096) (i : Nat) (h : i < 4096)
    (hi : Location.of ⟨i, h⟩ ≠ .memory) : ((ofBank hidden).fill memory)[i] = hidden[i] := by
  show (Vector.ofFn _)[i] = _
  rw [Vector.getElem_ofFn, if_neg hi]
  rfl

variable (f : Filling)

theorem fill_set (a : Fin 4096) (byte : Byte) (memory : Bank 4096) (ha : Location.of a = .memory) :
    f.fill (memory.set a byte a.isLt) = (f.fill memory).set a byte a.isLt := by
  apply Vector.ext
  intro i hi
  by_cases hai : a.val = i
  · have hi' : Location.of ⟨i, hi⟩ = .memory := by rw [← ha]; congr 1; exact Fin.ext hai.symm
    rw [f.getElem_fill _ i hi hi', Vector.getElem_set, Vector.getElem_set, if_pos hai, if_pos hai]
  · rw [Vector.getElem_set, if_neg hai]
    by_cases hi' : Location.of ⟨i, hi⟩ = .memory
    · rw [f.getElem_fill _ i hi hi', f.getElem_fill _ i hi hi', Vector.getElem_set, if_neg hai]
    · exact f.fill_hidden _ _ i hi hi'

/-- A block that meets neither the picture nor the keypad covers no hidden cell. -/
theorem fill_overlay (start : Nat) (bytes : Array Byte) (memory : Bank 4096)
    (h : start + bytes.size ≤ 0x050 ∨ 0x152 ≤ start) :
    f.fill (memory.overlay start bytes) = (f.fill memory).overlay start bytes := by
  apply Vector.ext
  intro i hi
  rw [Bank.getElem_overlay]
  by_cases hi' : Location.of ⟨i, hi⟩ = .memory
  · rw [f.getElem_fill _ i hi hi', f.getElem_fill _ i hi hi', Bank.getElem_overlay]
  · have hout : ¬ (start ≤ i ∧ i < start + bytes.size) := by
      rw [Location.of_eq_memory_iff] at hi'
      simp only at hi'
      omega
    rw [f.fill_hidden _ memory i hi hi']
    split
    · rw [Array.getElem?_eq_none (by omega), Option.getD_none]
    · rfl

end Filling

namespace Bus

variable (f : Filling)

/-- The bus with the hidden cells overwritten. -/
def fill (b : Bus) : Bus := { b with memory := f.fill b.memory }

@[simp] theorem memory_fill (b : Bus) : (b.fill f).memory = f.fill b.memory := rfl
@[simp] theorem display_fill (b : Bus) : (b.fill f).display = b.display := rfl
@[simp] theorem keypad_fill (b : Bus) : (b.fill f).keypad = b.keypad := rfl

theorem cell_fill (a : Fin 4096) (b : Bus) : (b.fill f).cell a = b.cell a := by
  unfold cell
  cases ha : Location.of a with
  | memory => exact f.getElem_fill b.memory a.val a.isLt ha
  | picture | keyFlag | keyNumber => rfl

theorem fill_self (b : Bus) : b.fill (.ofBank b.memory) = b := by
  apply Bus.ext
  · apply Vector.ext
    intro i hi
    rw [memory_fill]
    by_cases ha : Location.of ⟨i, hi⟩ = .memory
    · exact (Filling.ofBank b.memory).getElem_fill b.memory i hi ha
    · exact Filling.getElem_ofBank_hidden _ _ i hi ha
  · exact display_fill _ b
  · exact keypad_fill _ b

/-! ## Changes of memory -/

theorem fill_setCell (a : Fin 4096) (byte : Byte) (b : Bus) :
    (b.setCell a byte).fill f = (b.fill f).setCell a byte := by
  unfold setCell
  cases ha : Location.of a with
  | memory => exact Bus.ext (f.fill_set a byte b.memory ha) rfl rfl
  | picture | keyFlag | keyNumber => rfl

theorem fill_loadGlyphs (b : Bus) : b.loadGlyphs.fill f = (b.fill f).loadGlyphs :=
  Bus.ext (f.fill_overlay 0 _ b.memory (Or.inl (by rw [List.size_toArray]; decide))) rfl rfl

theorem loadProgram_fill (image : Array Byte) (b : Bus) :
    (b.fill f).loadProgram image = (b.loadProgram image).map (fill f) := by
  unfold loadProgram
  split
  · have hover := f.fill_overlay programStart image b.memory (Or.inr (by decide))
    exact congrArg Except.ok (Bus.ext hover.symm rfl rfl)
  · rfl

/-! ## Accesses -/

theorem read_fill (address : Word) (b : Bus) : (b.fill f).read address = b.read address := by
  unfold read
  simp only [cell_fill]

theorem write_fill (address : Word) (byte : Byte) (b : Bus) :
    (b.fill f).write address byte = (b.write address byte).map (fill f) := by
  unfold write
  split
  · rw [← fill_setCell]; rfl
  · rfl

theorem readWord_fill (address : Word) (b : Bus) :
    (b.fill f).readWord address = b.readWord address := by
  unfold readWord
  simp only [read_fill]

theorem storeFrom_fill (done : Nat) (address : Word) (bytes : List Byte) (b : Bus) :
    ((b.fill f).storeFrom done address bytes).toOutcome =
      (b.storeFrom done address bytes).toOutcome.map (fill f) := by
  induction bytes generalizing done address b with
  | nil => rfl
  | cons byte rest ih =>
    rw [storeFrom, storeFrom, write_fill]
    cases b.write address byte with
    | ok b' => exact ih _ _ b'
    | error fault => rfl

theorem load_fill (address : Word) (count : Nat) (b : Bus) :
    (b.fill f).load address count = b.load address count := by
  induction count generalizing address with
  | zero => rfl
  | succ count ih => rw [load, load, read_fill, ih]

theorem loadAll_fill (address : Word) (count : Nat) (b : Bus) :
    (b.fill f).loadAll address count = b.loadAll address count := by
  unfold loadAll
  rw [load_fill]

theorem draw_fill (x y : Byte) (address : Word) (height : Nat) (b : Bus) :
    (b.fill f).draw x y address height =
      (b.draw x y address height).map fun r => (r.1.fill f, r.2) := by
  unfold draw
  rw [loadAll_fill]
  cases b.loadAll address height <;> rfl

theorem drawLimited?_fill (x y : Byte) (address : Word) (height : Nat) (b : Bus) :
    (b.fill f).drawLimited? x y address height =
      (b.drawLimited? x y address height).map (Option.map fun r => (r.1.fill f, r.2)) := by
  unfold drawLimited?
  rw [draw_fill]
  cases b.draw x y address (min height heightLimit) with
  | error fault => rfl
  | ok r => by_cases h : height ≤ heightLimit <;> simp [Except.map, h]

end Bus

namespace Machine

variable (f : Filling)

/-- The machine with the hidden cells of memory overwritten. -/
def fill (m : Machine) : Machine := m.withBus (m.bus.fill f)

@[simp] theorem bus_fill (m : Machine) : (m.fill f).bus = m.bus.fill f := rfl
@[simp] theorem index_fill (m : Machine) : (m.fill f).index = m.index := rfl
@[simp] theorem reg_fill (x : Nibble) (m : Machine) : (m.fill f).reg x = m.reg x := rfl

theorem withBus_fill (b : Bus) (m : Machine) : (m.fill f).withBus b = m.withBus b := rfl

theorem fill_withBus (b : Bus) (m : Machine) : (m.withBus b).fill f = m.withBus (b.fill f) := rfl

/-! ## Instructions -/

theorem setFirstRegs_fill (bytes : List Byte) (m : Machine) :
    (m.fill f).setFirstRegs bytes = (m.setFirstRegs bytes).fill f := by
  rw [setFirstRegs, setFirstRegs]; rfl

theorem skip_fill (t : Test) (m : Machine) : (m.fill f).skip t = (m.skip t).fill f := by
  have hholds : t.holds (m.fill f) = t.holds m := by cases t <;> rfl
  unfold skip
  rw [hholds]
  split <;> rfl

theorem draw_fill (x y height : Nibble) (m : Machine) :
    (m.fill f).draw x y height = (m.draw x y height).map (fill f) := by
  unfold draw
  rw [bus_fill, index_fill, reg_fill, reg_fill, Bus.draw_fill]
  cases m.bus.draw (m.reg x) (m.reg y) m.index height.toNat <;> rfl

theorem awaitKey_fill (x : Nibble) (m : Machine) :
    (m.fill f).awaitKey x = (m.awaitKey x).fill f := by
  unfold awaitKey
  rw [bus_fill, Bus.keypad_fill]
  cases m.bus.keypad.pressed? <;> rfl

theorem store_fill (bytes : List Byte) (m : Machine) :
    (m.fill f).store bytes = (m.store bytes).map (fill f) := by
  unfold store Bus.store
  rw [bus_fill, index_fill, Bus.storeFrom_fill]
  rfl

theorem loadRegisters_fill (x : Nibble) (m : Machine) :
    (m.fill f).loadRegisters x = (m.loadRegisters x).map (fill f) := by
  unfold loadRegisters
  rw [bus_fill, index_fill, Bus.load_fill]
  unfold Outcome.map
  simp only [setFirstRegs_fill]

theorem perform_fill (noise : Byte) (i : Instruction) (m : Machine) :
    (m.fill f).perform noise i = (m.perform noise i).map (fill f) := by
  cases huses : i.usesBus with
  | false => exact perform_withBus huses noise (Bus.fill f) m
  | true =>
    cases i with
    | clear => rfl
    | skip test => exact congrArg Outcome.success (skip_fill f test m)
    | draw x y height => exact draw_fill f x y height m
    | awaitKey x => exact congrArg Outcome.success (awaitKey_fill f x m)
    | storeDecimal x => exact store_fill f _ m
    | storeRegisters x => exact store_fill f _ m
    | loadRegisters x => exact loadRegisters_fill f x m
    | ret | jump | jumpOffset | call | load | addByte | combine | point | advance | random
    | readDelay | setDelay | setSound | pointGlyph => cases huses

/-! ## Ticks and operations -/

theorem step_fill (noise : Byte) (m : Machine) :
    (m.fill f).step noise = (m.step noise).map (fill f) := by
  have hfetch : (m.fill f).fetch = m.fetch := Bus.readWord_fill f m.pc m.bus
  unfold step
  rw [hfetch]
  cases m.fetch with
  | error fault => rfl
  | ok word =>
    simp only
    cases Instruction.decode word with
    | error fault => rfl
    | ok i => exact perform_fill f noise i (m.goTo (m.pc + 2))

theorem tick_fill (noise : Byte) (m : Machine) :
    (m.fill f).tick noise = (m.tick noise).map (fill f) := by
  unfold tick
  rw [step_fill]
  unfold Outcome.andThen
  simp only [Outcome.fault_map, Outcome.value_map]
  cases (m.step noise).fault <;> rfl

/-- No operation reads or changes a hidden byte. -/
theorem respond_fill (op : Operation) (m : Machine) :
    (m.fill f).respond op = (m.respond op).map (fill f) := by
  cases op with
  | load image =>
    simp only [respond, loadProgram, Response.map_ofOutcome, bus_fill, Bus.loadProgram_fill]
    cases m.bus.loadProgram image <;> rfl
  | loadImage image =>
    simp only [respond, Response.map_ofOutcome, bus_fill, Bus.loadProgram_fill]
    cases m.bus.loadProgram image <;> rfl
  | loadGlyphs =>
    simp only [respond, Response.map_answer]
    rw [bus_fill, withBus_fill, fill_withBus, Bus.fill_loadGlyphs]
  | tick noise => exact congrArg Response.ofOutcome (tick_fill f noise m)
  | step noise => exact congrArg Response.ofOutcome (step_fill f noise m)
  | perform noise i => exact congrArg Response.ofOutcome (perform_fill f noise i m)
  | read address =>
    simp only [respond, bus_fill, Bus.read_fill]
    rw [Response.map_ofExcept]
  | readWord address =>
    simp only [respond, bus_fill, Bus.readWord_fill]
    rw [Response.map_ofExcept]
  | write address byte =>
    simp only [respond, Response.map_ofOutcome, bus_fill, Bus.write_fill]
    cases m.bus.write address byte <;> rfl
  | draw x y address height =>
    simp only [respond, bus_fill, Bus.drawLimited?_fill]
    cases m.bus.drawLimited? x y address height with
    | error fault => rfl
    | ok drawn => cases drawn <;> rfl
  | lowerTimers | setReg | pointTo | goTo | press | release | clear | blit | drain => rfl

theorem after_fill (ops : List Operation) (m : Machine) :
    (m.fill f).after ops = (m.after ops).fill f := by
  induction ops generalizing m with
  | nil => rfl
  | cons op rest ih =>
    rw [after_cons, after_cons, respond_fill]
    exact ih (m.respond op).value

/-- Hidden bytes stay as they are. -/
theorem getElem_hidden_respond (op : Operation) (m : Machine) (i : Nat) (h : i < 4096)
    (hi : Location.of ⟨i, h⟩ ≠ .memory) :
    (m.respond op).value.bus.memory[i] = m.bus.memory[i] := by
  have hself := respond_fill (.ofBank m.bus.memory) op m
  rw [fill, Bus.fill_self, withBus_bus] at hself
  rw [hself]
  exact Filling.getElem_ofBank_hidden _ _ i h hi

end Machine

end ChipEight
