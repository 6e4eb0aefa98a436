import ChipEight.Proofs.Flat.Machine
import ChipEight.Proofs.Bus.Stable

/-!
# Machines and flat machines in lock step

`Machine.flat` forgets where the bytes of a machine are kept.  An operation on a machine, seen
through `flat`, is the same operation on the flat machine (`flat_respond`), so the two stay in lock
step through any row of operations, whatever plain memory holds at the addresses of the picture and
the keypad.
-/

namespace ChipEight

namespace Machine

/-- The machine with all its bytes in one bank. -/
def flat (m : Machine) : FlatMachine where
  memory := m.bus.view
  registers := m.registers
  pc := m.pc
  index := m.index
  stack := m.stack
  delay := m.delay
  sound := m.sound

@[simp] theorem memory_flat (m : Machine) : m.flat.memory = m.bus.view := rfl
@[simp] theorem pc_flat (m : Machine) : m.flat.pc = m.pc := rfl
@[simp] theorem index_flat (m : Machine) : m.flat.index = m.index := rfl
@[simp] theorem stack_flat (m : Machine) : m.flat.stack = m.stack := rfl
@[simp] theorem reg_flat (m : Machine) (x : Nibble) : m.flat.reg x = m.reg x := rfl

/-! ## Instructions -/

theorem flat_withBus (b : Bus) (m : Machine) : (m.withBus b).flat = m.flat.withMemory b.view := rfl

theorem flat_setReg (x : Nibble) (byte : Byte) (m : Machine) :
    (m.setReg x byte).flat = m.flat.setReg x byte := rfl

theorem flat_goTo (target : Word) (m : Machine) : (m.goTo target).flat = m.flat.goTo target := rfl

theorem flat_setFirstRegs (bytes : List Byte) (m : Machine) :
    (m.setFirstRegs bytes).flat = m.flat.setFirstRegs bytes := by
  rw [setFirstRegs, FlatMachine.setFirstRegs]; rfl

theorem flat_combine (op : RegisterOp) (x y : Nibble) (m : Machine) :
    (m.combine op x y).flat = m.flat.combine op x y := by
  unfold combine FlatMachine.combine
  simp only [reg_flat]
  cases op.flag? (m.reg x) (m.reg y) <;> rfl

theorem flat_call (target : Address) (m : Machine) :
    (m.call target).map flat = m.flat.call target := by
  unfold call FlatMachine.call
  rw [stack_flat]
  split <;> rfl

theorem flat_ret (m : Machine) : m.ret.map flat = m.flat.ret := by
  unfold ret FlatMachine.ret
  rw [stack_flat]
  cases m.stack <;> rfl

theorem holds_flat (n : Byte) (m : Machine) : m.flat.holds n = m.bus.keypad.holds n := by
  unfold FlatMachine.holds Keypad.holds
  rw [memory_flat, Bus.view_pressed?]

theorem holdsTest_flat (t : Test) (m : Machine) : m.flat.holdsTest t = t.holds m := by
  cases t with
  | keyDown x => rw [FlatMachine.holdsTest, Test.holds, reg_flat, holds_flat]
  | keyUp x => rw [FlatMachine.holdsTest, Test.holds, reg_flat, holds_flat]
  | equalsByte | differsByte | equals | differs => rfl

theorem flat_skip (t : Test) (m : Machine) : (m.skip t).flat = m.flat.skip t := by
  unfold skip FlatMachine.skip
  rw [holdsTest_flat]
  split <;> rfl

theorem flat_draw (x y height : Nibble) (m : Machine) :
    (m.draw x y height).map flat = m.flat.draw x y height := by
  unfold draw FlatMachine.draw
  rw [memory_flat, index_flat, reg_flat, reg_flat, ← Bus.view_draw]
  cases m.bus.draw (m.reg x) (m.reg y) m.index height.toNat <;> rfl

theorem flat_awaitKey (x : Nibble) (m : Machine) : (m.awaitKey x).flat = m.flat.awaitKey x := by
  have hpressed : m.flat.memory.pressed? = m.bus.keypad.pressed? := Bus.view_pressed? m.bus
  unfold awaitKey
  cases h : m.bus.keypad.pressed? with
  | some key => rw [FlatMachine.awaitKey_of_some x (hpressed.trans h), flat_setReg]
  | none => rw [FlatMachine.awaitKey_of_none x (hpressed.trans h), flat_goTo, pc_flat]

theorem flat_store (bytes : List Byte) (m : Machine) :
    (m.store bytes).map flat = m.flat.store bytes := by
  unfold store FlatMachine.store
  rw [memory_flat, index_flat, ← Bus.view_store]
  rfl

theorem flat_loadRegisters (x : Nibble) (m : Machine) :
    (m.loadRegisters x).map flat = m.flat.loadRegisters x := by
  unfold loadRegisters FlatMachine.loadRegisters
  rw [memory_flat, index_flat, Bus.view_load]
  unfold Outcome.map
  simp only [flat_setFirstRegs]

theorem flat_perform (noise : Byte) (i : Instruction) (m : Machine) :
    (m.perform noise i).map flat = m.flat.perform noise i := by
  cases i with
  | clear => exact congrArg (fun v => Outcome.success (m.flat.withMemory v)) (Bus.view_clear m.bus)
  | ret => exact flat_ret m
  | call target => exact flat_call target m
  | skip test => exact congrArg Outcome.success (flat_skip test m)
  | combine op x y => exact congrArg Outcome.success (flat_combine op x y m)
  | draw x y height => exact flat_draw x y height m
  | awaitKey x => exact congrArg Outcome.success (flat_awaitKey x m)
  | storeDecimal x => exact flat_store _ m
  | storeRegisters x => exact flat_store _ m
  | loadRegisters x => exact flat_loadRegisters x m
  | jump | jumpOffset | load | addByte | point | advance | random | readDelay | setDelay
  | setSound | pointGlyph => rfl

/-! ## Ticks -/

theorem flat_step (noise : Byte) (m : Machine) : (m.step noise).map flat = m.flat.step noise := by
  unfold step FlatMachine.step
  rw [memory_flat, pc_flat, Bus.view_readWord]
  unfold fetch
  cases m.bus.readWord m.pc with
  | error f => rfl
  | ok word =>
    simp only
    cases Instruction.decode word with
    | error f => rfl
    | ok i => exact flat_perform noise i (m.goTo (m.pc + 2))

theorem flat_tick (noise : Byte) (m : Machine) : (m.tick noise).map flat = m.flat.tick noise := by
  unfold tick FlatMachine.tick
  rw [← flat_step]
  unfold Outcome.andThen
  simp only [Outcome.fault_map, Outcome.value_map]
  cases (m.step noise).fault <;> rfl

/-! ## Operations -/

theorem flat_settled (m : Machine) : m.settled.flat = m.flat := by
  rw [settled, flat_withBus, Bus.view_drain]
  rfl

theorem flat_ofExcept_map (m : Machine) (e : Except Fault Bus) :
    (Outcome.ofExcept m (e.map fun b => m.withBus b)).map flat =
      .ofExcept m.flat ((e.map Bus.view).map fun v => m.flat.withMemory v) := by
  cases e <;> rfl

theorem flat_loadProgram (image : Array Byte) (m : Machine) :
    (m.loadProgram image).map flat = m.flat.loadProgram image := by
  unfold loadProgram FlatMachine.loadProgram
  rw [memory_flat, ← Bus.view_loadProgram_map]
  cases m.bus.loadProgram image <;> rfl

theorem flat_respond (op : Operation) (m : Machine) :
    (m.respond op).map flat = m.flat.respond op := by
  cases op with
  | load image =>
    simp only [respond, FlatMachine.respond, Response.map_ofOutcome]
    rw [← flat_loadProgram]
    cases m.loadProgram image <;> rfl
  | loadImage image =>
    simp only [respond, FlatMachine.respond, Response.map_ofOutcome]
    rw [flat_ofExcept_map, Bus.view_loadProgram_map]
    rfl
  | loadGlyphs =>
    simp only [respond, FlatMachine.respond, Response.map_answer]
    rw [flat_withBus, Bus.view_loadGlyphs]
    rfl
  | tick noise => exact congrArg Response.ofOutcome (flat_tick noise m)
  | step noise => exact congrArg Response.ofOutcome (flat_step noise m)
  | perform noise i => exact congrArg Response.ofOutcome (flat_perform noise i m)
  | read address =>
    simp only [respond, FlatMachine.respond]
    rw [Response.map_ofExcept, ← Bus.view_read]
    rfl
  | readWord address =>
    simp only [respond, FlatMachine.respond]
    rw [Response.map_ofExcept, ← Bus.view_readWord]
    rfl
  | write address byte =>
    simp only [respond, FlatMachine.respond, Response.map_ofOutcome]
    rw [flat_ofExcept_map, Bus.view_write]
    rfl
  | press key =>
    simp only [respond, FlatMachine.respond, Response.map_answer]
    rw [press, flat_withBus, Bus.view_press]
    rfl
  | release =>
    simp only [respond, FlatMachine.respond, Response.map_answer]
    rw [release, flat_withBus, Bus.view_release]
    rfl
  | clear =>
    simp only [respond, FlatMachine.respond, Response.map_answer]
    rw [flat_withBus, Bus.view_clear]
    rfl
  | blit x y rows =>
    simp only [respond, FlatMachine.respond, Response.map_answer]
    rw [memory_flat, ← Bus.view_blit]
    rfl
  | draw x y address height =>
    simp only [respond, FlatMachine.respond]
    rw [memory_flat, ← Bus.view_drawLimited?]
    cases m.bus.drawLimited? x y address height with
    | error f => rfl
    | ok drawn => cases drawn <;> rfl
  | drain =>
    simp only [respond, FlatMachine.respond, Response.map_answer]
    rw [flat_settled]
  | lowerTimers | setReg | pointTo | goTo => rfl

theorem flat_after (ops : List Operation) (m : Machine) :
    (m.after ops).flat = m.flat.after ops := by
  unfold after FlatMachine.after
  induction ops generalizing m with
  | nil => rfl
  | cons op rest ih =>
    rw [List.foldl_cons, List.foldl_cons, ih, ← flat_respond]
    rfl

end Machine

end ChipEight
