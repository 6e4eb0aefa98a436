import ChipEight.Proofs.Machine.Operation

/-!
# What an instruction leaves alone

Instructions reach the bus in three ways only: they blank the picture, draw a sprite or store a row
of bytes.  All others keep the bus (`bus_perform`), and those that do not look at it either do the
same on any bus (`perform_withBus`).  Calls and returns are the only ones that reach the stack
(`stack_perform`).  Operations that have no part in a tick reach neither the stack nor the timers
(`respond_between`).
-/

namespace ChipEight

namespace Instruction

/-- Whether the instruction looks at the bus or changes it. -/
def usesBus : Instruction → Bool
  | clear => true
  | skip (.keyDown _) => true
  | skip (.keyUp _) => true
  | draw .. => true
  | awaitKey _ => true
  | storeDecimal _ => true
  | storeRegisters _ => true
  | loadRegisters _ => true
  | _ => false

/-- The bytes that an instruction stores at the index, if it stores any. -/
def stored? (i : Instruction) (m : Machine) : Option (List Byte) :=
  match i with
  | storeDecimal x => some (m.reg x).decimalDigits
  | storeRegisters x => some (m.firstRegs x)
  | _ => none

end Instruction

namespace Operation

/-- Whether the operation is a tick. -/
def isTick : Operation → Bool
  | tick _ => true
  | _ => false

/-- Whether the operation is one half of a tick by itself: it carries out an instruction without
lowering the timers, or lowers them without one. -/
def isHalfTick : Operation → Bool
  | step _ => true
  | lowerTimers => true
  | perform .. => true
  | _ => false

theorem exists_of_isTick {op : Operation} (h : op.isTick = true) : ∃ noise, op = tick noise := by
  cases op with
  | tick noise => exact ⟨noise, rfl⟩
  | _ => cases h

end Operation

namespace Machine

/-! ## Fields of a changed machine -/

@[simp] theorem withBus_bus (m : Machine) : m.withBus m.bus = m := rfl

@[simp] theorem stack_withBus (b : Bus) (m : Machine) : (m.withBus b).stack = m.stack := rfl
@[simp] theorem reg_withBus (b : Bus) (x : Nibble) (m : Machine) :
    (m.withBus b).reg x = m.reg x := rfl

@[simp] theorem bus_setFirstRegs (bytes : List Byte) (m : Machine) :
    (m.setFirstRegs bytes).bus = m.bus := by rw [setFirstRegs]
@[simp] theorem stack_setFirstRegs (bytes : List Byte) (m : Machine) :
    (m.setFirstRegs bytes).stack = m.stack := by rw [setFirstRegs]

theorem reg_setFirstRegs (bytes : List Byte) (m : Machine) (z : Nibble) :
    (m.setFirstRegs bytes).reg z = (bytes[z.toNat]?).getD (m.reg z) := by
  unfold reg setFirstRegs
  rw [Bank.getElem_overlay, if_pos (Nat.zero_le _), Nat.sub_zero, List.getElem?_toArray]

theorem length_firstRegs (x : Nibble) (m : Machine) : (m.firstRegs x).length = x.toNat + 1 := by
  have := x.isLt
  rw [firstRegs, List.length_take, Vector.length_toList]
  omega

theorem combine_eq (op : RegisterOp) (x y : Nibble) (m : Machine) :
    ∃ bank, m.combine op x y = { m with registers := bank } := by
  unfold combine
  simp only
  split
  · exact ⟨_, rfl⟩
  · exact ⟨_, rfl⟩

theorem skip_eq (t : Test) (m : Machine) : ∃ target, m.skip t = m.goTo target := by
  unfold skip
  split
  · exact ⟨_, rfl⟩
  · exact ⟨m.pc, rfl⟩

/-! ## The bus -/

theorem bus_call (target : Address) (m : Machine) : (m.call target).value.bus = m.bus := by
  unfold call
  split <;> rfl

theorem bus_ret (m : Machine) : m.ret.value.bus = m.bus := by
  unfold ret
  split <;> rfl

theorem bus_awaitKey (x : Nibble) (m : Machine) : (m.awaitKey x).bus = m.bus := by
  unfold awaitKey
  split <;> rfl

theorem bus_skip (t : Test) (m : Machine) : (m.skip t).bus = m.bus := by
  obtain ⟨target, h⟩ := skip_eq t m
  rw [h]; rfl

theorem bus_combine (op : RegisterOp) (x y : Nibble) (m : Machine) :
    (m.combine op x y).bus = m.bus := by
  obtain ⟨bank, h⟩ := combine_eq op x y m
  rw [h]

theorem bus_loadRegisters (x : Nibble) (m : Machine) : (m.loadRegisters x).value.bus = m.bus := by
  unfold loadRegisters
  rw [Outcome.value_map, bus_setFirstRegs]

theorem bus_draw (x y height : Nibble) (m : Machine) :
    (m.draw x y height).value.bus = m.bus ∨
      ∃ r, m.bus.draw (m.reg x) (m.reg y) m.index height.toNat = .ok r ∧
        (m.draw x y height).value.bus = r.1 := by
  unfold draw
  cases h : m.bus.draw (m.reg x) (m.reg y) m.index height.toNat with
  | ok r => exact Or.inr ⟨r, rfl, rfl⟩
  | error f => exact Or.inl rfl

theorem bus_store (bytes : List Byte) (m : Machine) :
    (m.store bytes).value.bus = (m.bus.store m.index bytes).value := rfl

/-- The three ways to the bus. -/
theorem bus_perform (noise : Byte) (i : Instruction) (m : Machine) :
    (m.perform noise i).value.bus = m.bus ∨
      (i = .clear ∧ (m.perform noise i).value.bus = m.bus.clear) ∨
      (∃ x y height r, i = .draw x y height ∧
        m.bus.draw (m.reg x) (m.reg y) m.index height.toNat = .ok r ∧
        (m.perform noise i).value.bus = r.1) ∨
      ∃ bytes, i.stored? m = some bytes ∧
        (m.perform noise i).value.bus = (m.bus.store m.index bytes).value := by
  cases i with
  | clear => exact Or.inr (Or.inl ⟨rfl, rfl⟩)
  | draw x y height =>
    rcases bus_draw x y height m with h | ⟨r, hr, h⟩
    · exact Or.inl h
    · exact Or.inr (Or.inr (Or.inl ⟨x, y, height, r, rfl, hr, h⟩))
  | storeDecimal x => exact Or.inr (Or.inr (Or.inr ⟨_, rfl, bus_store _ m⟩))
  | storeRegisters x => exact Or.inr (Or.inr (Or.inr ⟨_, rfl, bus_store _ m⟩))
  | ret => exact Or.inl (bus_ret m)
  | call target => exact Or.inl (bus_call target m)
  | awaitKey x => exact Or.inl (bus_awaitKey x m)
  | skip test => exact Or.inl (bus_skip test m)
  | combine op x y => exact Or.inl (bus_combine op x y m)
  | loadRegisters x => exact Or.inl (bus_loadRegisters x m)
  | jump | jumpOffset | load | addByte | point | advance | random | readDelay | setDelay
  | setSound | pointGlyph => exact Or.inl rfl

/-- What has no use for the bus does the same whatever the bus is. -/
theorem perform_withBus {i : Instruction} (h : i.usesBus = false) (noise : Byte) (f : Bus → Bus)
    (m : Machine) : (m.withBus (f m.bus)).perform noise i =
      (m.perform noise i).map fun m => m.withBus (f m.bus) := by
  cases i with
  | clear | draw | awaitKey | storeDecimal | storeRegisters | loadRegisters => cases h
  | ret =>
    simp only [perform, ret, stack_withBus]
    cases m.stack <;> rfl
  | call target =>
    rw [perform, perform, call, call, stack_withBus]
    split <;> rfl
  | skip test =>
    have hholds : test.holds (m.withBus (f m.bus)) = test.holds m := by
      cases test with
      | keyDown | keyUp => cases h
      | equalsByte | differsByte | equals | differs => rfl
    simp only [perform, skip, hholds]
    split <;> rfl
  | combine op x y =>
    simp only [perform, combine, reg_withBus]
    cases op.flag? (m.reg x) (m.reg y) <;> rfl
  | jump | jumpOffset | load | addByte | point | advance | random | readDelay | setDelay
  | setSound | pointGlyph => rfl

/-! ## The stack -/

/-- Calls and returns aside, the stack is kept. -/
theorem stack_perform (noise : Byte) (i : Instruction) (m : Machine)
    (hcall : ∀ target, i ≠ .call target) (hret : i ≠ .ret) :
    (m.perform noise i).value.stack = m.stack := by
  cases i with
  | call target => exact absurd rfl (hcall target)
  | ret => exact absurd rfl hret
  | skip test =>
    obtain ⟨target, h⟩ := skip_eq test m
    show (m.skip test).stack = m.stack
    rw [h]; rfl
  | combine op x y =>
    obtain ⟨bank, h⟩ := combine_eq op x y m
    show (m.combine op x y).stack = m.stack
    rw [h]
  | draw x y height =>
    simp only [perform, draw]
    split <;> rfl
  | awaitKey x =>
    show (m.awaitKey x).stack = m.stack
    unfold awaitKey
    split <;> rfl
  | loadRegisters x =>
    show (m.loadRegisters x).value.stack = m.stack
    unfold loadRegisters
    rw [Outcome.value_map, stack_setFirstRegs]
  | clear | jump | jumpOffset | load | addByte | point | advance | random | readDelay | setDelay
  | setSound | pointGlyph | storeDecimal | storeRegisters => rfl

/-! ## Steps and ticks -/

/-- A step fails before it moves, fails past the word it could not read, or carries out an
instruction. -/
theorem step_cases (noise : Byte) (m : Machine) :
    (∃ f, m.fetch = .error f ∧ m.step noise = .failure m f) ∨
      (∃ w, m.fetch = .ok w ∧ Instruction.decode w = .error (.unknownInstruction w) ∧
        m.step noise = .failure (m.goTo (m.pc + 2)) (.unknownInstruction w)) ∨
      ∃ w i, m.fetch = .ok w ∧ Instruction.decode w = .ok i ∧
        m.step noise = (m.goTo (m.pc + 2)).perform noise i := by
  unfold step
  cases hf : m.fetch with
  | error f => exact Or.inl ⟨f, rfl, rfl⟩
  | ok w =>
    cases hd : Instruction.decode w with
    | error f =>
      obtain ⟨-, rfl⟩ := (Instruction.decode_eq_error_iff w f).1 hd
      exact Or.inr (Or.inl ⟨w, rfl, hd, by simp only [hd]⟩)
    | ok i => exact Or.inr (Or.inr ⟨w, i, rfl, hd, by simp only [hd]⟩)

/-- A tick is a step that, if it succeeds, lowers the timers. -/
theorem tick_eq (noise : Byte) (m : Machine) :
    m.tick noise = m.step noise ∧ (m.step noise).fault ≠ none ∨
      m.tick noise = .success (m.step noise).value.lowerTimers ∧ (m.step noise).fault = none := by
  unfold tick Outcome.andThen
  cases h : (m.step noise).fault with
  | none => exact Or.inr ⟨rfl, rfl⟩
  | some f => exact Or.inl ⟨rfl, fun e => nomatch e⟩

theorem fault_tick (noise : Byte) (m : Machine) : (m.tick noise).fault = (m.step noise).fault := by
  rcases tick_eq noise m with ⟨h, -⟩ | ⟨h, hf⟩
  · rw [h]
  · rw [h, hf]; rfl

/-- What steps keep and the timers do not touch, ticks keep. -/
theorem tick_induction {P : Machine → Prop} {noise : Byte} {m : Machine}
    (hstep : P (m.step noise).value) (htimers : ∀ m : Machine, P m → P m.lowerTimers) :
    P (m.tick noise).value := by
  rcases tick_eq noise m with ⟨h, -⟩ | ⟨h, -⟩
  · rw [h]; exact hstep
  · rw [h]; exact htimers _ hstep

/-- What instructions keep on every machine that differs from `m` in its program counter only, a
step of `m` keeps. -/
theorem step_induction {P : Machine → Prop} {noise : Byte} {m : Machine} (h : P m)
    (hgoTo : ∀ target, P m → P (m.goTo target))
    (hperform : ∀ i (m : Machine), P m → P (m.perform noise i).value) :
    P (m.step noise).value := by
  rcases step_cases noise m with ⟨f, -, hs⟩ | ⟨w, -, -, hs⟩ | ⟨w, i, -, -, hs⟩
  · rw [hs]; exact h
  · rw [hs]; exact hgoTo _ h
  · rw [hs]; exact hperform i _ (hgoTo _ h)

/-! ## What comes between ticks -/

theorem respond_between {op : Operation} (htick : op.isTick = false)
    (hhalf : op.isHalfTick = false) (m : Machine) :
    ∃ bus registers pc index, (m.respond op).value = { m with bus, registers, pc, index } := by
  cases op with
  | tick => cases htick
  | step | lowerTimers | perform => cases hhalf
  | load image =>
    simp only [respond, loadProgram]
    cases m.bus.loadProgram image <;> exact ⟨_, _, _, _, rfl⟩
  | loadImage image =>
    simp only [respond]
    cases m.bus.loadProgram image <;> exact ⟨_, _, _, _, rfl⟩
  | read address =>
    simp only [respond]
    cases m.bus.read address <;> exact ⟨_, _, _, _, rfl⟩
  | readWord address =>
    simp only [respond]
    cases m.bus.readWord address <;> exact ⟨_, _, _, _, rfl⟩
  | write address byte =>
    simp only [respond]
    cases m.bus.write address byte <;> exact ⟨_, _, _, _, rfl⟩
  | draw x y address height =>
    simp only [respond]
    cases m.bus.drawLimited? x y address height with
    | error f => exact ⟨_, _, _, _, rfl⟩
    | ok drawn => cases drawn <;> exact ⟨_, _, _, _, rfl⟩
  | loadGlyphs => exact ⟨m.bus.loadGlyphs, _, _, _, by rw [respond]; rfl⟩
  | setReg | pointTo | goTo | press | release | clear | blit | drain => exact ⟨_, _, _, _, rfl⟩

end Machine

end ChipEight
