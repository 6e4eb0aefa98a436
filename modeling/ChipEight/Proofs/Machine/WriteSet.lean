import ChipEight.Proofs.Bus.Rows
import ChipEight.Proofs.Machine.Frame

/-!
# Write sets

`Part` takes a machine apart, down to single registers and cells of memory.  `Instruction.Writes` is
the table of the parts that each instruction may change, and `perform_confined` says that no
instruction changes anything else, whether it succeeds or not.

The small changes that instructions are made of come first, each with the one part it may change
(`setReg_confined`, `store_confined`, …); an instruction makes one of them or two in a row.
-/

namespace ChipEight

/-- A part of a machine.  The changes that wait to be shown are part of the display. -/
inductive Part where
  | pc
  | index
  | delay
  | sound
  | stack
  | register (x : Nibble)
  | memory (a : Fin 4096)
  | display
  | keypad
deriving Repr, DecidableEq

namespace Part

/-- The part is in `m'` as it is in `m`. -/
def Agree (m m' : Machine) : Part → Prop
  | pc => m'.pc = m.pc
  | index => m'.index = m.index
  | delay => m'.delay = m.delay
  | sound => m'.sound = m.sound
  | stack => m'.stack = m.stack
  | register x => m'.reg x = m.reg x
  | memory a => m'.bus.memory.byteAt a = m.bus.memory.byteAt a
  | display => m'.bus.display = m.bus.display
  | keypad => m'.bus.keypad = m.bus.keypad

/-- Bytes that are stored in `count` places from `start` on may change the part. -/
def Meets (start count : Nat) : Part → Prop
  | memory a => start ≤ a.val ∧ a.val < start + count
  | display => start < 0x150 ∧ 0x050 < start + count
  | keypad => start < 0x152 ∧ 0x150 < start + count
  | _ => False

variable {m m' m'' : Machine} {p : Part}

theorem Agree.refl (m : Machine) (p : Part) : p.Agree m m := by cases p <;> rfl

theorem Agree.trans (h : p.Agree m m') (h' : p.Agree m' m'') : p.Agree m m'' := by
  cases p <;> exact Eq.trans h' h

/-- There is nothing in a machine besides its parts. -/
theorem eq_of_agree (h : ∀ p : Part, p.Agree m m') : m' = m := by
  have hregisters : m'.registers = m.registers := by
    apply Vector.ext
    intro i hi
    have hx := h (.register (BitVec.ofNatLT i hi))
    simpa only [Agree, Machine.reg, BitVec.toNat_ofNatLT] using hx
  have hmemory : m'.bus.memory = m.bus.memory := by
    apply Vector.ext
    intro i hi
    exact h (.memory ⟨i, hi⟩)
  have hbus : m'.bus = m.bus := Bus.ext hmemory (h .display) (h .keypad)
  have hpc : m'.pc = m.pc := h .pc
  have hindex : m'.index = m.index := h .index
  have hstack : m'.stack = m.stack := h .stack
  have hdelay : m'.delay = m.delay := h .delay
  have hsound : m'.sound = m.sound := h .sound
  obtain ⟨bus, registers, pc, index, stack, delay, sound⟩ := m
  obtain ⟨bus', registers', pc', index', stack', delay', sound'⟩ := m'
  subst hbus hregisters hpc hindex hstack hdelay hsound
  rfl

end Part

/-- Whether the operation puts a flag into register F. -/
def RegisterOp.hasFlag : RegisterOp → Bool
  | copy | or | and | xor => false
  | add | subtract | shiftRight | subtractFrom | shiftLeft => true

theorem RegisterOp.hasFlag_of_flag? {op : RegisterOp} {a b : Byte} {flag : Bool}
    (h : op.flag? a b = some flag) : op.hasFlag = true := by
  cases op with
  | copy | or | and | xor => cases h
  | add | subtract | shiftRight | subtractFrom | shiftLeft => rfl

/-- The parts that an instruction may change when `m` carries it out. -/
def Instruction.Writes (m : Machine) : Instruction → Part → Prop
  | .clear, p => p = .display
  | .ret, p => p = .pc ∨ p = .stack
  | .call _, p => p = .pc ∨ p = .stack
  | .jump _, p => p = .pc
  | .jumpOffset _, p => p = .pc
  | .skip test, p => test.holds m = true ∧ p = .pc
  | .load x _, p => p = .register x
  | .addByte x _, p => p = .register x
  | .combine op x _, p =>
    p = .register x ∨ op.hasFlag = true ∧ p = .register Machine.flagRegister
  | .point _, p => p = .index
  | .advance _, p => p = .index
  | .random x _, p => p = .register x
  | .draw _ _ height, p =>
    p = .register Machine.flagRegister ∨ 1 ≤ height.toNat ∧ p = .display
  | .awaitKey x, p =>
    m.bus.keypad.pressed? ≠ none ∧ p = .register x ∨ m.bus.keypad.pressed? = none ∧ p = .pc
  | .readDelay x, p => p = .register x
  | .setDelay _, p => p = .delay
  | .setSound _, p => p = .sound
  | .pointGlyph _, p => p = .index
  | .storeDecimal _, p => p.Meets m.index.toNat 3
  | .storeRegisters x, p => p.Meets m.index.toNat (x.toNat + 1)
  | .loadRegisters x, p => ∃ z : Nibble, z ≤ x ∧ p = .register z

namespace Machine

/-! ## Single changes -/

section Changes

variable (m : Machine) (p : Part)

theorem goTo_confined (target : Word) : p = .pc ∨ p.Agree m (m.goTo target) := by
  cases p with
  | pc => exact Or.inl rfl
  | index | delay | sound | stack | register | memory | display | keypad => exact Or.inr rfl

theorem pointTo_confined (target : Word) : p = .index ∨ p.Agree m (m.pointTo target) := by
  cases p with
  | index => exact Or.inl rfl
  | pc | delay | sound | stack | register | memory | display | keypad => exact Or.inr rfl

theorem setReg_confined (x : Nibble) (byte : Byte) :
    p = .register x ∨ p.Agree m (m.setReg x byte) := by
  cases p with
  | register z =>
    by_cases h : z = x
    · exact Or.inl (congrArg Part.register h)
    · exact Or.inr (reg_setReg_of_ne byte m h)
  | pc | index | delay | sound | stack | memory | display | keypad => exact Or.inr rfl

theorem setDelay_confined (timer : Byte) : p = .delay ∨ p.Agree m { m with delay := timer } := by
  cases p with
  | delay => exact Or.inl rfl
  | pc | index | sound | stack | register | memory | display | keypad => exact Or.inr rfl

theorem setSound_confined (timer : Byte) : p = .sound ∨ p.Agree m { m with sound := timer } := by
  cases p with
  | sound => exact Or.inl rfl
  | pc | index | delay | stack | register | memory | display | keypad => exact Or.inr rfl

theorem withDisplay_confined (d : Display) :
    p = .display ∨ p.Agree m (m.withBus { m.bus with display := d }) := by
  cases p with
  | display => exact Or.inl rfl
  | pc | index | delay | sound | stack | register | memory | keypad => exact Or.inr rfl

theorem store_confined (bytes : List Byte) :
    p.Meets m.index.toNat bytes.length ∨ p.Agree m (m.store bytes).value := by
  cases p with
  | memory a =>
    by_cases h : a.val < m.index.toNat ∨ m.index.toNat + bytes.length ≤ a.val
    · exact Or.inr (Bus.getElem_memory_store m.index bytes m.bus a.val a.isLt h)
    · rw [not_or, Nat.not_lt, Nat.not_le] at h
      exact Or.inl h
  | display =>
    by_cases h : m.index.toNat + bytes.length ≤ 0x050 ∨ 0x150 ≤ m.index.toNat
    · exact Or.inr (Bus.display_store m.index bytes m.bus h)
    · rw [not_or, Nat.not_le, Nat.not_le] at h
      exact Or.inl h.symm
  | keypad =>
    by_cases h : m.index.toNat + bytes.length ≤ 0x150 ∨ 0x152 ≤ m.index.toNat
    · exact Or.inr (Bus.keypad_store m.index bytes m.bus h)
    · rw [not_or, Nat.not_le, Nat.not_le] at h
      exact Or.inl h.symm
  | pc | index | delay | sound | stack | register => exact Or.inr rfl

end Changes

/-! ## Instructions -/

section Instructions

variable (m : Machine) (p : Part)

theorem length_value_load_le (address : Word) (count : Nat) (b : Bus) :
    (b.load address count).value.length ≤ count := by
  rw [Bus.value_load, List.length_take]
  exact Nat.min_le_left _ _

theorem call_confined (target : Address) :
    (p = .pc ∨ p = .stack) ∨ p.Agree m (m.call target).value := by
  unfold call
  split
  · cases p with
    | pc => exact Or.inl (Or.inl rfl)
    | stack => exact Or.inl (Or.inr rfl)
    | index | delay | sound | register | memory | display | keypad => exact Or.inr rfl
  · exact Or.inr (Part.Agree.refl m p)

theorem ret_confined : (p = .pc ∨ p = .stack) ∨ p.Agree m m.ret.value := by
  unfold ret
  split
  · cases p with
    | pc => exact Or.inl (Or.inl rfl)
    | stack => exact Or.inl (Or.inr rfl)
    | index | delay | sound | register | memory | display | keypad => exact Or.inr rfl
  · exact Or.inr (Part.Agree.refl m p)

theorem skip_confined (t : Test) : t.holds m = true ∧ p = .pc ∨ p.Agree m (m.skip t) := by
  unfold skip
  split
  · rename_i h
    exact (goTo_confined m p (m.pc + 2)).imp_left fun hp => ⟨h, hp⟩
  · exact Or.inr (Part.Agree.refl m p)

theorem setFlag_confined (flag : Bool) :
    p = .register flagRegister ∨ p.Agree m (m.setFlag flag) := setReg_confined m p _ _

theorem combine_confined (op : RegisterOp) (x y : Nibble) :
    (p = .register x ∨ op.hasFlag = true ∧ p = .register flagRegister) ∨
      p.Agree m (m.combine op x y) := by
  unfold combine
  simp only
  rcases setReg_confined m p x (op.result (m.reg x) (m.reg y)) with hp | hresult
  · exact Or.inl (Or.inl hp)
  cases hflag : op.flag? (m.reg x) (m.reg y) with
  | none => exact Or.inr hresult
  | some flag =>
    rcases setFlag_confined (m.setReg x (op.result (m.reg x) (m.reg y))) p flag with hp | hput
    · exact Or.inl (Or.inr ⟨RegisterOp.hasFlag_of_flag? hflag, hp⟩)
    · exact Or.inr (hresult.trans hput)

/-- A sprite without rows is drawn nowhere. -/
theorem draw_confined (x y height : Nibble) :
    (p = .register flagRegister ∨ 1 ≤ height.toNat ∧ p = .display) ∨
      p.Agree m (m.draw x y height).value := by
  unfold draw
  cases hdraw : m.bus.draw (m.reg x) (m.reg y) m.index height.toNat with
  | error f => exact Or.inr (Part.Agree.refl m p)
  | ok drawn =>
    obtain ⟨rows, hrows, rfl⟩ := Bus.draw_eq_ok hdraw
    simp only [Outcome.value_success]
    rcases setFlag_confined (m.withBus { m.bus with
      display := (m.bus.display.blit (m.reg x) (m.reg y) rows).1 }) p
      (m.bus.display.blit (m.reg x) (m.reg y) rows).2 with hp | hput
    · exact Or.inl (Or.inl hp)
    by_cases hheight : 1 ≤ height.toNat
    · rcases withDisplay_confined m p (m.bus.display.blit (m.reg x) (m.reg y) rows).1 with
        hp | hdrawn
      · exact Or.inl (Or.inr ⟨hheight, hp⟩)
      · exact Or.inr (hdrawn.trans hput)
    · rw [show height.toNat = 0 by omega] at hrows
      obtain rfl : [] = rows := Except.ok.inj hrows
      exact Or.inr hput

theorem awaitKey_confined (x : Nibble) :
    (m.bus.keypad.pressed? ≠ none ∧ p = .register x ∨ m.bus.keypad.pressed? = none ∧ p = .pc) ∨
      p.Agree m (m.awaitKey x) := by
  unfold awaitKey
  cases m.bus.keypad.pressed? with
  | some key =>
    exact (setReg_confined m p x key).imp_left fun hp => Or.inl ⟨Option.some_ne_none key, hp⟩
  | none => exact (goTo_confined m p (m.pc - 2)).imp_left fun hp => Or.inr ⟨rfl, hp⟩

theorem loadRegisters_confined (x : Nibble) :
    (∃ z : Nibble, z ≤ x ∧ p = .register z) ∨ p.Agree m (m.loadRegisters x).value := by
  unfold loadRegisters
  rw [Outcome.value_map]
  cases p with
  | register z =>
    by_cases hz : z ≤ x
    · exact Or.inl ⟨z, hz, rfl⟩
    · -- no more bytes are loaded than there are registers up to `x`
      have hlength := length_value_load_le m.index (x.toNat + 1) m.bus
      rw [BitVec.le_def] at hz
      refine Or.inr ?_
      show (m.setFirstRegs _).reg z = _
      rw [reg_setFirstRegs, List.getElem?_eq_none (by omega), Option.getD_none]
  | pc | index | delay | sound | stack | memory | display | keypad =>
    exact Or.inr (by rw [setFirstRegs]; rfl)

/-- **Write sets.**  An instruction changes nothing outside its write set, and one whose write set
is empty changes nothing at all. -/
theorem perform_confined (noise : Byte) (i : Instruction) (m : Machine) :
    (∀ p : Part, i.Writes m p ∨ p.Agree m (m.perform noise i).value) ∧
      ((∀ p : Part, ¬ i.Writes m p) → (m.perform noise i).value = m) := by
  have hconfined : ∀ p : Part, i.Writes m p ∨ p.Agree m (m.perform noise i).value := by
    intro p
    cases i with
    | clear => exact withDisplay_confined m p m.bus.display.clear
    | ret => exact ret_confined m p
    | call target => exact call_confined m p target
    | jump target => exact goTo_confined m p target.toWord
    | jumpOffset base => exact goTo_confined m p (base.toWord + (m.reg 0).setWidth 16)
    | skip test => exact skip_confined m p test
    | load x n => exact setReg_confined m p x n
    | addByte x n => exact setReg_confined m p x (m.reg x + n)
    | combine op x y => exact combine_confined m p op x y
    | point target => exact pointTo_confined m p target.toWord
    | advance x => exact pointTo_confined m p (m.index + (m.reg x).setWidth 16)
    | random x mask => exact setReg_confined m p x (noise &&& mask)
    | draw x y height => exact draw_confined m p x y height
    | awaitKey x => exact awaitKey_confined m p x
    | readDelay x => exact setReg_confined m p x m.delay
    | setDelay x => exact setDelay_confined m p (m.reg x)
    | setSound x => exact setSound_confined m p (m.reg x)
    | pointGlyph x => exact pointTo_confined m p (Glyph.address (m.reg x))
    | storeDecimal x => exact store_confined m p (m.reg x).decimalDigits
    | storeRegisters x =>
      have hstored := store_confined m p (m.firstRegs x)
      rwa [length_firstRegs] at hstored
    | loadRegisters x => exact loadRegisters_confined m p x
  refine ⟨hconfined, fun hempty => Part.eq_of_agree fun p => ?_⟩
  exact (hconfined p).resolve_left (hempty p)

end Instructions

end Machine

end ChipEight
