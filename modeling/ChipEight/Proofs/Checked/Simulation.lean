import ChipEight.Proofs.Checked.Machine

/-!
# No instruction traps

The checked machine does what the machine does.  Instructions other than calls and returns keep the
slots, so what they do to the rest of the machine is taken over as it is (`perform?_eq_adopt`).  A
call or a return moves the depth by one, and as long as the depth is bounded the slot it uses exists
(`call?_follows`, `ret?_follows`).
-/

namespace ChipEight

open Checked

namespace Stored

/-- The checked run did not trap, and it ended in a bounded state of the machine that the run on
the machine ended in. -/
def Follows (run : Option (Outcome Stored)) (o : Outcome Machine) : Prop :=
  ∃ o', run = some o' ∧ o'.map machine = o ∧ o'.value.Bounded

variable {s : Stored}

@[simp] theorem bus_machine (s : Stored) : s.machine.bus = s.bus := rfl
@[simp] theorem index_machine (s : Stored) : s.machine.index = s.index := rfl

theorem machine_adopt {m : Machine} (h : m.stack = s.machine.stack) : (s.adopt m).machine = m := by
  obtain ⟨bus, registers, pc, index, stack, delay, sound⟩ := m
  subst h
  rfl

theorem follows_adopt (hs : s.Bounded) {o : Outcome Machine}
    (h : o.value.stack = s.machine.stack) : Follows (some (o.map s.adopt)) o := by
  refine ⟨_, rfl, ?_, hs⟩
  unfold Outcome.map
  simp only [machine_adopt h]

/-! ## Registers -/

theorem reg?_eq (x : Nibble) (s : Stored) : s.reg? x = some (s.machine.reg x) := by
  unfold reg?
  rw [index?_eq_some x.isLt]
  rfl

theorem setReg?_eq (x : Nibble) (byte : Byte) (s : Stored) :
    s.setReg? x byte = some (s.adopt (s.machine.setReg x byte)) := by
  unfold setReg?
  rw [index?_eq_some x.isLt]
  rfl

theorem setFlag?_eq (flag : Bool) (s : Stored) :
    s.setFlag? flag = some (s.adopt (s.machine.setFlag flag)) := setReg?_eq _ _ s

theorem holds?_eq (t : Test) (s : Stored) : s.holds? t = some (t.holds s.machine) := by
  cases t with
  | equalsByte x n | differsByte x n | keyDown x | keyUp x =>
    rw [holds?, reg?_eq]
    rfl
  | equals x y | differs x y =>
    rw [holds?, reg?_eq, reg?_eq]
    rfl

theorem skip?_eq (t : Test) (s : Stored) : s.skip? t = some (s.adopt (s.machine.skip t)) := by
  unfold skip? Machine.skip
  rw [holds?_eq]
  cases t.holds s.machine <;> rfl

theorem result?_eq (op : RegisterOp) (a b : Byte) : result? op a b = some (op.result a b) := by
  cases op with
  | shiftRight => exact shiftRight?_eq_some a (by decide)
  | shiftLeft => exact shiftLeft?_eq_some a (by decide)
  | copy | or | and | xor | add | subtract | subtractFrom => rfl

theorem flag?_eq (op : RegisterOp) (a b : Byte) : flag? op a b = some (op.flag? a b) := by
  cases op with
  | shiftLeft =>
    have htop : (a >>> 7).getLsbD 0 = a.getMsbD 0 := by
      rw [BitVec.getLsbD_ushiftRight, BitVec.getMsbD_eq_getLsbD]
      rfl
    unfold flag?
    simp only [shiftRight?_eq_some a (show 7 < 8 by decide), Option.bind_eq_bind, Option.bind_some,
      htop]
    rfl
  | copy | or | and | xor | add | subtract | shiftRight | subtractFrom => rfl

theorem combine?_eq (op : RegisterOp) (x y : Nibble) (s : Stored) :
    s.combine? op x y = some (s.adopt (s.machine.combine op x y)) := by
  unfold combine? Machine.combine
  simp only [reg?_eq, flag?_eq, result?_eq, setReg?_eq, Option.bind_eq_bind, Option.bind_some]
  cases op.flag? (s.machine.reg x) (s.machine.reg y) with
  | none => rfl
  | some flag => exact setFlag?_eq flag _

theorem awaitKey?_eq (x : Nibble) (s : Stored) :
    s.awaitKey? x = some (s.adopt (s.machine.awaitKey x)) := by
  unfold awaitKey? Machine.awaitKey
  rw [bus_machine]
  cases s.bus.keypad.pressed? with
  | some key => exact setReg?_eq x key s
  | none => rfl

theorem pointGlyph?_eq (x : Nibble) (s : Stored) :
    s.pointGlyph? x = some (s.adopt (s.machine.pointTo (Glyph.address (s.machine.reg x)))) := by
  have hsmall : (s.machine.reg x).toNat % 16 * Glyph.height < hostLimit := by
    unfold Glyph.height hostLimit
    omega
  have hsum := sum?_eq_some (a := 0) (b := (s.machine.reg x).toNat % 16 * Glyph.height)
    (by rwa [Nat.zero_add])
  have hdigit : (s.machine.reg x).toNat % 16 = (s.machine.reg x).lowNibble.toNat := by
    rw [Byte.lowNibble, BitVec.toNat_setWidth]
  unfold pointGlyph? Glyph.address
  rw [← hdigit]
  simp only [reg?_eq, product?_eq_some hsmall, hsum, Option.bind_eq_bind, Option.bind_some,
    Nat.zero_add]
  rfl

theorem draw?_eq (x y height : Nibble) (s : Stored) :
    s.draw? x y height = some ((s.machine.draw x y height).map s.adopt) := by
  have hheight : height.toNat ≤ 16 := Nat.le_of_lt height.isLt
  unfold draw? Machine.draw
  simp only [reg?_eq, draw_eq _ _ _ s.bus hheight, Option.bind_eq_bind, Option.bind_some,
    bus_machine, index_machine]
  cases s.bus.draw (s.machine.reg x) (s.machine.reg y) s.index height.toNat with
  | error f => rfl
  | ok drawn =>
    simp only [setFlag?_eq, Option.bind_some]
    rfl

/-! ## Rows of accesses -/

theorem storeBytes_eq (done : Nat) (address : Word) (bytes : List Byte) (b : Bus) :
    storeBytes address bytes b = some (b.storeFrom done address bytes).toOutcome := by
  induction bytes generalizing done address b with
  | nil => rfl
  | cons byte rest ih =>
    rw [storeBytes, Bus.storeFrom, write_eq]
    cases b.write address byte with
    | ok b' => exact ih (done + 1) (address + 1) b'
    | error f => rfl

/-- Writing registers one by one writes the row of them. -/
theorem storeRegisters_eq (s : Stored) (done n left : Nat) (b : Bus) (h : n + left ≤ 16) :
    s.storeRegisters n left b = some (b.storeFrom done (s.index + BitVec.ofNat 16 n)
      ((s.registers.toList.drop n).take left)).toOutcome := by
  induction left generalizing done n b with
  | zero => rfl
  | succ left ih =>
    have hn : n < s.registers.toList.length := by
      rw [Vector.length_toList]
      omega
    rw [storeRegisters, index?_eq_some (show n < 16 by omega), List.drop_eq_getElem_cons hn,
      List.take_succ_cons, Bus.storeFrom, Vector.getElem_toList]
    simp only [Option.bind_eq_bind, Option.bind_some, write_eq, Fin.getElem_fin,
      ← Word.add_ofNat_succ]
    cases b.write (s.index + BitVec.ofNat 16 n) s.registers[n] with
    | ok b' => exact ih (done + 1) (n + 1) b' (by omega)
    | error f => rfl

/-- Reading registers one by one lays the row of bytes over them. -/
theorem loadRegisters_eq (s : Stored) (n left : Nat) (registers : Bank 16) (h : n + left ≤ 16) :
    s.loadRegisters n left registers =
      some ((s.bus.load (s.index + BitVec.ofNat 16 n) left).map fun bytes =>
        registers.overlay n bytes.toArray) := by
  induction left generalizing n registers with
  | zero =>
    exact congrArg (fun bank => some (Outcome.success bank)) (Bank.overlay_nil n registers).symm
  | succ left ih =>
    rw [loadRegisters, read_eq, Bus.load, ← Word.add_ofNat_succ]
    simp only [Option.bind_eq_bind, Option.bind_some, index?_eq_some (show n < 16 by omega)]
    cases s.bus.read (s.index + BitVec.ofNat 16 n) with
    | error f =>
      exact congrArg (fun bank => some (Outcome.failure bank f)) (Bank.overlay_nil n registers).symm
    | ok byte =>
      simp only
      rw [ih (n + 1) _ (by omega)]
      unfold Outcome.map
      simp only [Bank.overlay_cons _ _ registers (show n < 16 by omega)]

/-! ## Instructions -/

/-- Whatever an instruction other than a call or a return does, is taken over. -/
theorem perform?_eq_adopt (noise : Byte) (i : Instruction) (s : Stored)
    (hcall : ∀ target, i ≠ .call target) (hret : i ≠ .ret) :
    s.perform? noise i = some ((s.machine.perform noise i).map s.adopt) := by
  cases i with
  | call target => exact absurd rfl (hcall target)
  | ret => exact absurd rfl hret
  | skip test => rw [perform?, skip?_eq]; rfl
  | combine op x y => rw [perform?, combine?_eq]; rfl
  | draw x y height => exact draw?_eq x y height s
  | awaitKey x => rw [perform?, awaitKey?_eq]; rfl
  | pointGlyph x => rw [perform?, pointGlyph?_eq]; rfl
  | load | random | readDelay => rw [perform?, setReg?_eq]; rfl
  | addByte => simp only [perform?, reg?_eq, setReg?_eq, Option.bind_eq_bind, Option.bind_some]; rfl
  | jumpOffset | advance | setDelay | setSound => rw [perform?, reg?_eq]; rfl
  | storeDecimal x =>
    simp only [perform?, reg?_eq, storeBytes_eq 0, Option.bind_eq_bind, Option.bind_some]
    rfl
  | storeRegisters x =>
    have hx : 0 + (x.toNat + 1) ≤ 16 := by have := x.isLt; omega
    simp only [perform?, storeRegisters_eq s 0 0 _ s.bus hx, Option.bind_eq_bind, Option.bind_some,
      BitVec.add_zero, List.drop_zero]
    rfl
  | loadRegisters x =>
    have hx : 0 + (x.toNat + 1) ≤ 16 := by have := x.isLt; omega
    simp only [perform?, loadRegisters_eq s 0 _ s.registers hx, Option.bind_eq_bind,
      Option.bind_some, BitVec.add_zero]
    rfl
  | clear | jump | point => rfl

theorem length_stack_machine (hs : s.Bounded) : s.machine.stack.length = s.depth := by
  unfold Bounded callDepthLimit at hs
  show ((s.slots.toList.take s.depth).reverse).length = s.depth
  rw [List.length_reverse, List.length_take, Vector.length_toList]
  omega

/-- A call finds a free slot, since fewer calls may be open than there are slots. -/
theorem call?_follows (target : Address) (hs : s.Bounded) :
    Follows (s.call? target) (s.machine.call target) := by
  unfold call? Machine.call
  rw [length_stack_machine hs]
  by_cases hfull : callDepthLimit ≤ s.depth
  · rw [if_pos hfull, if_neg (Nat.not_lt.2 hfull)]
    exact ⟨_, rfl, rfl, hs⟩
  · have hfree : s.depth < callDepthLimit := Nat.lt_of_not_le hfull
    have hslot : s.depth < 16 := by unfold callDepthLimit at hfree; omega
    have hnext : sum? s.depth 1 = some (s.depth + 1) :=
      sum?_eq_some (by unfold hostLimit; omega)
    have hstack : ((s.slots.set s.depth s.pc).toList.take (s.depth + 1)).reverse =
        s.pc :: s.machine.stack := by
      rw [take_set_succ, List.reverse_append]
      rfl
    rw [if_neg hfull, if_pos hfree, index?_eq_some hslot, hnext]
    refine ⟨_, rfl, ?_, hfree⟩
    exact congrArg (fun stack => Outcome.success { s.machine with stack, pc := target.toWord })
      hstack

/-- A return finds the slot of the latest call. -/
theorem ret?_follows (hs : s.Bounded) : Follows s.ret? s.machine.ret := by
  have hlength := length_stack_machine hs
  unfold ret? Machine.ret
  cases hdepth : s.depth with
  | zero =>
    have hstack : s.machine.stack = [] := List.length_eq_zero_iff.1 (hlength.trans hdepth)
    rw [difference?_eq_none (Nat.zero_lt_one), hstack]
    exact ⟨_, rfl, rfl, hs⟩
  | succ depth =>
    have hslot : depth < 16 := by unfold Bounded callDepthLimit at hs; omega
    have hstack : s.machine.stack = s.slots[depth] :: (s.slots.toList.take depth).reverse := by
      show (s.slots.toList.take s.depth).reverse = _
      rw [hdepth, List.take_add_one, List.getElem?_eq_getElem (by simpa using hslot),
        Vector.getElem_toList]
      simp
    have hone : difference? (depth + 1) 1 = some depth :=
      difference?_eq_some (Nat.le_add_left 1 depth)
    rw [hone, hstack]
    refine ⟨.success { s with depth, pc := s.slots[depth] }, ?_, rfl, ?_⟩
    · simp only [index?_eq_some hslot, Option.bind_eq_bind, Option.bind_some]
      rfl
    · show depth ≤ callDepthLimit
      unfold Bounded at hs
      omega

/-- **Instructions do not trap**, and keep the depth bounded. -/
theorem perform?_follows (noise : Byte) (i : Instruction) (hs : s.Bounded) :
    Follows (s.perform? noise i) (s.machine.perform noise i) := by
  by_cases hcall : ∃ target, i = .call target
  · obtain ⟨target, rfl⟩ := hcall
    exact call?_follows target hs
  by_cases hret : i = .ret
  · subst hret
    exact ret?_follows hs
  have hcall' : ∀ target, i ≠ .call target := fun target e => hcall ⟨target, e⟩
  rw [perform?_eq_adopt noise i s hcall' hret]
  exact follows_adopt hs (Machine.stack_perform noise i s.machine hcall' hret)

/-! ## Ticks -/

theorem step?_follows (noise : Byte) (hs : s.Bounded) :
    Follows (s.step? noise) (s.machine.step noise) := by
  have hfetch : s.machine.fetch = s.bus.readWord s.pc := rfl
  unfold step? Machine.step
  rw [readWord_eq, hfetch]
  cases s.bus.readWord s.pc with
  | error f => exact ⟨_, rfl, rfl, hs⟩
  | ok word =>
    simp only [Option.bind_eq_bind, Option.bind_some]
    cases Instruction.decode word with
    | error f => exact ⟨_, rfl, rfl, hs⟩
    | ok i => exact perform?_follows (s := s.goTo (s.pc + 2)) noise i hs

theorem tick?_follows (noise : Byte) (hs : s.Bounded) :
    Follows (s.tick? noise) (s.machine.tick noise) := by
  obtain ⟨o, hrun, ho, hbounded⟩ := step?_follows noise hs
  unfold tick? Machine.tick
  rw [hrun, ← ho]
  refine ⟨_, rfl, ?_, ?_⟩
  · unfold Outcome.andThen
    rw [Outcome.fault_map]
    cases hf : o.fault with
    | none => rfl
    | some f => rfl
  · unfold Outcome.andThen
    cases hf : o.fault with
    | none => exact hbounded
    | some f => exact hbounded

end Stored

end ChipEight
