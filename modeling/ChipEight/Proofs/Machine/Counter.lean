import ChipEight.Proofs.Machine.Faults

/-!
# The program counter

1. An instruction leaves the counter alone, jumps to an address of twelve bits with at most a byte
   added, goes back to a caller, or moves by two (`goesTo_perform`); what it puts on the stack is
   the counter (`mem_stack_perform`).
2. Past a word that was fetched the counter is between 2 and 0x1000, so every tick leaves the
   counter and the stack in range (`InRange.tick`), and so does whatever else does not steer.
3. An exact tick computes on the counter without coming round, or else has no result.  In range it
   has one, and that is the tick (`exactTick?_eq`).
-/

namespace ChipEight

/-- The operation puts the counter somewhere itself, or carries out an instruction that the counter
need not point past. -/
def Operation.Steers : Operation → Prop
  | .goTo _ => True
  | .perform _ _ => True
  | _ => False

namespace Word

/-- The sum, if a word can hold it. -/
def sum? (a b : Word) : Option Word := if a.toNat + b.toNat < 0x10000 then some (a + b) else none

/-- The difference, if it is not negative. -/
def difference? (a b : Word) : Option Word := if b.toNat ≤ a.toNat then some (a - b) else none

theorem toNat_sub_two_le {a : Word} (h : 2 ≤ a.toNat) : (a - 2).toNat ≤ a.toNat := by
  rw [BitVec.toNat_sub_of_le h]
  exact Nat.sub_le _ _

end Word

namespace Machine

variable {m : Machine} {noise : Byte} {i : Instruction}

/-! ## Ticks that compute exactly -/

/-- The word at the program counter. -/
def exactFetch? (m : Machine) : Option (Except Fault Word) := do
  match m.bus.read m.pc with
  | .error f => return .error f
  | .ok high =>
    match m.bus.read (← Word.sum? m.pc 1) with
    | .error f => return .error f
    | .ok low => return .ok (.ofBytes high low)

def exactSkip? (t : Test) (m : Machine) : Option Machine := do
  if t.holds m then return m.goTo (← Word.sum? m.pc 2) else return m

def exactAwaitKey? (x : Nibble) (m : Machine) : Option Machine := do
  match m.bus.keypad.pressed? with
  | some key => return m.setReg x key
  | none => return m.goTo (← Word.difference? m.pc 2)

/-- Carries out an instruction.  Those that are not named do not compute on the counter. -/
def exactPerform? (noise : Byte) (i : Instruction) (m : Machine) : Option (Outcome Machine) :=
  match i with
  | .jumpOffset base => do
    return .success (m.goTo (← Word.sum? base.toWord ((m.reg 0).setWidth 16)))
  | .skip t => do return .success (← m.exactSkip? t)
  | .awaitKey x => do return .success (← m.exactAwaitKey? x)
  | i => some (m.perform noise i)

/-- Runs one instruction and lowers the timers. -/
def exactTick? (noise : Byte) (m : Machine) : Option (Outcome Machine) := do
  match ← m.exactFetch? with
  | .error f => return .failure m f
  | .ok word =>
    let past := m.goTo (← Word.sum? m.pc 2)
    match Instruction.decode word with
    | .error f => return .failure past f
    | .ok i => return (← past.exactPerform? noise i).andThen fun ran => .success ran.lowerTimers

/-! ## What an instruction does to the counter -/

theorem pc_setFirstRegs (bytes : List Byte) (m : Machine) : (m.setFirstRegs bytes).pc = m.pc := by
  rw [setFirstRegs]

/-- Where the counter may be after an instruction. -/
inductive GoesTo (m : Machine) : Instruction → Word → Prop where
  | stay (i : Instruction) : GoesTo m i m.pc
  | jump (target : Address) : GoesTo m (.jump target) target.toWord
  | jumpOffset (base : Address) :
    GoesTo m (.jumpOffset base) (base.toWord + (m.reg 0).setWidth 16)
  | call (target : Address) : GoesTo m (.call target) target.toWord
  | ret {caller : Word} (h : caller ∈ m.stack) : GoesTo m .ret caller
  | skip (t : Test) : GoesTo m (.skip t) (m.pc + 2)
  | awaitKey (x : Nibble) : GoesTo m (.awaitKey x) (m.pc - 2)

theorem goesTo_perform (noise : Byte) (i : Instruction) (m : Machine) :
    m.GoesTo i (m.perform noise i).value.pc := by
  cases i with
  | jump target => exact .jump target
  | jumpOffset base => exact .jumpOffset base
  | call target =>
    simp only [perform, call]
    split
    · exact .call target
    · exact .stay _
  | ret =>
    show m.GoesTo .ret m.ret.value.pc
    unfold ret
    cases hstack : m.stack with
    | nil => exact .stay _
    | cons caller older => exact .ret (by rw [hstack]; exact List.mem_cons_self)
  | skip t =>
    simp only [perform, skip]
    split
    · exact .skip t
    · exact .stay _
  | awaitKey x =>
    simp only [perform, awaitKey]
    split
    · exact .stay _
    · exact .awaitKey x
  | combine op x y =>
    obtain ⟨bank, h⟩ := combine_eq op x y m
    show m.GoesTo _ (m.combine op x y).pc
    rw [h]
    exact .stay _
  | draw x y height =>
    simp only [perform, draw]
    split <;> exact .stay _
  | loadRegisters x =>
    show m.GoesTo _ (m.loadRegisters x).value.pc
    rw [loadRegisters, Outcome.value_map, pc_setFirstRegs]
    exact .stay _
  | clear | load | addByte | point | advance | random | readDelay | setDelay | setSound | pointGlyph
  | storeDecimal | storeRegisters => exact .stay _

/-- Nothing but the counter is put on the stack. -/
theorem mem_stack_perform {caller : Word} (h : caller ∈ (m.perform noise i).value.stack) :
    caller ∈ m.stack ∨ caller = m.pc := by
  by_cases hcall : ∃ target, i = .call target
  · obtain ⟨target, rfl⟩ := hcall
    simp only [perform, call] at h
    split at h
    · exact (List.mem_cons.1 h).symm
    · exact Or.inl h
  by_cases hret : i = .ret
  · subst hret
    simp only [perform, ret] at h
    split at h
    · rename_i hopen
      rw [hopen]
      exact Or.inl (List.mem_cons_of_mem _ h)
    · exact Or.inl h
  · rw [stack_perform noise i m (fun target e => hcall ⟨target, e⟩) hret] at h
    exact Or.inl h

/-! ## The range of the counter -/

/-- The greatest counter is that of a jump to the last address with the greatest byte added.  A
caller is just past a call. -/
structure InRange (m : Machine) : Prop where
  pc : m.pc.toNat ≤ 0x10FE
  stack : ∀ caller ∈ m.stack, 0x002 ≤ caller.toNat ∧ caller.toNat ≤ 0x1000

theorem programStart_in_range : (BitVec.ofNat 16 Bus.programStart).toNat ≤ 0x10FE := by decide

theorem InRange.fresh (keypad : Keypad) : (Machine.fresh keypad).InRange :=
  ⟨programStart_in_range, fun _ h => nomatch h⟩

/-- The sum of twelve bits and eight. -/
theorem toNat_offset (base : Address) (byte : Byte) :
    base.toWord.toNat + (byte.setWidth 16).toNat ≤ 0x10FE := by
  have := base.isLt
  have := byte.isLt
  rw [Address.toNat_toWord, BitVec.toNat_setWidth]
  omega

theorem InRange.perform (noise : Byte) (i : Instruction)
    (hstack : ∀ caller ∈ m.stack, 0x002 ≤ caller.toNat ∧ caller.toNat ≤ 0x1000)
    (hlow : 0x002 ≤ m.pc.toNat) (hhigh : m.pc.toNat ≤ 0x1000) :
    (m.perform noise i).value.InRange where
  pc := by
    have h := goesTo_perform noise i m
    generalize (m.perform noise i).value.pc = pc at h ⊢
    cases h with
    | stay => omega
    | jump target | call target =>
      have := target.isLt
      rw [Address.toNat_toWord]
      omega
    | jumpOffset base =>
      have hsum := toNat_offset base (m.reg 0)
      rw [BitVec.toNat_add_of_lt (by omega)]
      exact hsum
    | ret hcaller =>
      have := (hstack _ hcaller).2
      omega
    | skip t =>
      have htwo : (2 : Word).toNat = 2 := rfl
      rw [BitVec.toNat_add_of_lt (by omega)]
      omega
    | awaitKey x =>
      have := Word.toNat_sub_two_le hlow
      omega
  stack caller h := by
    rcases mem_stack_perform h with hold | rfl
    · exact hstack caller hold
    · exact ⟨hlow, hhigh⟩

theorem past_in_range {w : Word} (hw : m.AtPc w) :
    0x002 ≤ (m.pc + 2).toNat ∧ (m.pc + 2).toNat ≤ 0x1000 := by
  have hpast := toNat_past hw
  obtain ⟨hin, -⟩ := hw
  omega

theorem InRange.step (h : m.InRange) (noise : Byte) : (m.step noise).value.InRange := by
  rcases step_cases_of_word noise m with ⟨-, hs⟩ | ⟨w, hw, -, hs⟩ | ⟨w, i, hw, -, hs⟩
  · rw [hs]
    exact h
  · rw [hs]
    exact ⟨Nat.le_trans (past_in_range hw).2 (by decide), h.stack⟩
  · obtain ⟨hlow, hhigh⟩ := past_in_range hw
    rw [hs]
    exact InRange.perform (m := m.goTo (m.pc + 2)) noise i h.stack hlow hhigh

theorem InRange.tick (h : m.InRange) (noise : Byte) : (m.tick noise).value.InRange :=
  tick_induction (h.step noise) fun _ h => ⟨h.pc, h.stack⟩

theorem InRange.withBus (h : m.InRange) (b : Bus) : (m.withBus b).InRange := ⟨h.pc, h.stack⟩

theorem InRange.respond (h : m.InRange) {op : Operation} (hop : ¬ op.Steers) :
    (m.respond op).value.InRange := by
  cases op with
  | goTo target => exact absurd trivial hop
  | perform noise i => exact absurd trivial hop
  | tick noise => exact h.tick noise
  | step noise => exact h.step noise
  | load image =>
    simp only [Machine.respond, loadProgram]
    cases m.bus.loadProgram image with
    | ok b => exact ⟨programStart_in_range, h.stack⟩
    | error f => exact h
  | loadImage image =>
    simp only [Machine.respond]
    cases m.bus.loadProgram image with
    | ok b => exact h.withBus b
    | error f => exact h
  | read address =>
    simp only [Machine.respond]
    cases m.bus.read address <;> exact h
  | readWord address =>
    simp only [Machine.respond]
    cases m.bus.readWord address <;> exact h
  | write address byte =>
    simp only [Machine.respond]
    cases m.bus.write address byte with
    | ok b => exact h.withBus b
    | error f => exact h
  | draw x y address height =>
    simp only [Machine.respond]
    cases m.bus.drawLimited? x y address height with
    | error f => exact h
    | ok drawn =>
      cases drawn with
      | none => exact h
      | some r => exact h.withBus r.1
  | loadGlyphs => exact h.withBus m.bus.loadGlyphs
  | press key => exact h.withBus (m.bus.press key)
  | release => exact h.withBus m.bus.release
  | clear => exact h.withBus m.bus.clear
  | blit x y rows => exact h.withBus { m.bus with display := (m.bus.display.blit x y rows).1 }
  | drain => exact h.withBus { m.bus with display := m.bus.display.drain.2 }
  | lowerTimers | setReg | pointTo => exact ⟨h.pc, h.stack⟩

theorem InRange.after (h : m.InRange) {ops : List Operation} (hops : ∀ op ∈ ops, ¬ op.Steers) :
    (m.after ops).InRange := by
  induction ops generalizing m with
  | nil => exact h
  | cons op rest ih =>
    rw [after_cons]
    exact ih (h.respond (hops op List.mem_cons_self))
      fun op' hop' => hops op' (List.mem_cons_of_mem op hop')

/-! ## In range nothing comes round -/

theorem exactFetch?_eq (h : m.pc.toNat ≤ 0x10FE) : m.exactFetch? = some m.fetch := by
  have hone : (1 : Word).toNat = 1 := rfl
  have hnext : Word.sum? m.pc 1 = some (m.pc + 1) := if_pos (by omega)
  unfold exactFetch? fetch Bus.readWord
  cases m.bus.read m.pc with
  | error f => rfl
  | ok high =>
    simp only [hnext, Option.bind_eq_bind, Option.bind_some]
    cases m.bus.read (m.pc + 1) <;> rfl

theorem exactSkip?_eq (t : Test) (h : m.pc.toNat ≤ 0x1000) : m.exactSkip? t = some (m.skip t) := by
  have htwo : (2 : Word).toNat = 2 := rfl
  have hnext : Word.sum? m.pc 2 = some (m.pc + 2) := if_pos (by omega)
  unfold exactSkip? skip
  split
  · rw [hnext]
    rfl
  · rfl

theorem exactAwaitKey?_eq (x : Nibble) (h : 0x002 ≤ m.pc.toNat) :
    m.exactAwaitKey? x = some (m.awaitKey x) := by
  have hback : Word.difference? m.pc 2 = some (m.pc - 2) := if_pos h
  unfold exactAwaitKey? awaitKey
  cases m.bus.keypad.pressed? with
  | some key => rfl
  | none =>
    simp only [hback]
    rfl

theorem exactPerform?_eq (noise : Byte) (i : Instruction) (hlow : 0x002 ≤ m.pc.toNat)
    (hhigh : m.pc.toNat ≤ 0x1000) : m.exactPerform? noise i = some (m.perform noise i) := by
  cases i with
  | jumpOffset base =>
    have hsum := toNat_offset base (m.reg 0)
    have htarget : Word.sum? base.toWord ((m.reg 0).setWidth 16) =
        some (base.toWord + (m.reg 0).setWidth 16) := if_pos (by omega)
    rw [exactPerform?, htarget]
    rfl
  | skip t =>
    rw [exactPerform?, exactSkip?_eq t hhigh]
    rfl
  | awaitKey x =>
    rw [exactPerform?, exactAwaitKey?_eq x hlow]
    rfl
  | clear | ret | jump | call | load | addByte | combine | point | advance | random | draw
  | readDelay | setDelay | setSound | pointGlyph | storeDecimal | storeRegisters
  | loadRegisters => rfl

/-- A tick whose counter is in range is exact. -/
theorem exactTick?_eq (noise : Byte) (h : m.pc.toNat ≤ 0x10FE) :
    m.exactTick? noise = some (m.tick noise) := by
  have htwo : (2 : Word).toNat = 2 := rfl
  have hpast : Word.sum? m.pc 2 = some (m.pc + 2) := if_pos (by omega)
  unfold exactTick? tick step
  rw [exactFetch?_eq h]
  simp only [Option.bind_eq_bind, Option.bind_some]
  cases hfetch : m.fetch with
  | error f => rfl
  | ok word =>
    obtain ⟨hlow, hhigh⟩ := past_in_range (fetch_eq_ok_iff.1 hfetch)
    simp only [hpast, Option.bind_some]
    cases Instruction.decode word with
    | error f => rfl
    | ok i =>
      have hexact : (m.goTo (m.pc + 2)).exactPerform? noise i =
          some ((m.goTo (m.pc + 2)).perform noise i) := exactPerform?_eq noise i hlow hhigh
      simp only [hexact, Option.bind_some]
      rfl

/-- **The counter stays in range.**  Whatever program is loaded into a fresh machine and whatever is
done to it after that, as long as nobody steers it: neither the counter nor a caller runs away, and
no computation of a tick on the counter comes round. -/
theorem counter_in_range (keypad : Keypad) (image : Array Byte) (ops : List Operation)
    (hops : ∀ op ∈ ops, ¬ op.Steers) (noise : Byte) :
    let m := (fresh keypad).after (.load image :: ops)
    m.pc.toNat ≤ 0x10FE ∧
      (∀ caller ∈ m.stack, 0x002 ≤ caller.toNat ∧ caller.toNat ≤ 0x1000) ∧
      m.exactTick? noise = some (m.tick noise) := by
  intro m
  have hload : ((fresh keypad).respond (.load image)).value.InRange :=
    (InRange.fresh keypad).respond fun h => h
  have hinRange : m.InRange := by
    show ((fresh keypad).after (.load image :: ops)).InRange
    rw [after_cons]
    exact hload.after hops
  exact ⟨hinRange.pc, hinRange.stack, exactTick?_eq noise hinRange.pc⟩

/-- A program that jumps as far as it can and fails there, is written over and ticked on. -/
theorem counter_in_range_farthest_jump :
    let ops : List Operation :=
      [.tick 0, .press 3, .tick 0, .tick 0, .release, .write 0x200 0x12, .tick 0]
    (∀ op ∈ ops, ¬ op.Steers) ∧
      let m := (fresh .idle).after (.load #[0x60, 0xFF, 0xBF, 0xFF] :: ops)
      m.pc.toNat ≤ 0x10FE ∧
        (∀ caller ∈ m.stack, 0x002 ≤ caller.toNat ∧ caller.toNat ≤ 0x1000) ∧
        m.exactTick? 0 = some (m.tick 0) := by
  intro ops
  have h : ∀ op ∈ ops, ¬ op.Steers := by
    simp [ops, Operation.Steers]
  exact ⟨h, counter_in_range .idle #[0x60, 0xFF, 0xBF, 0xFF] ops h 0⟩

end Machine

end ChipEight
