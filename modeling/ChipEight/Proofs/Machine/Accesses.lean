import ChipEight.Machine.Tick
import ChipEight.Proofs.Bus.Rows

/-!
# The accesses of a tick

A traced tick lists the accesses to the bus that it asks for, in order and with the one that is
refused.  An access has a base, which is the program counter or the index, and an offset; its
address is their sum in sixteen bits, so that it could come round to the bottom of memory.

1. Without its list a traced tick is a tick (`result_tracedTick`).
2. A row goes on only after an access in bounds, so no access is asked for whose sum has come round
   (`straight_tracedTick`).
-/

namespace ChipEight

/-- An access to the place `offset` after `base`. -/
structure Access where
  base : Word
  offset : Nat
deriving Repr, DecidableEq

namespace Access

/-- The address on the bus. -/
def address (a : Access) : Word := a.base + BitVec.ofNat 16 a.offset

/-- The sum of base and offset does not fit into an address. -/
def Wraps (a : Access) : Prop := 0x10000 ≤ a.base.toNat + a.offset

theorem toNat_address {a : Access} (h : ¬ a.Wraps) :
    a.address.toNat = a.base.toNat + a.offset := by
  unfold Wraps at h
  unfold address
  rw [BitVec.toNat_add, BitVec.toNat_ofNat]
  omega

theorem address_zero (base : Word) : address ⟨base, 0⟩ = base := BitVec.add_zero base

theorem address_add_one (base : Word) (offset : Nat) :
    address ⟨base, offset + 1⟩ = address ⟨base, offset⟩ + 1 := Word.add_ofNat_succ base offset

end Access

/-- What was computed, and the accesses that were asked for on the way. -/
structure Traced (α : Type) where
  accesses : List Access
  result : α

namespace Traced

variable {α β : Type}

instance : Monad Traced where
  pure a := ⟨[], a⟩
  bind t next := ⟨t.accesses ++ (next t.result).accesses, (next t.result).result⟩

@[simp] theorem result_pure (a : α) : (pure a : Traced α).result = a := rfl

@[simp] theorem result_bind (t : Traced α) (next : α → Traced β) :
    (t >>= next).result = (next t.result).result := rfl

/-- No access that was asked for has come round. -/
def Straight (t : Traced α) : Prop := ∀ a ∈ t.accesses, ¬ a.Wraps

theorem straight_pure (a : α) : (pure a : Traced α).Straight := fun _ h => nomatch h

theorem Straight.bind {t : Traced α} {next : α → Traced β} (h : t.Straight)
    (h' : (next t.result).Straight) : (t >>= next).Straight := by
  intro a ha
  rcases List.mem_append.1 ha with ha | ha
  · exact h a ha
  · exact h' a ha

end Traced

open Traced

namespace Bus

def tracedRead (a : Access) (b : Bus) : Traced (Except Fault Byte) := ⟨[a], b.read a.address⟩

def tracedWrite (a : Access) (byte : Byte) (b : Bus) : Traced (Except Fault Bus) :=
  ⟨[a], b.write a.address byte⟩

def tracedReadWord (base : Word) (b : Bus) : Traced (Except Fault Word) := do
  match ← b.tracedRead ⟨base, 0⟩ with
  | .error f => return .error f
  | .ok high =>
    match ← b.tracedRead ⟨base, 1⟩ with
    | .error f => return .error f
    | .ok low => return .ok (.ofBytes high low)

def tracedStore (base : Word) : Nat → List Byte → Bus → Traced (Outcome Bus)
  | _, [], b => return .success b
  | offset, byte :: rest, b => do
    match ← b.tracedWrite ⟨base, offset⟩ byte with
    | .ok b' => tracedStore base (offset + 1) rest b'
    | .error f => return .failure b f

def tracedLoad (base : Word) (b : Bus) : Nat → Nat → Traced (Outcome (List Byte))
  | _, 0 => return .success []
  | offset, count + 1 => do
    match ← b.tracedRead ⟨base, offset⟩ with
    | .ok byte => return (← tracedLoad base b (offset + 1) count).map (byte :: ·)
    | .error f => return .failure [] f

/-! ## Rows without their accesses -/

theorem result_tracedReadWord (base : Word) (b : Bus) :
    (b.tracedReadWord base).result = b.readWord base := by
  unfold tracedReadWord readWord tracedRead
  simp only [result_bind, Access.address_zero]
  cases b.read base with
  | error f => rfl
  | ok high =>
    simp only [result_bind]
    rw [show Access.address ⟨base, 1⟩ = base + 1 from Access.address_add_one base 0 ▸ by
      rw [Access.address_zero]]
    cases b.read (base + 1) <;> rfl

theorem result_tracedStore (base : Word) (done offset : Nat) (bytes : List Byte) (b : Bus) :
    (tracedStore base offset bytes b).result =
      (b.storeFrom done (Access.address ⟨base, offset⟩) bytes).toOutcome := by
  induction bytes generalizing done offset b with
  | nil => rfl
  | cons byte rest ih =>
    rw [tracedStore, storeFrom, ← Access.address_add_one]
    simp only [result_bind, tracedWrite]
    cases b.write (Access.address ⟨base, offset⟩) byte with
    | ok b' => exact ih (done + 1) (offset + 1) b'
    | error f => rfl

theorem result_tracedLoad (base : Word) (b : Bus) (offset count : Nat) :
    (b.tracedLoad base offset count).result = b.load (Access.address ⟨base, offset⟩) count := by
  induction count generalizing offset with
  | zero => rfl
  | succ count ih =>
    rw [tracedLoad, load, ← Access.address_add_one]
    simp only [result_bind, tracedRead]
    cases b.read (Access.address ⟨base, offset⟩) with
    | ok byte => simp only [result_bind, result_pure, ih]
    | error f => rfl

/-! ## Rows do not come round -/

/-- Before the access at `offset` a row is at its start or has come from an access in bounds. -/
theorem not_wraps_of_reached {base : Word} {offset : Nat}
    (h : offset = 0 ∨ base.toNat + offset ≤ 4096) : ¬ Access.Wraps ⟨base, offset⟩ := by
  have := base.isLt
  unfold Access.Wraps
  simp only
  omega

/-- After an access in bounds the next one is reached. -/
theorem reached_succ {base : Word} {offset : Nat} (h : offset = 0 ∨ base.toNat + offset ≤ 4096)
    (hin : (Access.address ⟨base, offset⟩).toNat < 4096) :
    offset + 1 = 0 ∨ base.toNat + (offset + 1) ≤ 4096 := by
  rw [Access.toNat_address (not_wraps_of_reached h)] at hin
  simp only at hin
  omega

theorem straight_singleton {α : Type} {a : Access} (h : ¬ a.Wraps) (r : α) :
    (⟨[a], r⟩ : Traced α).Straight := by
  intro a' ha'
  rwa [List.mem_singleton.1 ha']

theorem straight_tracedReadWord (base : Word) (b : Bus) : (b.tracedReadWord base).Straight := by
  have hreached : (0 : Nat) = 0 ∨ base.toNat + 0 ≤ 4096 := Or.inl rfl
  refine (straight_singleton (not_wraps_of_reached hreached) _).bind ?_
  simp only
  by_cases h : (Access.address ⟨base, 0⟩).toNat < 4096
  · rw [read_eq_ok _ b h]
    refine (straight_singleton (not_wraps_of_reached (reached_succ hreached h)) _).bind ?_
    simp only
    cases b.read (Access.address ⟨base, 1⟩) <;> exact straight_pure _
  · rw [read_eq_error _ b h]
    exact straight_pure _

theorem straight_tracedStore {base : Word} {offset : Nat} (bytes : List Byte) (b : Bus)
    (h : offset = 0 ∨ base.toNat + offset ≤ 4096) :
    (tracedStore base offset bytes b).Straight := by
  induction bytes generalizing offset b with
  | nil => exact straight_pure _
  | cons byte rest ih =>
    refine (straight_singleton (not_wraps_of_reached h) _).bind ?_
    simp only
    by_cases hin : (Access.address ⟨base, offset⟩).toNat < 4096
    · rw [write_eq_ok _ byte b hin]
      exact ih _ (reached_succ h hin)
    · rw [write_eq_error _ byte b hin]
      exact straight_pure _

theorem straight_tracedLoad {base : Word} {offset : Nat} (b : Bus) (count : Nat)
    (h : offset = 0 ∨ base.toNat + offset ≤ 4096) :
    (b.tracedLoad base offset count).Straight := by
  induction count generalizing offset with
  | zero => exact straight_pure _
  | succ count ih =>
    refine (straight_singleton (not_wraps_of_reached h) _).bind ?_
    simp only
    by_cases hin : (Access.address ⟨base, offset⟩).toNat < 4096
    · rw [read_eq_ok _ b hin]
      exact (ih (reached_succ h hin)).bind (straight_pure _)
    · rw [read_eq_error _ b hin]
      exact straight_pure _

end Bus

namespace Machine

def tracedDraw (x y height : Nibble) (m : Machine) : Traced (Outcome Machine) := do
  let rows ← m.bus.tracedLoad m.index 0 height.toNat
  match rows.fault with
  | some f => return .failure m f
  | none =>
    let drawn := m.bus.display.blit (m.reg x) (m.reg y) rows.value
    return .success ((m.withBus { m.bus with display := drawn.1 }).setFlag drawn.2)

def tracedStore (bytes : List Byte) (m : Machine) : Traced (Outcome Machine) := do
  return (← Bus.tracedStore m.index 0 bytes m.bus).map m.withBus

/-- Carries out an instruction.  Those that are not named have nothing to do with addresses. -/
def tracedPerform (noise : Byte) (i : Instruction) (m : Machine) : Traced (Outcome Machine) :=
  match i with
  | .draw x y height => m.tracedDraw x y height
  | .storeDecimal x => m.tracedStore (m.reg x).decimalDigits
  | .storeRegisters x => m.tracedStore (m.firstRegs x)
  | .loadRegisters x => do
    return (← m.bus.tracedLoad m.index 0 (x.toNat + 1)).map m.setFirstRegs
  | i => return m.perform noise i

/-- Runs one instruction and lowers the timers. -/
def tracedTick (noise : Byte) (m : Machine) : Traced (Outcome Machine) := do
  match ← m.bus.tracedReadWord m.pc with
  | .error f => return .failure m f
  | .ok word =>
    let past := m.goTo (m.pc + 2)
    match Instruction.decode word with
    | .error f => return .failure past f
    | .ok i => return (← past.tracedPerform noise i).andThen fun ran => .success ran.lowerTimers

/-! ## Ticks without their accesses -/

theorem result_tracedDraw (x y height : Nibble) (m : Machine) :
    (m.tracedDraw x y height).result = m.draw x y height := by
  unfold tracedDraw draw Bus.draw Bus.loadAll
  simp only [result_bind, Bus.result_tracedLoad, Access.address_zero]
  cases (m.bus.load m.index height.toNat).fault <;> rfl

theorem result_tracedStore (bytes : List Byte) (m : Machine) :
    (m.tracedStore bytes).result = m.store bytes := by
  unfold tracedStore store
  simp only [result_bind, result_pure]
  rw [Bus.result_tracedStore m.index 0 0 bytes m.bus, Access.address_zero]
  rfl

theorem result_tracedPerform (noise : Byte) (i : Instruction) (m : Machine) :
    (m.tracedPerform noise i).result = m.perform noise i := by
  cases i with
  | draw x y height => exact result_tracedDraw x y height m
  | storeDecimal x => exact result_tracedStore _ m
  | storeRegisters x => exact result_tracedStore _ m
  | loadRegisters x =>
    show ((m.bus.tracedLoad m.index 0 (x.toNat + 1)).result).map m.setFirstRegs = _
    rw [Bus.result_tracedLoad, Access.address_zero]
    rfl
  | clear | ret | jump | jumpOffset | call | skip | load | addByte | combine | point | advance
  | random | awaitKey | readDelay | setDelay | setSound | pointGlyph => rfl

theorem result_tracedTick (noise : Byte) (m : Machine) :
    (m.tracedTick noise).result = m.tick noise := by
  unfold tracedTick tick step fetch
  simp only [result_bind, Bus.result_tracedReadWord]
  cases m.bus.readWord m.pc with
  | error f => rfl
  | ok word =>
    simp only
    cases Instruction.decode word with
    | error f => rfl
    | ok i =>
      simp only [result_bind, result_pure, result_tracedPerform]

/-! ## Ticks do not come round -/

theorem straight_tracedPerform (noise : Byte) (i : Instruction) (m : Machine) :
    (m.tracedPerform noise i).Straight := by
  cases i with
  | draw x y height =>
    refine (Bus.straight_tracedLoad m.bus height.toNat (Or.inl rfl)).bind ?_
    cases (m.bus.tracedLoad m.index 0 height.toNat).result.fault <;> exact straight_pure _
  | storeDecimal x =>
    exact (Bus.straight_tracedStore _ m.bus (Or.inl rfl)).bind (straight_pure _)
  | storeRegisters x =>
    exact (Bus.straight_tracedStore _ m.bus (Or.inl rfl)).bind (straight_pure _)
  | loadRegisters x =>
    exact (Bus.straight_tracedLoad m.bus _ (Or.inl rfl)).bind (straight_pure _)
  | clear | ret | jump | jumpOffset | call | skip | load | addByte | combine | point | advance
  | random | awaitKey | readDelay | setDelay | setSound | pointGlyph => exact straight_pure _

theorem straight_tracedTick (noise : Byte) (m : Machine) : (m.tracedTick noise).Straight := by
  refine (Bus.straight_tracedReadWord m.pc m.bus).bind ?_
  cases (m.bus.tracedReadWord m.pc).result with
  | error f => exact straight_pure _
  | ok word =>
    simp only
    cases Instruction.decode word with
    | error f => exact straight_pure _
    | ok i => exact (straight_tracedPerform noise i _).bind (straight_pure _)

end Machine

end ChipEight
