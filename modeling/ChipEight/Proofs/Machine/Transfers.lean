import ChipEight.Proofs.Bus.Blocks
import ChipEight.Proofs.Machine.Frame

/-!
# Moving registers to memory and back

1. Registers that fit are stored as a block that the bus holds from the index on, and nothing else
   changes (`stores_store`).
2. A block that the bus holds is loaded into the first registers, as many as were asked for, and
   into no others (`loadRegisters_of_holds`, `reg_setFirstRegs_take`).
3. So registers that were stored come back, and the digits of a register make it up again
   (`transfers_round_trip`).
-/

namespace ChipEight

/-! ## Decimal digits -/

namespace Byte

theorem toNat_hundreds (b : Byte) : (b / 100).toNat = b.toNat / 100 := BitVec.toNat_udiv

theorem toNat_tens (b : Byte) : (b / 10 % 10).toNat = b.toNat / 10 % 10 := by
  rw [BitVec.toNat_umod, BitVec.toNat_udiv]
  rfl

theorem toNat_ones (b : Byte) : (b % 10).toNat = b.toNat % 10 := BitVec.toNat_umod

end Byte

namespace Machine

variable {m : Machine} {x z : Nibble} {bytes : List Byte}

/-! ## The first registers -/

theorem getElem?_firstRegs {k : Nibble} (h : k ≤ x) (m : Machine) :
    (m.firstRegs x)[k.toNat]? = some (m.reg k) := by
  rw [BitVec.le_def] at h
  have hk : k.toNat < 16 := k.isLt
  rw [firstRegs, List.getElem?_take, if_pos (by omega), Vector.getElem?_toList,
    Vector.getElem?_eq_getElem hk]
  rfl

/-- Registers up to `z` take a byte each, and the others are kept. -/
theorem reg_setFirstRegs_take (k : Nibble) (m : Machine) :
    (m.setFirstRegs (bytes.take (z.toNat + 1))).reg k =
      if k ≤ z then bytes[k.toNat]?.getD (m.reg k) else m.reg k := by
  rw [reg_setFirstRegs, List.getElem?_take]
  by_cases hk : k ≤ z
  · rw [if_pos hk, if_pos (Nat.lt_succ_of_le (BitVec.le_def.1 hk))]
  · rw [if_neg hk, if_neg fun h => hk (BitVec.le_def.2 (Nat.le_of_lt_succ h))]
    rfl

/-! ## Storing and loading -/

theorem fault_store_of_fits (h : m.index.toNat + bytes.length ≤ 0x1000) :
    (m.store bytes).fault = none :=
  (Bus.fault_store_eq m.index bytes m.bus).trans (Bus.rowFault_eq_none_iff.2 (Or.inr h))

theorem loadRegisters_of_holds (h : m.bus.Holds m.index bytes) (hz : z.toNat < bytes.length) :
    m.loadRegisters z = .success (m.setFirstRegs (bytes.take (z.toNat + 1))) := by
  rw [loadRegisters, Bus.load_of_holds h hz]
  rfl

/-! ## Registers there and back -/

/-- `m'` is `m` with registers 0 to `x` stored at the index. -/
structure Stores (x : Nibble) (m m' : Machine) : Prop where
  /-- The cells from the index on hold the registers. -/
  held (k : Nibble) (h : k ≤ x) : m'.bus.read (m.index + k.setWidth 16) = .ok (m.reg k)
  /-- All other cells hold what they held. -/
  elsewhere (a : Word) (h : ∀ k ≤ x, a ≠ m.index + k.setWidth 16) : m'.bus.read a = m.bus.read a
  /-- Nothing but the bus has changed. -/
  others : m' = m.withBus m'.bus

/-- `m''` is `m'` with registers 0 to `z` as they are in `m`. -/
structure TakesBack (z : Nibble) (m m' m'' : Machine) : Prop where
  back (k : Nibble) (h : k ≤ z) : m''.reg k = m.reg k
  above (k : Nibble) (h : z < k) : m''.reg k = m'.reg k
  /-- Nothing but registers has changed. -/
  others : { m'' with registers := m'.registers } = m'

/-- An address that is not `k` after the index for any register `k` up to `x` is below the index or
past the row. -/
theorem outside_of_ne {a : Word} (hfits : m.index.toNat + x.toNat + 1 ≤ 0x1000)
    (h : ∀ k ≤ x, a ≠ m.index + k.setWidth 16) :
    a.toNat < m.index.toNat ∨ m.index.toNat + (x.toNat + 1) ≤ a.toNat := by
  by_cases hin : m.index.toNat ≤ a.toNat ∧ a.toNat < m.index.toNat + (x.toNat + 1)
  · have hx := x.isLt
    have hk : a.toNat - m.index.toNat < 16 := by omega
    refine absurd ?_ (h (BitVec.ofNatLT (a.toNat - m.index.toNat) hk) ?_)
    · apply BitVec.eq_of_toNat_eq
      rw [BitVec.toNat_add, BitVec.toNat_setWidth, BitVec.toNat_ofNatLT]
      omega
    · rw [BitVec.le_def, BitVec.toNat_ofNatLT]
      omega
  · omega

theorem stores_store (hfits : m.index.toNat + x.toNat + 1 ≤ 0x1000) :
    m.Stores x (m.store (m.firstRegs x)).value where
  held k h := by
    have hlength := length_firstRegs x m
    have hholds : (m.store (m.firstRegs x)).value.bus.Holds m.index (m.firstRegs x) :=
      Bus.holds_store (by omega) m.bus
    have hbyte := hholds k.toNat (by rw [hlength]; exact Nat.lt_succ_of_le (BitVec.le_def.1 h))
    rw [BitVec.ofNat_toNat] at hbyte
    refine hbyte.trans (congrArg Except.ok (Option.some.inj ?_))
    rw [← List.getElem?_eq_getElem, getElem?_firstRegs h]
  elsewhere a h := by
    have houtside := outside_of_ne hfits h
    rw [← length_firstRegs x m] at houtside
    exact Bus.read_store_of_not_mem houtside m.bus
  others := rfl

/-- What is loaded are the registers that were stored, whatever the registers are by then. -/
theorem loadRegisters_of_view {m' : Machine} (hz : z ≤ x)
    (hfits : m.index.toNat + x.toNat + 1 ≤ 0x1000)
    (hview : m'.bus.view = (m.store (m.firstRegs x)).value.bus.view)
    (hindex : m'.index = m.index) :
    ∃ m'', m'.loadRegisters z = .success m'' ∧ TakesBack z m m' m'' := by
  have hlength := length_firstRegs x m
  have hle := BitVec.le_def.1 hz
  have hholds : m'.bus.Holds m'.index (m.firstRegs x) := by
    rw [hindex]
    exact (Bus.holds_store (by omega) m.bus).congr_view hview
  refine ⟨_, loadRegisters_of_holds hholds (by omega), ?_, ?_, ?_⟩
  · intro k h
    rw [reg_setFirstRegs_take, if_pos h, getElem?_firstRegs (BitVec.le_trans h hz),
      Option.getD_some]
  · intro k h
    rw [reg_setFirstRegs_take, if_neg (BitVec.not_le.2 h)]
  · rw [setFirstRegs]

/-! ## Digits there and back -/

theorem loadRegisters_of_digits {b : Byte} (hfits : m.index.toNat + 3 ≤ 0x1000) :
    (m.store b.decimalDigits).value.loadRegisters 2 =
      .success ((m.store b.decimalDigits).value.setFirstRegs b.decimalDigits) := by
  have hlength : b.decimalDigits.length = 3 := rfl
  have hholds : (m.store b.decimalDigits).value.bus.Holds m.index b.decimalDigits :=
    Bus.holds_store (hlength.symm ▸ hfits) m.bus
  have htwo : (2 : Nibble).toNat < b.decimalDigits.length := Nat.lt_succ_self 2
  have hload := loadRegisters_of_holds (m := (m.store b.decimalDigits).value) hholds htwo
  rwa [List.take_of_length_le (Nat.le_refl 3)] at hload

theorem reg_setFirstRegs_digits (b : Byte) (m : Machine) :
    let m' := m.setFirstRegs b.decimalDigits
    (m'.reg 0).toNat = b.toNat / 100 ∧ (m'.reg 1).toNat = b.toNat / 10 % 10 ∧
      (m'.reg 2).toNat = b.toNat % 10 := by
  intro m'
  refine ⟨?_, ?_, ?_⟩
  · rw [reg_setFirstRegs]
    exact b.toNat_hundreds
  · rw [reg_setFirstRegs]
    exact b.toNat_tens
  · rw [reg_setFirstRegs]
    exact b.toNat_ones

/-- **Round trips.**  Registers 0 to `x` that fit between the index and the end of memory are stored
there as they are, whether the cells are memory, picture or keypad, and no other cell changes.  As
long as nothing is stored and the index stays, loading registers 0 to `z` brings them back, for each
`z` up to `x`, and leaves all else as it is.  The decimal digits of a register, stored and loaded
again, are digits and make up what the register held before, also where it is one of the loaded
registers. -/
theorem transfers_round_trip (noise noise' : Byte) (m : Machine) :
    (∀ x z : Nibble, z ≤ x → m.index.toNat + x.toNat + 1 ≤ 0x1000 →
      let stored := m.perform noise (.storeRegisters x)
      stored.fault = none ∧ m.Stores x stored.value ∧
        ∀ m' : Machine, m'.bus.view = stored.value.bus.view → m'.index = m.index →
          let loaded := m'.perform noise' (.loadRegisters z)
          loaded.fault = none ∧ TakesBack z m m' loaded.value) ∧
      ∀ x : Nibble, m.index.toNat + 3 ≤ 0x1000 →
        let loaded := (m.perform noise (.storeDecimal x)).andThen fun stored =>
          stored.perform noise' (.loadRegisters 2)
        let digit := fun k => (loaded.value.reg k).toNat
        loaded.fault = none ∧ digit 0 ≤ 9 ∧ digit 1 ≤ 9 ∧ digit 2 ≤ 9 ∧
          100 * digit 0 + 10 * digit 1 + digit 2 = (m.reg x).toNat := by
  constructor
  · intro x z hz hfits stored
    have hlength := length_firstRegs x m
    refine ⟨fault_store_of_fits (by omega), stores_store hfits, ?_⟩
    intro m' hview hindex loaded
    obtain ⟨m'', hload, hback⟩ := loadRegisters_of_view hz hfits hview hindex
    have hloaded : loaded = .success m'' := hload
    rw [hloaded]
    exact ⟨rfl, hback⟩
  · intro x hfits loaded digit
    have hfault : (m.store (m.reg x).decimalDigits).fault = none := fault_store_of_fits hfits
    have hloaded : loaded = .success ((m.store (m.reg x).decimalDigits).value.setFirstRegs
        (m.reg x).decimalDigits) := by
      rw [← loadRegisters_of_digits hfits]
      show (m.store _).andThen _ = _
      rw [Outcome.andThen, hfault]
      rfl
    have hbyte := (m.reg x).isLt
    obtain ⟨hhundreds, htens, hones⟩ :=
      reg_setFirstRegs_digits (m.reg x) (m.store (m.reg x).decimalDigits).value
    simp only [digit, hloaded, Outcome.value_success, hhundreds, htens, hones]
    exact ⟨rfl, by omega, by omega, by omega, by omega⟩

/-- Registers 0 to 5 go into the last two cells of the picture, into the keypad with a flag that
stands for neither up nor down, and into the next two cells. -/
theorem transfers_round_trip_across_keypad :
    let m := ((new.pointTo 0x14E).setReg 2 0x12).setReg 3 0x0B
    let stored := (m.perform 0 (.storeRegisters 5)).value
    let m' := (stored.setReg 2 0xAA).setReg 5 0xBB
    m.index.toNat + (5 : Nibble).toNat + 1 ≤ 0x1000 ∧ m.Stores 5 stored ∧
      stored.bus.keypad = ⟨0x12, 0x0B⟩ ∧ m'.bus.view = stored.bus.view ∧
      TakesBack 4 m m' (m'.perform 0 (.loadRegisters 4)).value := by
  intro m stored m'
  have hround := (transfers_round_trip 0 0 m).1 5 4 (by decide) (by decide)
  exact ⟨by decide, hround.2.1, by decide +kernel, rfl, (hround.2.2 m' rfl rfl).2⟩

end Machine

end ChipEight
