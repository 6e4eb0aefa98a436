import ChipEight.Proofs.Bus.Rows
import ChipEight.Proofs.Flat.Memory

/-!
# Blocks of bytes on the bus

A bus holds a block if its bytes are read from an address on, one after the other, wherever they are
kept.

1. A block that is held is loaded as far as was asked for (`load_of_holds`), and its words are read
   at any place of it (`readWord_of_holds`).
2. A block that was laid over the view is held, and elsewhere the bus is read as before
   (`holds_of_view`, `read_of_view`).  Storing a row and loading a program both lay a block over the
   view.
-/

namespace ChipEight

namespace Bus

/-- The bytes at the addresses from `address` on are `bytes`. -/
def Holds (address : Word) (bytes : List Byte) (b : Bus) : Prop :=
  ∀ (k : Nat) (_ : k < bytes.length), b.read (address + BitVec.ofNat 16 k) = .ok bytes[k]

variable {address : Word} {bytes : List Byte} {b b' : Bus}

/-! ## Reading a block -/

theorem holds_cons {byte : Byte} {rest : List Byte} (h : b.Holds address (byte :: rest)) :
    b.read address = .ok byte ∧ b.Holds (address + 1) rest := by
  constructor
  · have hfirst := h 0 (Nat.succ_pos rest.length)
    rwa [show address + BitVec.ofNat 16 0 = address from BitVec.add_zero address] at hfirst
  · intro k hk
    have hnext := h (k + 1) (Nat.succ_lt_succ hk)
    rwa [Word.add_ofNat_succ, BitVec.add_assoc, BitVec.add_comm (BitVec.ofNat 16 k),
      ← BitVec.add_assoc] at hnext

/-- The block may be longer than what is asked for. -/
theorem load_of_holds (h : b.Holds address bytes) {count : Nat} (hcount : count ≤ bytes.length) :
    b.load address count = .success (bytes.take count) := by
  induction count generalizing address bytes with
  | zero => rw [List.take_zero]; rfl
  | succ count ih =>
    cases bytes with
    | nil => exact absurd hcount (Nat.not_succ_le_zero count)
    | cons byte rest =>
      obtain ⟨hbyte, hrest⟩ := holds_cons h
      rw [load, hbyte]
      simp only [ih hrest (Nat.le_of_succ_le_succ hcount)]
      rfl

theorem readWord_of_holds (h : b.Holds address bytes) {k : Nat} (hk : k + 1 < bytes.length) :
    b.readWord (address + BitVec.ofNat 16 k) = .ok (.ofBytes bytes[k] bytes[k + 1]) := by
  have hhigh := h k (Nat.lt_of_succ_lt hk)
  have hlow := h (k + 1) hk
  rw [Word.add_ofNat_succ] at hlow
  unfold readWord
  simp only [hhigh, hlow]

/-! ## Views -/

/-- Buses that look the same are read the same. -/
theorem read_congr_view (h : b'.view = b.view) (a : Word) : b'.read a = b.read a := by
  rw [← view_read, h, view_read]

theorem Holds.congr_view (h : b.Holds address bytes) (hview : b'.view = b.view) :
    b'.Holds address bytes :=
  fun k hk => (read_congr_view hview _).trans (h k hk)

theorem toNat_add_ofNat {k : Nat} (h : address.toNat + k < 0x1000) :
    (address + BitVec.ofNat 16 k).toNat = address.toNat + k := by
  rw [BitVec.toNat_add, BitVec.toNat_ofNat]
  omega

section Overlay

variable (hview : b'.view = b.view.overlay address.toNat bytes.toArray)

include hview

theorem holds_of_view (hfits : address.toNat + bytes.length ≤ 0x1000) : b'.Holds address bytes := by
  intro k hk
  have haddress := toNat_add_ofNat (show address.toNat + k < 0x1000 by omega)
  have hbyte := Bank.getElem_overlay_of_mem address.toNat bytes.toArray b.view k hk (by omega)
  rw [← hview, getElem_view] at hbyte
  rw [read_eq_ok _ _ (by omega)]
  simp only [haddress, hbyte, List.getElem_toArray]

theorem read_of_view {a : Word}
    (h : a.toNat < address.toNat ∨ address.toNat + bytes.length ≤ a.toNat) :
    b'.read a = b.read a := by
  by_cases ha : a.toNat < 4096
  · have hbyte := Bank.getElem_overlay_of_not_mem address.toNat bytes.toArray b.view a.toNat ha h
    rw [← hview, getElem_view, getElem_view] at hbyte
    rw [read_eq_ok _ _ ha, read_eq_ok _ _ ha, hbyte]
  · rw [read_eq_error _ _ ha, read_eq_error _ _ ha]

end Overlay

/-! ## Rows that were stored -/

/-- The row may cover memory, the picture and the keypad. -/
theorem holds_store (hfits : address.toNat + bytes.length ≤ 0x1000) (b : Bus) :
    (b.store address bytes).value.Holds address bytes :=
  holds_of_view (view_store_eq address bytes b) hfits

theorem read_store_of_not_mem {a : Word}
    (h : a.toNat < address.toNat ∨ address.toNat + bytes.length ≤ a.toNat) (b : Bus) :
    (b.store address bytes).value.read a = b.read a :=
  read_of_view (view_store_eq address bytes b) h

end Bus

end ChipEight
