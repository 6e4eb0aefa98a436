import ChipEight.Proofs.Bus.View

/-!
# Rows of accesses

A row of accesses goes up from an address, place by place, and ends at the first address that is out
of bounds.

1. A row meets a fault exactly if it reaches past the end of memory, and the fault names the first
   address that is past it (`rowFault`, `toNat_firstRefused`).  A fetch is a row of two.
2. What a row stores is a block laid over the view (`view_store_eq`), and what a row loads is a
   block cut out of the view (`value_load`), as far as it goes.
3. A row that is stored touches memory, the picture and the keypad only where its range meets them
   (`getElem_memory_store`, `display_store`, `keypad_store`).
-/

namespace ChipEight

namespace Bus

/-! ## Where a row is refused -/

/-- The first address out of bounds that a row from `address` on comes to. -/
def firstRefused (address : Word) : Word := if address.toNat < 4096 then 4096 else address

/-- Why a row of `count` accesses from `address` on is refused, if it is. -/
def rowFault (address : Word) (count : Nat) : Option Fault :=
  if 0 < count ∧ 4096 < address.toNat + count then some (.outOfBounds (firstRefused address))
  else none

theorem toNat_firstRefused (address : Word) :
    (firstRefused address).toNat = max address.toNat 0x1000 := by
  unfold firstRefused
  split
  · show 4096 = _
    omega
  · omega

/-- The next address is the next number as long as the row is in bounds. -/
theorem toNat_add_one {address : Word} (h : address.toNat < 4096) :
    (address + 1).toNat = address.toNat + 1 := by
  rw [BitVec.toNat_add]
  show (address.toNat + 1) % 2 ^ 16 = _
  omega

theorem rowFault_zero (address : Word) : rowFault address 0 = none :=
  if_neg fun h => absurd h.1 (Nat.lt_irrefl 0)

theorem rowFault_succ_of_lt {address : Word} (h : address.toNat < 4096) (count : Nat) :
    rowFault address (count + 1) = rowFault (address + 1) count := by
  have hnext := toNat_add_one h
  unfold rowFault
  by_cases hfits : 4096 < address.toNat + (count + 1)
  · have hfirst : firstRefused address = firstRefused (address + 1) := by
      apply BitVec.eq_of_toNat_eq
      rw [toNat_firstRefused, toNat_firstRefused, hnext]
      omega
    rw [if_pos ⟨Nat.succ_pos count, hfits⟩, if_pos (by omega), hfirst]
  · rw [if_neg (fun h' => hfits h'.2), if_neg (by omega)]

theorem rowFault_succ_of_le {address : Word} (h : ¬ address.toNat < 4096) (count : Nat) :
    rowFault address (count + 1) = some (.outOfBounds address) := by
  unfold rowFault firstRefused
  rw [if_pos (by omega), if_neg h]

theorem rowFault_eq_some_iff {address : Word} {count : Nat} {f : Fault} :
    rowFault address count = some f ↔
      0 < count ∧ 4096 < address.toNat + count ∧ f = .outOfBounds (firstRefused address) := by
  unfold rowFault
  split
  · rename_i h
    rw [Option.some.injEq, eq_comm]
    exact ⟨fun e => ⟨h.1, h.2, e⟩, fun e => e.2.2⟩
  · rename_i h
    exact ⟨fun e => (nomatch e), fun e => absurd ⟨e.1, e.2.1⟩ h⟩

theorem rowFault_eq_none_iff {address : Word} {count : Nat} :
    rowFault address count = none ↔ count = 0 ∨ address.toNat + count ≤ 4096 := by
  unfold rowFault
  split
  · rename_i h
    exact ⟨fun e => (nomatch e), fun e => by omega⟩
  · rename_i h
    exact ⟨fun _ => by omega, fun _ => rfl⟩

theorem fault_storeFrom_eq (done : Nat) (address : Word) (bytes : List Byte) (b : Bus) :
    (b.storeFrom done address bytes).fault = rowFault address bytes.length := by
  induction bytes generalizing done address b with
  | nil => exact (rowFault_zero address).symm
  | cons byte rest ih =>
    rw [storeFrom, List.length_cons]
    by_cases h : address.toNat < 4096
    · rw [write_eq_ok address byte b h, rowFault_succ_of_lt h]
      exact ih _ _ _
    · rw [write_eq_error address byte b h, rowFault_succ_of_le h]
      rfl

theorem fault_store_eq (address : Word) (bytes : List Byte) (b : Bus) :
    (b.store address bytes).fault = rowFault address bytes.length :=
  fault_storeFrom_eq 0 address bytes b

theorem fault_load_eq (b : Bus) (address : Word) (count : Nat) :
    (b.load address count).fault = rowFault address count := by
  induction count generalizing address with
  | zero => exact (rowFault_zero address).symm
  | succ count ih =>
    rw [load]
    by_cases h : address.toNat < 4096
    · rw [read_eq_ok address b h, rowFault_succ_of_lt h, Outcome.fault_map]
      exact ih _
    · rw [read_eq_error address b h, rowFault_succ_of_le h]
      rfl

theorem draw_eq_error_iff {x y : Byte} {address : Word} {height : Nat} {b : Bus} {f : Fault} :
    b.draw x y address height = .error f ↔ rowFault address height = some f := by
  unfold draw loadAll
  simp only [fault_load_eq]
  cases rowFault address height with
  | none => exact ⟨fun h => (nomatch h), fun h => (nomatch h)⟩
  | some f' => exact ⟨fun h => by rw [Except.error.inj h], fun h => by rw [Option.some.inj h]⟩

theorem readWord_eq_error_iff {address : Word} {b : Bus} {f : Fault} :
    b.readWord address = .error f ↔ rowFault address 2 = some f := by
  unfold readWord
  by_cases h : address.toNat < 4096
  · rw [read_eq_ok address b h, rowFault_succ_of_lt h]
    by_cases h' : (address + 1).toNat < 4096
    · simp only [read_eq_ok (address + 1) b h', rowFault_succ_of_lt h', rowFault_zero]
      exact ⟨fun e => (nomatch e), fun e => (nomatch e)⟩
    · simp only [read_eq_error (address + 1) b h', rowFault_succ_of_le h']
      exact ⟨fun e => by rw [Except.error.inj e], fun e => by rw [Option.some.inj e]⟩
  · simp only [read_eq_error address b h, rowFault_succ_of_le h]
    exact ⟨fun e => by rw [Except.error.inj e], fun e => by rw [Option.some.inj e]⟩

theorem readWord_eq_ok {address : Word} (h : address.toNat + 1 < 4096) (b : Bus) :
    b.readWord address = .ok (.ofBytes b.view[address.toNat] b.view[address.toNat + 1]) := by
  have hnext := toNat_add_one (show address.toNat < 4096 by omega)
  unfold readWord
  rw [read_eq_ok address b (by omega)]
  simp only [read_eq_ok (address + 1) b (by omega), getElem_view, hnext]

/-! ## What a row stores and loads -/

theorem view_storeFrom_eq (done : Nat) (address : Word) (bytes : List Byte) (b : Bus) :
    (b.storeFrom done address bytes).value.view =
      b.view.overlay address.toNat bytes.toArray := by
  induction bytes generalizing done address b with
  | nil => exact (Bank.overlay_nil _ _).symm
  | cons byte rest ih =>
    rw [storeFrom]
    by_cases h : address.toNat < 4096
    · rw [write_eq_ok address byte b h, Bank.overlay_cons byte rest b.view h]
      show (storeFrom _ _ rest _).value.view = _
      rw [ih, toNat_add_one h, view_setCell]
    · rw [write_eq_error address byte b h]
      apply Vector.ext
      intro i hi
      exact (Bank.getElem_overlay_of_not_mem _ _ _ i hi (Or.inl (by omega))).symm

theorem view_store_eq (address : Word) (bytes : List Byte) (b : Bus) :
    (b.store address bytes).value.view = b.view.overlay address.toNat bytes.toArray :=
  view_storeFrom_eq 0 address bytes b

/-- A row that is loaded ends where memory ends. -/
theorem value_load (b : Bus) (address : Word) (count : Nat) :
    (b.load address count).value = (b.view.toList.drop address.toNat).take count := by
  induction count generalizing address with
  | zero => exact List.take_zero.symm
  | succ count ih =>
    rw [load]
    by_cases h : address.toNat < 4096
    · have hlength : address.toNat < b.view.toList.length := by rwa [Vector.length_toList]
      rw [read_eq_ok address b h, Outcome.value_map, ih, toNat_add_one h,
        List.drop_eq_getElem_cons hlength, List.take_succ_cons, Vector.getElem_toList, getElem_view]
    · rw [read_eq_error address b h, List.drop_eq_nil_of_le (by rw [Vector.length_toList]; omega),
        List.take_nil]
      rfl

/-- A row that is loaded as a whole is as long as was asked for, and each of its bytes is seen at its
place. -/
theorem loadAll_eq_ok {address : Word} {count : Nat} {b : Bus} {rows : List Byte}
    (h : b.loadAll address count = .ok rows) :
    rows.length = count ∧
      ∀ (k : Nat) (_ : k < rows.length), b.view[address.toNat + k]? = some rows[k] := by
  unfold loadAll at h
  simp only [fault_load_eq] at h
  cases hrow : rowFault address count with
  | some f =>
    rw [hrow] at h
    cases h
  | none =>
    rw [hrow] at h
    have hrows : rows = (b.view.toList.drop address.toNat).take count :=
      (Except.ok.inj h).symm.trans (value_load b address count)
    refine ⟨?_, fun k hk => ?_⟩
    · rw [rowFault_eq_none_iff] at hrow
      rw [hrows, List.length_take, List.length_drop, Vector.length_toList]
      omega
    · have hk' := hk
      rw [hrows, List.length_take] at hk'
      rw [← Vector.getElem?_toList, ← List.getElem?_eq_getElem hk, hrows, List.getElem?_take,
        if_pos (by omega), List.getElem?_drop]

/-! ## What a row leaves alone -/

theorem display_setCell_of_not_mem {a : Fin 4096} (byte : Byte) (b : Bus)
    (h : a.val < 0x050 ∨ 0x150 ≤ a.val) : (b.setCell a byte).display = b.display := by
  unfold setCell
  cases ha : Location.of a with
  | picture place =>
    have := congrArg Fin.val (Location.eq_pictureAddress_of_of_eq ha)
    simp only [Location.pictureAddress] at this
    omega
  | memory | keyFlag | keyNumber => rfl

theorem keypad_setCell_of_not_mem {a : Fin 4096} (byte : Byte) (b : Bus)
    (h : a.val < 0x150 ∨ 0x152 ≤ a.val) : (b.setCell a byte).keypad = b.keypad := by
  unfold setCell
  cases ha : Location.of a with
  | keyFlag =>
    have : a.val = 0x150 := congrArg Fin.val (Location.eq_flagAddress_of_of_eq ha)
    omega
  | keyNumber =>
    have : a.val = 0x151 := congrArg Fin.val (Location.eq_keyAddress_of_of_eq ha)
    omega
  | memory | picture => rfl

theorem getElem_memory_setCell_of_ne {a : Fin 4096} (byte : Byte) (b : Bus) (i : Nat)
    (hi : i < 4096) (h : i ≠ a.val) : (b.setCell a byte).memory[i] = b.memory[i] := by
  unfold setCell
  cases Location.of a with
  | memory => exact Vector.getElem_set_ne a.isLt hi fun e => h e.symm
  | picture | keyFlag | keyNumber => rfl

/-- What single writes inside the range keep, the row keeps. -/
theorem storeFrom_induction {P : Bus → Prop} (done : Nat) (address : Word) (bytes : List Byte)
    {b : Bus} (hset : ∀ (a : Fin 4096) (byte : Byte) (b : Bus), address.toNat ≤ a.val →
      a.val < address.toNat + bytes.length → P b → P (b.setCell a byte))
    (hb : P b) : P (b.storeFrom done address bytes).value := by
  induction bytes generalizing done address b with
  | nil => exact hb
  | cons byte rest ih =>
    rw [List.length_cons] at hset
    rw [storeFrom]
    by_cases h : address.toNat < 4096
    · have hnext := toNat_add_one h
      rw [write_eq_ok address byte b h]
      refine ih _ _ (fun a byte' b' hle hlt => hset a byte' b' (by omega) (by omega)) ?_
      exact hset _ _ _ (Nat.le_refl _) (by simp only; omega) hb
    · rw [write_eq_error address byte b h]
      exact hb

section Outside

variable (address : Word) (bytes : List Byte) (b : Bus)

theorem display_store (h : address.toNat + bytes.length ≤ 0x050 ∨ 0x150 ≤ address.toNat) :
    (b.store address bytes).value.display = b.display :=
  storeFrom_induction (P := fun b' => b'.display = b.display) 0 address bytes
    (fun a byte b' hle hlt hb => by rw [display_setCell_of_not_mem byte b' (by omega), hb]) rfl

theorem keypad_store (h : address.toNat + bytes.length ≤ 0x150 ∨ 0x152 ≤ address.toNat) :
    (b.store address bytes).value.keypad = b.keypad :=
  storeFrom_induction (P := fun b' => b'.keypad = b.keypad) 0 address bytes
    (fun a byte b' hle hlt hb => by rw [keypad_setCell_of_not_mem byte b' (by omega), hb]) rfl

theorem getElem_memory_store (i : Nat) (hi : i < 4096)
    (h : i < address.toNat ∨ address.toNat + bytes.length ≤ i) :
    (b.store address bytes).value.memory[i] = b.memory[i] :=
  storeFrom_induction (P := fun b' => b'.memory[i] = b.memory[i]) 0 address bytes
    (fun a byte b' hle hlt hb => by
      rw [getElem_memory_setCell_of_ne byte b' i hi (by omega), hb]) rfl

end Outside

end Bus

end ChipEight
