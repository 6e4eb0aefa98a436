import ChipEight.Bits

/-!
# Banks of bytes

A `Bank n` is a row of `n` byte cells: the memory, the picture and the register file are banks.
`Bank.overlay` copies a block of bytes over a bank and leaves the cells outside the block alone
(`getElem_overlay`).
-/

namespace ChipEight

/-- A row of `n` bytes. -/
abbrev Bank (n : Nat) := Vector Byte n

namespace Bank

variable {n : Nat}

/-- The bank whose cells are all zero. -/
def blank (n : Nat) : Bank n := Vector.replicate n 0

/-- The byte in cell `i`. -/
def byteAt (bank : Bank n) (i : Fin n) : Byte := bank[i]

/-- Changes the byte in cell `i`. -/
def put (i : Fin n) (byte : Byte) (bank : Bank n) : Bank n := bank.set i byte

/-- The bank with `bytes` in the cells from `start` on; what does not fit is dropped. -/
def overlay (start : Nat) (bytes : Array Byte) (bank : Bank n) : Bank n :=
  Vector.ofFn fun i =>
    if start ≤ i.val then (bytes[i.val - start]?).getD bank[i] else bank[i]

@[simp] theorem byteAt_eq_getElem (bank : Bank n) (i : Fin n) :
    bank.byteAt i = bank[i.val] := rfl

@[simp] theorem put_eq_set (i : Fin n) (byte : Byte) (bank : Bank n) :
    bank.put i byte = bank.set i byte := rfl

@[simp] theorem getElem_blank (i : Nat) (h : i < n) : (blank n)[i] = 0 := by
  simp [blank]

theorem getElem_overlay (start : Nat) (bytes : Array Byte) (bank : Bank n) (i : Nat) (h : i < n) :
    (bank.overlay start bytes)[i] =
      if start ≤ i then (bytes[i - start]?).getD bank[i] else bank[i] := by
  simp [overlay]

/-- A cell inside the block holds the byte of the block. -/
theorem getElem_overlay_of_mem (start : Nat) (bytes : Array Byte) (bank : Bank n) (j : Nat)
    (hj : j < bytes.size) (h : start + j < n) :
    (bank.overlay start bytes)[start + j] = bytes[j] := by
  rw [getElem_overlay, if_pos (Nat.le_add_right ..)]
  simp [hj]

/-- A cell outside the block keeps its byte. -/
theorem getElem_overlay_of_not_mem (start : Nat) (bytes : Array Byte) (bank : Bank n) (i : Nat)
    (h : i < n) (hi : i < start ∨ start + bytes.size ≤ i) :
    (bank.overlay start bytes)[i] = bank[i] := by
  rw [getElem_overlay]
  split
  · rw [Array.getElem?_eq_none (by omega), Option.getD_none]
  · rfl

/-- Laying an empty block over a bank changes nothing. -/
theorem overlay_nil (start : Nat) (bank : Bank n) : bank.overlay start #[] = bank := by
  apply Vector.ext
  intro i hi
  rw [getElem_overlay_of_not_mem start #[] bank i hi (by simp; omega)]

/-- A block is laid over a bank byte by byte. -/
theorem overlay_cons {start : Nat} (byte : Byte) (rest : List Byte) (bank : Bank n)
    (h : start < n) :
    bank.overlay start (byte :: rest).toArray =
      overlay (start + 1) rest.toArray (bank.set start byte) := by
  apply Vector.ext
  intro i hi
  rw [getElem_overlay, getElem_overlay, Vector.getElem_set, List.getElem?_toArray,
    List.getElem?_toArray]
  rcases Nat.lt_trichotomy i start with hlt | rfl | hgt
  · rw [if_neg (by omega), if_neg (by omega), if_neg (by omega)]
  · rw [if_pos (Nat.le_refl i), if_neg (by omega), if_pos rfl, Nat.sub_self]
    rfl
  · rw [if_pos (by omega), if_pos (by omega), if_neg (by omega),
      show i - start = i - (start + 1) + 1 by omega, List.getElem?_cons_succ]

end Bank

end ChipEight
