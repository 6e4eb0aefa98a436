import ChipEight.Proofs.Checked.Bus

/-!
# Checked sprites

Drawing with every index checked.  The offset of a byte of the picture is a row taken round the
bottom edge times eight and a column taken round the right edge, so it stays below 256; the two
parts of a row are shifted by less than eight.  The rows of a sprite that is in memory go through a
buffer of sixteen bytes, which is why no sprite may be taller.
-/

namespace ChipEight.Checked

/-! ## Blitting -/

def invert (offset : Nat) (bits : Byte) (d : Display) : Option (Display × Bool) := do
  return d.invert (← index? 256 offset) bits

/-- Draws one row; `start` is the offset of its first byte. -/
def blitRow (start column shift : Nat) (bits : Byte) (d : Display) : Option (Display × Bool) := do
  let left ← invert (← sum? start column) (← shiftRight? bits shift) d
  if shift = 0 then
    return left
  else
    let next ← sum? start ((← sum? column 1) % 8)
    let right ← invert next (← shiftLeft? bits (← difference? 8 shift)) left.1
    return (right.1, left.2 || right.2)

/-- Draws rows from the `n`-th on, the sprite starting in line `y`. -/
def blitRows (y column shift : Nat) : Nat → List Byte → Display → Option (Display × Bool)
  | _, [], d => some (d, false)
  | n, bits :: rest, d => do
    let line ← sum? y n
    let start ← product? (line % 32) 8
    let first ← blitRow start column shift bits d
    let others ← blitRows y column shift (← sum? n 1) rest first.1
    return (others.1, first.2 || others.2)

def blit (x y : Byte) (rows : List Byte) (d : Display) : Option (Display × Bool) :=
  let left := x.toNat % 64
  blitRows (y.toNat % 32) (left / 8) (left % 8) 0 rows d

theorem invert_eq (place : Fin 256) (bits : Byte) (d : Display) :
    invert place.val bits d = some (d.invert place bits) := by
  unfold invert
  rw [index?_val]
  rfl

theorem sum?_offset (row : Fin 32) (column : Fin 8) :
    sum? (row.val * 8) column.val = some (Display.offset row column).val :=
  sum?_eq_some (by unfold hostLimit; omega)

theorem blitRow_eq (x : Fin 64) (row : Fin 32) (bits : Byte) (d : Display) :
    blitRow (row.val * 8) (x.val / 8) (x.val % 8) bits d = some (d.blitRow x row bits) := by
  have hcolumn : x.val / 8 < 8 := by omega
  have hshift : x.val % 8 < 8 := Nat.mod_lt _ (by decide)
  have hleft : sum? (row.val * 8) (x.val / 8) =
      some (Display.offset row ⟨x.val / 8, hcolumn⟩).val :=
    sum?_offset row ⟨x.val / 8, hcolumn⟩
  have hnext : sum? (x.val / 8) 1 = some (x.val / 8 + 1) :=
    sum?_eq_some (by unfold hostLimit; omega)
  have hright : sum? (row.val * 8) ((x.val / 8 + 1) % 8) =
      some (Display.offset row (⟨x.val / 8, hcolumn⟩ + 1)).val := by
    rw [← sum?_offset]
    rfl
  unfold blitRow Display.blitRow
  simp only [hleft, shiftRight?_eq_some bits hshift, invert_eq, Option.bind_eq_bind,
    Option.bind_some]
  by_cases hzero : x.val % 8 = 0
  · rw [if_pos hzero, if_pos hzero]
    rfl
  · have hgap : 8 - x.val % 8 < 8 := by omega
    rw [if_neg hzero, if_neg hzero]
    simp only [hnext, hright, difference?_eq_some (Nat.le_of_lt hshift),
      shiftLeft?_eq_some bits hgap, invert_eq, Option.bind_some]
    rfl

/-- Rows are drawn as long as the host can count them. -/
theorem blitRows_eq (x : Fin 64) (y : Fin 32) (n : Nat) (rows : List Byte) (d : Display)
    (h : y.val + n + rows.length < hostLimit) :
    blitRows y.val (x.val / 8) (x.val % 8) n rows d =
      some (d.blitRows x (Fin.ofNat 32 (y.val + n)) rows) := by
  induction rows generalizing n d with
  | nil => rfl
  | cons bits rest ih =>
    rw [List.length_cons] at h
    have hline : sum? y.val n = some (y.val + n) := sum?_eq_some (by omega)
    have hstart : product? ((y.val + n) % 32) 8 =
        some ((Fin.ofNat 32 (y.val + n)).val * 8) :=
      product?_eq_some (by unfold hostLimit; omega)
    have hnext : sum? n 1 = some (n + 1) := sum?_eq_some (by omega)
    have hrow : Fin.ofNat 32 (y.val + (n + 1)) = Fin.ofNat 32 (y.val + n) + 1 := by
      apply Fin.ext
      simp only [Fin.val_ofNat, Fin.val_add]
      omega
    rw [blitRows]
    simp only [hline, hstart, hnext, Option.bind_eq_bind, Option.bind_some, blitRow_eq]
    rw [ih (n + 1) _ (by omega), hrow, Display.blitRows_cons]
    rfl

theorem blit_eq (x y : Byte) (rows : List Byte) (d : Display) (h : rows.length + 32 ≤ hostLimit) :
    blit x y rows d = some (d.blit x y rows) := by
  have hy : y.toNat % 32 < 32 := Nat.mod_lt _ (by decide)
  have hblit := blitRows_eq (Fin.ofNat 64 x.toNat) (Fin.ofNat 32 y.toNat) 0 rows d
    (by simp only [Fin.val_ofNat]; omega)
  have hrow : Fin.ofNat 32 ((Fin.ofNat 32 y.toNat).val + 0) = Fin.ofNat 32 y.toNat := by
    apply Fin.ext
    simp only [Fin.val_ofNat]
    omega
  rw [hrow] at hblit
  exact hblit

/-! ## Sprites in memory -/

/-- Reads `left` more rows into the buffer, the first of them into slot `row`. -/
def fetchRows (b : Bus) (address : Word) : Nat → Nat → Bank 16 → Option (Except Fault (Bank 16))
  | _, 0, buffer => some (.ok buffer)
  | row, left + 1, buffer => do
    match ← read (address + BitVec.ofNat 16 row) b with
    | .error f => return .error f
    | .ok byte =>
      let slot ← index? 16 row
      fetchRows b address (row + 1) left (buffer.put slot byte)

/-- The first `height` bytes of the buffer. -/
def firstRows? (height : Nat) (buffer : Bank 16) : Option (List Byte) :=
  if height ≤ 16 then some (buffer.toList.take height) else none

def draw (x y : Byte) (address : Word) (height : Nat) (b : Bus) :
    Option (Except Fault (Bus × Bool)) := do
  match ← fetchRows b address 0 (min height 16) (.blank 16) with
  | .error f => return .error f
  | .ok buffer =>
    let drawn ← blit x y (← firstRows? height buffer) b.display
    return .ok ({ b with display := drawn.1 }, drawn.2)

theorem loadAll_succ (b : Bus) (address : Word) (count : Nat) :
    b.loadAll address (count + 1) =
      match b.read address with
      | .error f => .error f
      | .ok byte => (b.loadAll (address + 1) count).map (byte :: ·) := by
  unfold Bus.loadAll
  rw [Bus.load]
  cases b.read address with
  | error f => rfl
  | ok byte =>
    simp only [Outcome.fault_map, Outcome.value_map]
    cases (b.load (address + 1) count).fault <;> rfl

theorem take_set_succ {α : Type} {n i : Nat} (v : Vector α n) (a : α) (h : i < n) :
    (v.set i a).toList.take (i + 1) = v.toList.take i ++ [a] := by
  rw [Vector.toList_set, List.take_add_one, List.getElem?_set_self (by simpa using h),
    List.take_set_of_le (Nat.le_refl i)]
  rfl

/-- The rows that were fetched before and those that are loaded now fill the buffer in order. -/
theorem fetchRows_eq (b : Bus) (address : Word) (row left : Nat) (buffer : Bank 16)
    (h : row + left ≤ 16) :
    (fetchRows b address row left buffer).map
        (Except.map fun filled => filled.toList.take (row + left)) =
      some ((b.loadAll (address + BitVec.ofNat 16 row) left).map fun rows =>
        buffer.toList.take row ++ rows) := by
  induction left generalizing row buffer with
  | zero =>
    rw [Nat.add_zero]
    exact congrArg (fun rows => some (Except.ok rows)) (List.append_nil _).symm
  | succ left ih =>
    have hslot : index? 16 row = some ⟨row, by omega⟩ := index?_eq_some (by omega)
    rw [fetchRows, read_eq, loadAll_succ, ← Word.add_ofNat_succ]
    cases b.read (address + BitVec.ofNat 16 row) with
    | error f => rfl
    | ok byte =>
      simp only [Option.bind_eq_bind, Option.bind_some, hslot]
      rw [Nat.add_comm left 1, ← Nat.add_assoc, ih (row + 1) _ (by omega), Bank.put_eq_set,
        take_set_succ]
      cases b.loadAll (address + BitVec.ofNat 16 (row + 1)) left with
      | error f => rfl
      | ok rows => simp [Except.map]

/-- A sprite that fits into the buffer is drawn as the bus draws it. -/
theorem draw_eq (x y : Byte) (address : Word) {height : Nat} (b : Bus) (h : height ≤ 16) :
    draw x y address height b = some (b.draw x y address height) := by
  have hfetch := fetchRows_eq b address 0 height (.blank 16) (by omega)
  rw [Nat.zero_add, BitVec.add_zero] at hfetch
  unfold draw Bus.draw
  rw [Nat.min_eq_left h]
  cases hfilled : fetchRows b address 0 height (.blank 16) with
  | none => rw [hfilled] at hfetch; cases hfetch
  | some filled =>
    rw [hfilled] at hfetch
    have hsame := Option.some.inj hfetch
    cases filled with
    | error f =>
      cases hrows : b.loadAll address height with
      | error f' =>
        rw [hrows] at hsame
        rw [Except.error.inj hsame]
        rfl
      | ok rows => rw [hrows] at hsame; cases hsame
    | ok buffer =>
      cases hrows : b.loadAll address height with
      | error f' => rw [hrows] at hsame; cases hsame
      | ok rows =>
        rw [hrows] at hsame
        have htake : buffer.toList.take height = rows := Except.ok.inj hsame
        have hfirst : firstRows? height buffer = some rows := by
          unfold firstRows?
          rw [if_pos h, htake]
        have hlength : rows.length ≤ 16 := by
          rw [← htake, List.length_take]
          omega
        have hblit := blit_eq x y rows b.display (by unfold hostLimit; omega)
        simp only [hfirst, hblit, Option.bind_eq_bind, Option.bind_some]
        rfl

end ChipEight.Checked
