import ChipEight.Bits

/-!
# Checked arithmetic

A checked operation has no result where the host would trap: an index outside an array, a sum or a
product that does not fit into a host word, a difference below zero, a shift by the width or more.
-/

namespace ChipEight.Checked

/-- The host counts below this limit. -/
def hostLimit : Nat := 0x1_0000_0000_0000_0000

def index? (n i : Nat) : Option (Fin n) := if h : i < n then some ⟨i, h⟩ else none

def sum? (a b : Nat) : Option Nat := if a + b < hostLimit then some (a + b) else none

def product? (a b : Nat) : Option Nat := if a * b < hostLimit then some (a * b) else none

def difference? (a b : Nat) : Option Nat := if b ≤ a then some (a - b) else none

section Shifts

variable {w : Nat}

def shiftLeft? (b : BitVec w) (n : Nat) : Option (BitVec w) :=
  if n < w then some (b <<< n) else none

def shiftRight? (b : BitVec w) (n : Nat) : Option (BitVec w) :=
  if n < w then some (b >>> n) else none

theorem shiftLeft?_eq_some (b : BitVec w) {n : Nat} (h : n < w) : shiftLeft? b n = some (b <<< n) :=
  if_pos h

theorem shiftRight?_eq_some (b : BitVec w) {n : Nat} (h : n < w) :
    shiftRight? b n = some (b >>> n) := if_pos h

end Shifts

theorem index?_eq_some {n i : Nat} (h : i < n) : index? n i = some ⟨i, h⟩ := dif_pos h

theorem index?_val {n : Nat} (i : Fin n) : index? n i.val = some i := index?_eq_some i.isLt

theorem sum?_eq_some {a b : Nat} (h : a + b < hostLimit) : sum? a b = some (a + b) := if_pos h

theorem product?_eq_some {a b : Nat} (h : a * b < hostLimit) : product? a b = some (a * b) :=
  if_pos h

theorem difference?_eq_some {a b : Nat} (h : b ≤ a) : difference? a b = some (a - b) := if_pos h

theorem difference?_eq_none {a b : Nat} (h : a < b) : difference? a b = none :=
  if_neg (Nat.not_le.2 h)

end ChipEight.Checked
