import ChipEight.Bits

/-!
# The keypad

The keypad remembers one key in two bytes: a flag, which is `0xFF` while the key is down, and the
number of the key.  Pressing sets both bytes at once, releasing clears the flag and keeps the
number.  A program may store any byte into either of them; only the flag `0xFF` counts as pressed.
-/

namespace ChipEight

/-- The last key and whether it is down. -/
structure Keypad where
  /-- `0xFF` while a key is down. -/
  flag : Byte
  /-- The number of the key. -/
  key : Byte
deriving Repr, DecidableEq

namespace Keypad

/-- The flag of a key that is down. -/
def down : Byte := 0xFF

/-- A keypad on which no key was pressed yet. -/
def idle : Keypad := ⟨0, 0⟩

/-- A key goes down. -/
def press (key : Nibble) (_ : Keypad) : Keypad := ⟨down, key.setWidth 8⟩

/-- The key goes up. -/
def release (k : Keypad) : Keypad := { k with flag := 0 }

/-- Whether a key is down. -/
def isPressed (k : Keypad) : Bool := k.flag == down

/-- The number of the key that is down. -/
def pressed? (k : Keypad) : Option Byte := if k.isPressed then some k.key else none

/-- Whether the key with number `n` is down. -/
def holds (n : Byte) (k : Keypad) : Bool := k.pressed? == some n

@[simp] theorem pressed?_press (key : Nibble) (k : Keypad) :
    (k.press key).pressed? = some (key.setWidth 8) := rfl

@[simp] theorem pressed?_release (k : Keypad) : k.release.pressed? = none := rfl

@[simp] theorem key_release (k : Keypad) : k.release.key = k.key := rfl

theorem isSome_pressed? (k : Keypad) : k.pressed?.isSome = k.isPressed := by
  unfold pressed?
  cases k.isPressed <;> rfl

theorem pressed?_eq_some_iff (k : Keypad) (n : Byte) :
    k.pressed? = some n ↔ k.flag = down ∧ k.key = n := by
  simp only [pressed?, isPressed, beq_iff_eq]
  split <;> simp_all

end Keypad

end ChipEight
