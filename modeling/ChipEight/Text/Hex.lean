/-!
# Hexadecimal numbers

Numbers are written with upper-case digits and a fixed width, most significant digit first.
`digits width n` keeps the low `width` digits; below `16 ^ width` no two numbers are written alike
(`digits_inj`).
-/

namespace ChipEight.Hex

/-- The hexadecimal digit of a number below sixteen; larger numbers have none and are written `?`. -/
def digit (n : Nat) : Char :=
  match n with
  | 0 => '0' | 1 => '1' | 2 => '2' | 3 => '3' | 4 => '4' | 5 => '5' | 6 => '6' | 7 => '7'
  | 8 => '8' | 9 => '9' | 10 => 'A' | 11 => 'B' | 12 => 'C' | 13 => 'D' | 14 => 'E' | 15 => 'F'
  | _ => '?'

/-- The low `width` hexadecimal digits of `n`. -/
def digits : Nat → Nat → List Char
  | 0, _ => []
  | width + 1, n => digits width (n / 16) ++ [digit (n % 16)]

/-- `n` after the mark `0x`, with `width` digits. -/
def number (width n : Nat) : List Char := '0' :: 'x' :: digits width n

/-- `n` after the mark `0x`, with `width` digits, as a string. -/
def text (width n : Nat) : String := String.ofList (number width n)

theorem digit_inj {m n : Nat} (hm : m < 16) (hn : n < 16) (h : digit m = digit n) : m = n := by
  have key : ∀ a : Fin 16, ∀ b : Fin 16, digit a = digit b → a = b := by decide
  exact congrArg Fin.val (key ⟨m, hm⟩ ⟨n, hn⟩ h)

@[simp] theorem length_digits (width n : Nat) : (digits width n).length = width := by
  induction width generalizing n with
  | zero => rfl
  | succ width ih => simp [digits, ih]

/-- Two numbers that fit the width and are written alike are equal. -/
theorem digits_inj {width m n : Nat} (hm : m < Nat.pow 16 width) (hn : n < Nat.pow 16 width)
    (h : digits width m = digits width n) : m = n := by
  induction width generalizing m n with
  | zero => simp at hm hn; omega
  | succ width ih =>
    simp only [digits] at h
    obtain ⟨hhigh, hlow⟩ := List.append_inj' h rfl
    simp only [Nat.pow_eq, Nat.pow_succ] at hm hn ih
    have := ih (by omega) (by omega) hhigh
    have := digit_inj (by omega) (by omega) (List.cons.inj hlow).1
    omega

end ChipEight.Hex
