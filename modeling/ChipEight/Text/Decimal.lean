/-!
# Decimal numbers

`digits` writes a number without leading zeros and `value?` reads digits back; reading also accepts
leading zeros, so `value? (List.replicate k '0' ++ digits n) = some n`
(`value?_replicate_append_digits`).
-/

namespace ChipEight.Decimal

/-- The decimal digit of a number below ten; larger numbers have none and are written `?`. -/
def digit (n : Nat) : Char :=
  match n with
  | 0 => '0' | 1 => '1' | 2 => '2' | 3 => '3' | 4 => '4'
  | 5 => '5' | 6 => '6' | 7 => '7' | 8 => '8' | 9 => '9'
  | _ => '?'

/-- The value of a decimal digit. -/
def digitValue? (c : Char) : Option Nat :=
  match c with
  | '0' => some 0 | '1' => some 1 | '2' => some 2 | '3' => some 3 | '4' => some 4
  | '5' => some 5 | '6' => some 6 | '7' => some 7 | '8' => some 8 | '9' => some 9
  | _ => none

/-- The decimal digits of a number, without leading zeros. -/
def digits (n : Nat) : List Char :=
  if n < 10 then [digit n] else digits (n / 10) ++ [digit (n % 10)]

/-- The decimal digits of a number as a string. -/
def text (n : Nat) : String := String.ofList (digits n)

/-- The number written by the digits read so far, followed by more digits. -/
def extend : Nat → List Char → Option Nat
  | n, [] => some n
  | n, c :: rest =>
    match digitValue? c with
    | some d => extend (10 * n + d) rest
    | none => none

/-- The number that a non-empty row of decimal digits stands for. -/
def value? : List Char → Option Nat
  | [] => none
  | text => extend 0 text

theorem digitValue?_digit {n : Nat} (h : n < 10) : digitValue? (digit n) = some n := by
  have key : ∀ a : Fin 10, digitValue? (digit a) = some a.val := by decide
  exact key ⟨n, h⟩

theorem extend_append (n : Nat) (a b : List Char) :
    extend n (a ++ b) = (extend n a).bind fun m => extend m b := by
  induction a generalizing n with
  | nil => rfl
  | cons c rest ih =>
    simp only [List.cons_append, extend]
    cases digitValue? c with
    | none => rfl
    | some d => exact ih _

theorem extend_zero_digits (n : Nat) : extend 0 (digits n) = some n := by
  induction n using Nat.strongRecOn with
  | ind n ih =>
    rw [digits]
    split
    · rename_i h
      simp [extend, digitValue?_digit h]
    · rename_i h
      rw [extend_append, ih (n / 10) (by omega)]
      simp only [Option.bind_some, extend, digitValue?_digit (show n % 10 < 10 by omega)]
      congr 1
      omega

theorem digits_ne_nil (n : Nat) : digits n ≠ [] := by
  rw [digits]
  split <;> simp

theorem extend_zero_replicate (k : Nat) : extend 0 (List.replicate k '0') = some 0 := by
  induction k with
  | zero => rfl
  | succ k ih => simpa [List.replicate_succ, extend, digitValue?] using ih

/-- Reading undoes writing, whatever zeros are put in front. -/
theorem value?_replicate_append_digits (k n : Nat) :
    value? (List.replicate k '0' ++ digits n) = some n := by
  have hne : List.replicate k '0' ++ digits n ≠ [] := by simp [digits_ne_nil]
  have hvalue : ∀ {text}, text ≠ [] → value? text = extend 0 text := by
    intro text ht
    cases text with
    | nil => exact absurd rfl ht
    | cons c rest => rfl
  rw [hvalue hne, extend_append, extend_zero_replicate]
  exact extend_zero_digits n

theorem digits_inj {m n : Nat} (h : digits m = digits n) : m = n := by
  have hm := extend_zero_digits m
  rw [h, extend_zero_digits n] at hm
  exact (Option.some.inj hm).symm

end ChipEight.Decimal
