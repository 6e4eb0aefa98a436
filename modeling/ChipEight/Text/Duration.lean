import ChipEight.Text.Decimal

/-!
# Lengths of time

A length of time is written in milliseconds below one second and in seconds from there on, with as
many of the three decimal places as it needs.  No time at all is written in nanoseconds.
-/

namespace ChipEight.Duration

/-- The decimal places of `thousandths`, without zeros at the end. -/
def places (thousandths : Nat) : List Char :=
  if thousandths % 1000 = 0 then []
  else if thousandths % 100 = 0 then [Decimal.digit (thousandths / 100)]
  else if thousandths % 10 = 0 then
    [Decimal.digit (thousandths / 100), Decimal.digit (thousandths / 10 % 10)]
  else
    [Decimal.digit (thousandths / 100), Decimal.digit (thousandths / 10 % 10),
      Decimal.digit (thousandths % 10)]

/-- Seconds with their decimal places. -/
def seconds (milliseconds : Nat) : List Char :=
  match places (milliseconds % 1000) with
  | [] => Decimal.digits (milliseconds / 1000) ++ ['s']
  | fraction => Decimal.digits (milliseconds / 1000) ++ '.' :: fraction ++ ['s']

/-- A length of time given in milliseconds. -/
def text (milliseconds : Nat) : String :=
  if milliseconds = 0 then "0ns"
  else if milliseconds < 1000 then String.ofList (Decimal.digits milliseconds ++ "ms".toList)
  else String.ofList (seconds milliseconds)

end ChipEight.Duration
