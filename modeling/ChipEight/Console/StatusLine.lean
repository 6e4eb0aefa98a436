import ChipEight.Journal
import ChipEight.Text.Padding

/-!
# The status line

Below the picture stands a line with the program counter, the coming instruction in a field of
sixteen columns, and the number of cycles.  A line without a status is empty.
-/

namespace ChipEight

/-- The width of the field of the coming instruction. -/
def instructionField : Nat := 16

/-- The coming instruction as it is shown; `???` stands for a word that is no instruction. -/
def shownInstruction (next : Option Instruction) : List Char :=
  match next with
  | some i => i.statement.text
  | none => "???".toList

/-- The characters of the status line. -/
def Status.chars (s : Status) : List Char :=
  ' ' :: s.pc.place ++ ' ' :: Padding.padded instructionField (shownInstruction s.next)
    ++ Decimal.digits s.cycles ++ " cycles".toList

/-- The status line, which is empty while there is no status. -/
def statusLine (status : Option Status) : String :=
  match status with
  | some s => String.ofList s.chars
  | none => ""

end ChipEight
