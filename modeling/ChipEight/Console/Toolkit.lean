import ChipEight.Console.ArgumentReader
import ChipEight.Console.Drawing

/-!
# What the program leaves to others

The program reads no argument, paints no drawing and words no failure itself.  The functions that do
are its `Toolkit`.  What it relies on is stated for each of them: `CommandLine.Rules`, `Paints` and
`Explains`.  `Toolkit.plain` is the one that the executable uses.
-/

namespace ChipEight

/-- The functions that the program is given. -/
structure Toolkit where
  /-- What the arguments ask for. -/
  parse : List String → Except CommandLine.UsageError CommandLine.Settings
  /-- The rows that a drawing makes on the terminal. -/
  paint : Drawing → List String
  /-- The message of a failure: what was being done, and why it failed. -/
  explain : String → String → String

/-- A message in which the cause is set off from what was being done. -/
def failureMessage (context cause : String) : String :=
  "Error: " ++ context ++ "\n\nCaused by:\n    " ++ cause ++ "\n"

/-- How failures are worded, if neither what was being done nor the cause breaks the line. -/
def Explains (explain : String → String → String) : Prop :=
  ∀ context cause : String, '\n' ∉ context.toList → '\n' ∉ cause.toList →
    explain context cause = failureMessage context cause

theorem explains_failureMessage : Explains failureMessage := fun _ _ _ _ => rfl

/-- Arguments read from left to right, drawings in box characters, and failures in four lines. -/
def Toolkit.plain : Toolkit := ⟨CommandLine.parse, Drawing.rows, failureMessage⟩

end ChipEight
