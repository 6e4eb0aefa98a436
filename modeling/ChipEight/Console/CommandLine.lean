import ChipEight.Scheduler.Basic
import ChipEight.Text.Decimal

/-!
# The command line

The program is given the path of a program image and up to three options with numbers:
`--cycles-per-frame`, `--frame-ms` and `--max-cycles`.

The program only declares them: the name of each option, the bits of its number and the number that
it has unless it is given.  It does not read the arguments itself.  What it relies on in a function
that does is stated as `Rules`, four rules about the front of a command line.
-/

namespace ChipEight

namespace CommandLine

/-- An option with a number. -/
inductive Setting where
  | cyclesPerFrame | frameMs | maxCycles
deriving Repr, DecidableEq

/-- Why a command line was not understood. -/
inductive UsageError where
  /-- Help was asked for. -/
  | helpRequested
  /-- An argument is not known or one too many. -/
  | unknownArgument
  /-- An option has no number. -/
  | missingNumber
  /-- The path is empty. -/
  | emptyPath
  /-- What should be a number is none, or is too large. -/
  | badNumber
  /-- An option is given twice. -/
  | repeatedOption
  /-- Help was asked for with a value. -/
  | valueForHelp
  /-- There is no path. -/
  | missingPath
deriving Repr, DecidableEq

/-- The exit code of a command line that was not understood. -/
def UsageError.exitCode : UsageError → Nat
  | helpRequested => 0
  | _ => 2

/-- What the command line asks for. -/
structure Settings where
  /-- The path of the program image. -/
  path : String
  /-- The number of cycles in a frame. -/
  cyclesPerFrame : BitVec 32 := 10
  /-- The time from frame to frame, in milliseconds. -/
  frameMs : BitVec 64 := 15
  /-- The number of cycles to run. -/
  maxCycles : Option (BitVec 64) := none
deriving Repr, DecidableEq

/-- How the scheduler has to run. -/
def Settings.config (s : Settings) : Config :=
  ⟨s.cyclesPerFrame.toNat, s.frameMs.toNat, s.maxCycles.map BitVec.toNat⟩

namespace Setting

/-- The name of an option, without the leading dashes. -/
def name : Setting → List Char
  | cyclesPerFrame => "cycles-per-frame".toList
  | frameMs => "frame-ms".toList
  | maxCycles => "max-cycles".toList

/-- The option with this name. -/
def ofName? (text : List Char) : Option Setting :=
  if text = cyclesPerFrame.name then some cyclesPerFrame
  else if text = frameMs.name then some frameMs
  else if text = maxCycles.name then some maxCycles
  else none

/-- The number of bits of an option's number. -/
def bits : Setting → Nat
  | cyclesPerFrame => 32
  | frameMs => 64
  | maxCycles => 64

/-- The option as an argument. -/
def flag (s : Setting) : String := String.ofList ('-' :: '-' :: s.name)

/-- The option as an argument, with the text of its number after an equals sign. -/
def flagWith (s : Setting) (text : List Char) : String :=
  String.ofList ('-' :: '-' :: s.name ++ '=' :: text)

end Setting

/-- The settings with another number for an option. -/
def Settings.withNumber (s : Setting) (n : BitVec s.bits) (settings : Settings) : Settings :=
  match s, n with
  | .cyclesPerFrame, n => { settings with cyclesPerFrame := n }
  | .frameMs, n => { settings with frameMs := n }
  | .maxCycles, n => { settings with maxCycles := some n }

/-- The text without a plus sign in front. -/
def withoutPlus : List Char → List Char
  | '+' :: rest => rest
  | text => text

/-- The number that `text` stands for, if it has this many bits: decimal digits, and a plus sign in
front means nothing. -/
def unsigned? (bits : Nat) (text : List Char) : Option (BitVec bits) :=
  (Decimal.value? (withoutPlus text)).bind fun n =>
    if (BitVec.ofNat bits n).toNat = n then some (BitVec.ofNat bits n) else none

/-- What is read, with the number that `text` gives to an option. -/
def withText (s : Setting) (text : List Char) (read : Except UsageError Settings) :
    Except UsageError Settings :=
  match unsigned? s.bits text with
  | some n => read.map (Settings.withNumber s n)
  | none => .error .badNumber

/-- The declared option that an argument names, whether a number follows in it or not. -/
def optionOf? (argument : String) : Option Setting :=
  match argument.toList with
  | '-' :: '-' :: rest => Setting.ofName? (rest.takeWhile (· != '='))
  | _ => none

/-- The text does not start with a dash, so it cannot be taken for an option. -/
def IsPlain (text : List Char) : Prop := text.head? ≠ some '-'

/-- What follows, if anything does, starts with a declared option. -/
def OptionNext (arguments : List String) : Prop := ∀ a ∈ arguments.head?, (optionOf? a).isSome

/-- How a command line is read.  Each rule takes something off its front. -/
structure Rules (parse : List String → Except UsageError Settings) : Prop where
  /-- The path alone is enough, and every option has the number that was declared for it. -/
  path_alone : ∀ path : String, path ≠ "" → IsPlain path.toList → parse [path] = .ok { path }
  /-- The path may stand before an option as well as after it. -/
  path_moves : ∀ (path : String) (s : Setting) (text : List Char) (rest : List String), path ≠ "" →
    IsPlain path.toList → IsPlain text → OptionNext rest →
      parse (path :: s.flagWith text :: rest) = parse (s.flagWith text :: path :: rest) ∧
        parse (path :: s.flag :: String.ofList text :: rest) =
          parse (s.flag :: String.ofList text :: path :: rest)
  /-- The text after an equals sign is the number of the option, unless it is none or too large.
  The option must not be given again. -/
  attached : ∀ (s : Setting) (text : List Char) (rest : List String), IsPlain text →
    (∀ a ∈ rest, optionOf? a ≠ some s) →
      parse (s.flagWith text :: rest) = withText s text (parse rest)
  /-- The next argument may take the place of the text after the equals sign. -/
  apart : ∀ (s : Setting) (text : List Char) (rest : List String), IsPlain text →
    (OptionNext rest ∨ ∃ path after, rest = path :: after ∧ IsPlain path.toList) →
      parse (s.flag :: String.ofList text :: rest) = parse (s.flagWith text :: rest)

end CommandLine

end ChipEight
