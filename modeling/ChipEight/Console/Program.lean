import ChipEight.Console.Session
import ChipEight.Console.Toolkit

/-!
# The program

The program reads its command line, loads the program image that the command line names and runs it
in a session.  What it leaves behind is a `Report`: an exit code, for a failure a message, and what
the screen showed last.
-/

namespace ChipEight

/-- Why a file could not be read. -/
inductive ReadError where
  /-- There is no file of this name. -/
  | notFound
  /-- Another reason, in words. -/
  | other (reason : String)
deriving Repr, DecidableEq

/-- The wording of a reason. -/
def ReadError.message : ReadError → String
  | notFound => "No such file or directory (os error 2)"
  | other reason => reason

/-- What the program leaves behind. -/
structure Report where
  /-- The exit code. -/
  exitCode : Nat
  /-- The message of a failure. -/
  message : Option String
  /-- The rows that the screen showed last. -/
  screen : List String
deriving Repr, DecidableEq

namespace Report

/-- The report of a failure. -/
def failure (kit : Toolkit) (context cause : String) (screen : List String) : Report :=
  ⟨1, some (kit.explain context cause), screen⟩

/-- The report of a command line that was not understood. -/
def usage (e : CommandLine.UsageError) : Report := ⟨e.exitCode, none, []⟩

/-- The report of a session, or nothing while it has not ended. -/
def ofSession? (kit : Toolkit) (s : Session) : Ending → Option Report
  | .running => none
  | .finished => some ⟨0, none, s.screen.rows kit.paint⟩
  | .halted fault =>
    some (failure kit "Chip8 Execution error" fault.message (s.screen.rows kit.paint))

end Report

namespace Program

/-- The session for an image, ready to run, or the report of why it cannot be run. -/
def prepare (kit : Toolkit) (config : Config) (file : Except ReadError (Array Byte)) :
    Except Report Session :=
  match file with
  | .error e => .error (.failure kit "Failed to read ROM file" e.message [])
  | .ok image =>
    match Machine.new.loadProgram image with
    | .error f => .error (.failure kit "Failed to load ROM into CHIP-8 memory" f.message [])
    | .ok machine => .ok (.new (.new machine config))

/-- Runs the program with these arguments and files; `typed` is typed on the keyboard as soon as the
first frame is shown.  There is no report of a program that has not ended after `limit` frames. -/
def run (kit : Toolkit) (noise : Noise) (limit : Nat)
    (files : String → Except ReadError (Array Byte)) (arguments : List String)
    (typed : List KeyEvent) : Option Report :=
  match kit.parse arguments with
  | .error e => some (.usage e)
  | .ok settings =>
    match prepare kit settings.config (files settings.path) with
    | .error report => some report
    | .ok session =>
      let ended := session.run noise limit 0 typed
      Report.ofSession? kit ended.1 ended.2

end Program

end ChipEight
