import ChipEight.Console.KeyReport
import ChipEight.Console.Program

/-!
# The executable

Connects the program to the files, the terminal and the clock.  A second thread reads what is typed;
the terminal hands typed characters over line by line, so that thread ends with the line it reads.
-/

namespace ChipEight.Executable

/-- Reads a whole file. -/
def readFile (path : String) : IO (Except ReadError (Array Byte)) := do
  try
    let bytes ← IO.FS.readBinFile path
    return .ok (bytes.data.map UInt8.toBitVec)
  catch
    | .noFileOrDirectory .. => return .error .notFound
    | e => return .error (.other (toString e))

/-- Random bytes that depend on `seed` and the number of the cycle only. -/
def noise (seed : Nat) : Noise := fun cycle => BitVec.ofNat 8 (hash (seed, cycle)).toNat

/-- Writes rows over what the terminal shows. -/
def paint (rows : List String) : IO Unit := do
  let output ← IO.getStdout
  output.putStr ("\x1b[H" ++ "\x1b[K\r\n".intercalate rows ++ "\x1b[K")
  output.flush

/-- Collects what is typed until the input ends. -/
partial def collect (input : IO.FS.Stream) (typed : IO.Ref (List Char)) : IO Unit := do
  let bytes ← input.read 1
  if bytes.isEmpty then return
  typed.modify (· ++ bytes.data.toList.map fun b => Char.ofNat b.toNat)
  collect input typed

/-- Runs the session on the clock of the computer until it ends. -/
partial def play (noise : Noise) (typed : IO.Ref (List Char)) (s : Session) :
    IO (Session × Ending) := do
  let start ← IO.monoMsNow
  let (shown, ending) := s.frame noise
  paint (shown.screen.rows Toolkit.plain.paint)
  match ending with
  | .running =>
    let spent := (← IO.monoMsNow) - start
    IO.sleep (min 0xFFFFFFFF (shown.scheduler.config.period - spent)).toUInt32
    let text ← typed.modifyGet fun text => (text, [])
    play noise typed (shown.poll (← IO.monoNanosNow) (KeyEvent.readAll text))
  | _ => return (shown, ending)

/-- Says what came of the program and gives its exit code. -/
def conclude (report : Report) : IO UInt32 := do
  match report.message with
  | some message => (← IO.getStderr).putStr message
  | none => pure ()
  return report.exitCode.toUInt32

end ChipEight.Executable

open ChipEight in
/-- Runs the program with the arguments of the command line. -/
def main (arguments : List String) : IO UInt32 := do
  match Toolkit.plain.parse arguments with
  | .error e =>
    (← if e.exitCode = 0 then IO.getStdout else IO.getStderr).putStrLn (CommandLine.help e)
    Executable.conclude (.usage e)
  | .ok settings =>
    match Program.prepare .plain settings.config (← Executable.readFile settings.path) with
    | .error report => Executable.conclude report
    | .ok session =>
      let seed ← IO.rand 0 0xFFFFFFFF
      let typed ← IO.mkRef []
      let _ ← IO.asTask (Executable.collect (← IO.getStdin) typed) Task.Priority.dedicated
      IO.print "\x1b[2J"
      let (ended, ending) ← Executable.play (Executable.noise seed) typed session
      IO.println ""
      match Report.ofSession? .plain ended ending with
      | some report => Executable.conclude report
      | none => return 0
