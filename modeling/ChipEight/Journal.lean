import ChipEight.Instruction.Assembly
import ChipEight.Scheduler.Run
import ChipEight.Text.Duration

/-!
# The journal

What the machine and the scheduler report while they work.  An entry is a value with a level and a
wording; nothing depends on whether anybody reads it.
-/

namespace ChipEight

/-- How important an entry is. -/
inductive Level where
  | trace | debug | error
deriving Repr, DecidableEq

/-- The name of a level. -/
def Level.text : Level → String
  | trace => "TRACE"
  | debug => "DEBUG"
  | error => "ERROR"

/-- A report. -/
inductive Entry where
  /-- A program of `size` bytes was loaded. -/
  | loaded (size : Nat)
  /-- The instruction at `address` is about to run. -/
  | running (address word : Word) (i : Instruction)
  /-- A run starts. -/
  | started (config : Config)
  /-- A run has ended without a fault. -/
  | ended (cycles : Nat)
  /-- A tick failed. -/
  | halted (pc : Word) (cycles : Nat) (fault : Fault)
deriving Repr, DecidableEq

/-- A word as an address: three digits after the mark, four if it needs them. -/
def Word.place (w : Word) : List Char :=
  if w.toNat < 4096 then Hex.number 3 w.toNat else Hex.number 4 w.toNat

/-- A configuration with the names of its fields. -/
def Config.text (c : Config) : String :=
  "RunnerConfig \x7b cycles_per_frame: " ++ Decimal.text c.batchSize
    ++ ", frame_period: " ++ Duration.text c.period ++ ", cycle_budget: "
    ++ (match c.budget with
        | none => "None"
        | some budget => "Some(" ++ Decimal.text budget ++ ")")
    ++ " \x7d"

namespace Entry

/-- The level of an entry. -/
def level : Entry → Level
  | loaded _ => .debug
  | running .. => .trace
  | started _ => .debug
  | ended _ => .debug
  | halted .. => .error

/-- The wording of an entry. -/
def text : Entry → String
  | loaded size =>
    "loaded " ++ Decimal.text size ++ " byte ROM at "
      ++ Hex.text 3 Bus.programStart
  | running address word i =>
    String.ofList (address.place ++ ':' :: ' ' :: Hex.digits 4 word.toNat) ++ "  " ++ i.text
  | started config => "starting run loop with " ++ config.text
  | ended cycles => "run loop finished after " ++ Decimal.text cycles ++ " cycles"
  | halted pc cycles fault =>
    "halted at " ++ String.ofList pc.place ++ " after " ++ Decimal.text cycles ++ " cycles: "
      ++ fault.message

/-- The entry as a line, level first. -/
def line (e : Entry) : String := e.level.text ++ " " ++ e.text

/-- The report that a machine makes before it runs its next instruction.  A word that is no
instruction is not reported. -/
def ofMachine (m : Machine) : List Entry :=
  match m.fetch with
  | .error _ => []
  | .ok word =>
    match Instruction.ofWord? word with
    | some i => [running m.pc word i]
    | none => []

end Entry

namespace Machine

/-- What up to `n` steps without timers report. -/
def stepEntries (noise : Byte) (n : Nat) (m : Machine) : List Entry :=
  (attempted (step noise) n m).flatMap Entry.ofMachine

/-- What up to `n` ticks report. -/
def tickEntries (noise : Byte) (n : Nat) (m : Machine) : List Entry :=
  (attempted (tick noise) n m).flatMap Entry.ofMachine

/-- What loading a program reports: nothing if it does not fit. -/
def loadEntries (image : Array Byte) (m : Machine) : List Entry :=
  match m.loadProgram image with
  | .ok _ => [.loaded image.size]
  | .error _ => []

end Machine

namespace Scheduler

/-- What a batch reports. -/
def batchEntries (noise : Noise) : Nat → Arrivals → Scheduler → List Entry
  | 0, _, _ => []
  | n + 1, later, s =>
    let ready := s.receiveAll (later.headD [])
    if ready.finished then
      []
    else
      let o := ready.advance noise
      match o.fault with
      | none => Entry.ofMachine ready.machine ++ batchEntries noise n later.tail o.value
      | some f =>
        Entry.ofMachine ready.machine ++ [.halted o.value.machine.pc o.value.cycles f]

/-- What a frame reports. -/
def frameEntries (noise : Noise) (arrivals : Arrivals) (s : Scheduler) : List Entry :=
  s.batchEntries noise s.config.batchSize arrivals

/-- What the frames of a run report. -/
def framesEntries (noise : Noise) : Nat → Scheduler → List Entry
  | 0, _ => []
  | limit + 1, s =>
    let f := s.frame noise []
    s.frameEntries noise [] ++
      match f.ending with
      | .running => framesEntries noise limit f.scheduler
      | .finished => [.ended f.scheduler.cycles]
      | .halted _ => []

/-- What a run of at most `limit` frames reports. -/
def runEntries (noise : Noise) (limit : Nat) (s : Scheduler) : List Entry :=
  .started s.config :: s.framesEntries noise limit

end Scheduler

end ChipEight
