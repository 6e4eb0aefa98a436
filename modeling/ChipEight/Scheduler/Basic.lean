import ChipEight.Machine.Tick
import ChipEight.Picture

/-!
# The scheduler

A scheduler runs a machine in batches of ticks and counts the ticks that succeed as cycles.  It is
finished when a stop was requested or the budget of cycles is spent.  Requests from outside do not
interrupt a tick: they arrive between ticks, just before the scheduler looks whether it is finished.
-/

namespace ChipEight

/-- How a scheduler runs its machine. -/
structure Config where
  /-- The number of ticks in a batch. -/
  batchSize : Nat := 10
  /-- The time from one batch to the next, in milliseconds. -/
  period : Nat := 15
  /-- The number of cycles after which the scheduler is finished, if there is one. -/
  budget : Option Nat := none
deriving Repr, DecidableEq

/-- The random byte for each cycle. -/
abbrev Noise := Nat → Byte

/-- A machine that is run in batches. -/
structure Scheduler where
  /-- The machine. -/
  machine : Machine
  /-- How it is run. -/
  config : Config
  /-- The number of ticks that have succeeded. -/
  cycles : Nat
  /-- Whether a stop was requested. -/
  stopped : Bool
deriving Repr, DecidableEq

/-- What can reach a scheduler from outside. -/
inductive Arrival where
  /-- A request to stop. -/
  | stop
  /-- A key goes down. -/
  | press (key : Nibble)
  /-- The key goes up. -/
  | release
deriving Repr, DecidableEq

/-- What arrives before each of the next looks at whether the scheduler is finished.  Nothing
arrives after the end of the list. -/
abbrev Arrivals := List (List Arrival)

namespace Scheduler

/-- A scheduler that has run nothing yet. -/
def new (machine : Machine) (config : Config) : Scheduler := ⟨machine, config, 0, false⟩

/-- Whether as many cycles as the budget allows have been run. -/
def spent (s : Scheduler) : Bool :=
  match s.config.budget with
  | none => false
  | some budget => budget ≤ s.cycles

/-- Whether the scheduler runs no more ticks. -/
def finished (s : Scheduler) : Bool := s.stopped || s.spent

/-- Where the machine is. -/
def status (s : Scheduler) : Status := ⟨s.machine.pc, s.machine.next.toOption, s.cycles⟩

/-- Requests a stop. -/
def stop (s : Scheduler) : Scheduler := { s with stopped := true }

/-- The same scheduler with another machine. -/
def withMachine (m : Machine) (s : Scheduler) : Scheduler := { s with machine := m }

/-- Something arrives from outside. -/
def receive (s : Scheduler) : Arrival → Scheduler
  | .stop => s.stop
  | .press key => s.withMachine (s.machine.press key)
  | .release => s.withMachine s.machine.release

/-- Several things arrive from outside, one after the other. -/
def receiveAll (s : Scheduler) (arrivals : List Arrival) : Scheduler := arrivals.foldl receive s

@[simp] theorem receiveAll_nil (s : Scheduler) : s.receiveAll [] = s := rfl

theorem receiveAll_append (s : Scheduler) (received received' : List Arrival) :
    s.receiveAll (received ++ received') = (s.receiveAll received).receiveAll received' :=
  List.foldl_append

end Scheduler

end ChipEight
