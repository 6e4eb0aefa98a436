import ChipEight.Scheduler.Basic

/-!
# Frames

In a frame the scheduler runs one batch of ticks and then tells the viewer what has changed.  The
batch ends early when the scheduler is finished or a tick fails; the viewer is told in any case.
-/

namespace ChipEight

/-- How a frame ended. -/
inductive Ending where
  /-- There are more frames to come. -/
  | running
  /-- A stop was requested or the budget is spent. -/
  | finished
  /-- A tick failed. -/
  | halted (fault : Fault)
deriving Repr, DecidableEq

/-- The end of a batch of ticks. -/
structure Batch where
  /-- The scheduler after the batch. -/
  scheduler : Scheduler
  /-- Why a tick failed, if one did. -/
  fault : Option Fault
  /-- What arrives after the batch. -/
  later : Arrivals
deriving Repr, DecidableEq

/-- A frame. -/
structure Frame where
  /-- The scheduler after the frame. -/
  scheduler : Scheduler
  /-- What the viewer was told, in order. -/
  notices : List Notice
  /-- How the frame ended. -/
  ending : Ending
  /-- What arrives after the frame. -/
  later : Arrivals
deriving Repr, DecidableEq

namespace Scheduler

/-- One tick; it counts as a cycle if it succeeds. -/
def advance (noise : Noise) (s : Scheduler) : Outcome Scheduler :=
  let o := s.machine.tick (noise s.cycles)
  match o.fault with
  | none => .success { s with machine := o.value, cycles := s.cycles + 1 }
  | some f => .failure (s.withMachine o.value) f

/-- Up to `n` ticks, until the scheduler is finished or a tick fails. -/
def batch (noise : Noise) : Nat → Arrivals → Scheduler → Batch
  | 0, later, s => ⟨s, none, later⟩
  | n + 1, later, s =>
    let ready := s.receiveAll (later.headD [])
    if ready.finished then
      ⟨ready, none, later.tail⟩
    else
      let o := ready.advance noise
      match o.fault with
      | none => batch noise n later.tail o.value
      | some f => ⟨o.value, some f, later.tail⟩

/-- The changes of the display are handed over. -/
def drained (s : Scheduler) : Scheduler :=
  let b := s.machine.bus
  s.withMachine (s.machine.withBus { b with display := b.display.drain.2 })

/-- What the viewer is told after a batch: what has changed in the picture, where the machine is,
and that this is all. -/
def notices (s : Scheduler) : List Notice :=
  s.machine.bus.display.pending.flatMap Change.notices ++ [.status s.status, .present]

/-- Runs a batch and tells the viewer what has changed. -/
def frame (noise : Noise) (arrivals : Arrivals) (s : Scheduler) : Frame :=
  let ran := s.batch noise s.config.batchSize arrivals
  let shown := ran.scheduler.drained
  match ran.fault with
  | some f => ⟨shown, ran.scheduler.notices, .halted f, ran.later⟩
  | none =>
    let after := shown.receiveAll (ran.later.headD [])
    ⟨after, ran.scheduler.notices, if after.finished then .finished else .running, ran.later.tail⟩

end Scheduler

end ChipEight
