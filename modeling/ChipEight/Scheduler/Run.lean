import ChipEight.Scheduler.Frame

/-!
# Runs

A run is a row of frames up to the first one that finishes or fails.  Nothing bounds the length of a
run in advance, so `Scheduler.run` has a limit on the number of frames and says `running` when it
has reached the limit.  Whoever watches the run is any state that takes in notices one by one.
-/

namespace ChipEight

/-- The end of a run watched by an `α`. -/
structure Run (α : Type) where
  /-- The scheduler after the run. -/
  scheduler : Scheduler
  /-- The watcher after the run. -/
  watcher : α
  /-- How the last frame ended. -/
  ending : Ending
deriving Repr, DecidableEq

namespace Scheduler

variable {α : Type}

/-- Runs frames until one does not end in `running`, at most `limit` of them. -/
def run (noise : Noise) (heed : α → Notice → α) : Nat → α → Scheduler → Run α
  | 0, watcher, s => ⟨s, watcher, .running⟩
  | limit + 1, watcher, s =>
    let f := s.frame noise []
    let watcher' := f.notices.foldl heed watcher
    match f.ending with
    | .running => run noise heed limit watcher' f.scheduler
    | .finished => ⟨f.scheduler, watcher', .finished⟩
    | .halted fault => ⟨f.scheduler, watcher', .halted fault⟩

end Scheduler

end ChipEight
