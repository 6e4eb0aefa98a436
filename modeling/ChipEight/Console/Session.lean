import ChipEight.Console.Keyboard
import ChipEight.Console.Screen
import ChipEight.Scheduler.Run

/-!
# Sessions

A session is a program at work on a console: the scheduler, the screen that shows it and the
keyboard that drives it.  `Session.frame` runs one frame and shows it, `Session.poll` looks at the
keyboard between frames, and `Session.run` alternates the two on a clock that moves on by the time
from frame to frame.
-/

namespace ChipEight

/-- A program at work on a console. -/
structure Session where
  /-- The scheduler that runs the program. -/
  scheduler : Scheduler
  /-- What the screen shows. -/
  screen : Screen
  /-- The keyboard. -/
  keyboard : Keyboard
  /-- What the keyboard has sent to the scheduler since the last frame. -/
  sent : List Arrival
deriving Repr, DecidableEq

namespace Session

/-- A session that has run nothing yet. -/
def new (s : Scheduler) : Session := ⟨s, .blank, .idle, []⟩

/-- Runs a frame and shows it. -/
def frame (noise : Noise) (s : Session) : Session × Ending :=
  let f := s.scheduler.frame noise [s.sent]
  ({ s with
      scheduler := f.scheduler
      screen := f.notices.foldl Screen.heed s.screen
      sent := f.later.flatten }, f.ending)

/-- Looks at the keyboard: takes in the events and lets keys go. -/
def poll (now : Nat) (events : List KeyEvent) (s : Session) : Session :=
  let polled := s.keyboard.pollAll now events
  { s with keyboard := polled.1, sent := s.sent ++ polled.2 }

/-- The nanoseconds from frame to frame on the clock of a session: frames that follow each other at
once still take a moment. -/
def pace (s : Session) : Nat := 1_000_000 * max 1 s.scheduler.config.period

/-- Runs at most `limit` frames.  The events come in after the first of them. -/
def run (noise : Noise) : Nat → Nat → List KeyEvent → Session → Session × Ending
  | 0, _, _, s => (s, .running)
  | limit + 1, now, events, s =>
    let shown := s.frame noise
    match shown.2 with
    | .running =>
      let later := now + s.pace
      run noise limit later [] (shown.1.poll later events)
    | ending => (shown.1, ending)

end Session

end ChipEight
