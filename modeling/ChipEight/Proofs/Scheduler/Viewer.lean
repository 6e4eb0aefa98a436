import ChipEight.Proofs.Bus.Stable
import ChipEight.Proofs.Display.InStep
import ChipEight.Scheduler.Frame

/-!
# The viewer of a scheduler

A viewer starts dark and heeds what each frame tells it.  Whatever happens to the machine between
frames, after each frame the viewer shows the picture of the machine (`lit_after_frame`), as long as
only frames drain the display.
-/

namespace ChipEight

/-- A scheduler, and the grid of its viewer. -/
structure Watched where
  scheduler : Scheduler
  picture : Picture
deriving Repr, DecidableEq

/-- What can happen to a watched scheduler: a frame, an operation on its machine, an arrival. -/
inductive Action where
  | frame (noise : Noise) (arrivals : Arrivals)
  | operate (op : Operation)
  | receive (arrival : Arrival)

/-! ## Stable properties in a frame -/

namespace Bus.Stable

variable {P : Bus → Prop} {s : Scheduler}

theorem receive (hP : Stable P) (arrival : Arrival) (hs : P s.machine.bus) :
    P (s.receive arrival).machine.bus := by
  cases arrival with
  | stop => exact hs
  | press key => exact hP.press key hs
  | release => exact hP.release hs

theorem receiveAll (hP : Stable P) (arrivals : List Arrival) (hs : P s.machine.bus) :
    P (s.receiveAll arrivals).machine.bus := by
  unfold Scheduler.receiveAll
  induction arrivals generalizing s with
  | nil => exact hs
  | cons arrival rest ih => exact ih (hP.receive arrival hs)

theorem advance (hP : Stable P) (noise : Noise) (hs : P s.machine.bus) :
    P (s.advance noise).value.machine.bus := by
  have htick : P (s.machine.tick (noise s.cycles)).value.bus := hP.tick (noise s.cycles) hs
  unfold Scheduler.advance
  simp only
  split <;> exact htick

theorem batch (hP : Stable P) (noise : Noise) (n : Nat) (later : Arrivals)
    (hs : P s.machine.bus) : P (s.batch noise n later).scheduler.machine.bus := by
  induction n generalizing later s with
  | zero => exact hs
  | succ n ih =>
    have hready := hP.receiveAll (later.headD []) hs
    have hran := hP.advance noise hready
    rw [Scheduler.batch]
    simp only
    split
    · exact hready
    · split
      · exact ih _ hran
      · exact hran

end Bus.Stable

/-! ## Viewers in step -/

namespace Bus

theorem display_setCell (a : Fin 4096) (byte : Byte) (b : Bus) :
    (b.setCell a byte).display = b.display ∨
      ∃ place, (b.setCell a byte).display = b.display.write place byte := by
  unfold setCell
  cases Location.of a with
  | picture place => exact Or.inr ⟨place, rfl⟩
  | memory | keyFlag | keyNumber => exact Or.inl rfl

/-- A viewer in step stays in step until the display is drained. -/
theorem stable_inStep (p : Picture) : Stable fun b => p.InStep b.display where
  setCell := by
    intro b a byte h
    rcases display_setCell a byte b with hd | ⟨place, hd⟩
    · rw [hd]; exact h
    · rw [hd]; exact h.write place byte
  clear := fun {b} _ => p.inStep_clear b.display

theorem display_loadGlyphs (b : Bus) : b.loadGlyphs.display = b.display := by rw [loadGlyphs]

theorem display_loadProgram {b b' : Bus} {image : Array Byte} (h : b.loadProgram image = .ok b') :
    b'.display = b.display := by
  obtain ⟨-, rfl⟩ := loadProgram_eq_ok h
  rfl

end Bus

namespace Scheduler

theorem display_receiveAll (arrivals : List Arrival) (s : Scheduler) :
    (s.receiveAll arrivals).machine.bus.display = s.machine.bus.display := by
  unfold receiveAll
  induction arrivals generalizing s with
  | nil => rfl
  | cons arrival rest ih =>
    rw [List.foldl_cons, ih]
    cases arrival <;> rfl

/-- Where a machine is, and that a frame is complete, does not change the grid. -/
theorem heedAll_notices (s : Scheduler) (p : Picture) :
    p.heedAll s.notices = p.paint s.machine.bus.display.pending := by
  rw [notices, Picture.heedAll_append]
  rfl

/-- A viewer in step with the display before a frame shows the display after it. -/
theorem shows_frame {p : Picture} {s : Scheduler} (noise : Noise) (arrivals : Arrivals)
    (h : p.InStep s.machine.bus.display) :
    (p.heedAll (s.frame noise arrivals).notices).Shows
        (s.frame noise arrivals).scheduler.machine.bus.display ∧
      (p.heedAll (s.frame noise arrivals).notices).InStep
        (s.frame noise arrivals).scheduler.machine.bus.display := by
  have hran : p.InStep (s.batch noise s.config.batchSize arrivals).scheduler.machine.bus.display :=
    (Bus.stable_inStep p).batch noise s.config.batchSize arrivals h
  -- the frame drains the display of the batch, and what arrives later does not reach it
  unfold frame
  simp only
  split
  · rw [heedAll_notices]
    exact hran.drain
  · rw [heedAll_notices, display_receiveAll]
    exact hran.drain

end Scheduler

namespace Watched

/-- A new scheduler on a fresh machine, with a dark viewer. -/
def start (keypad : Keypad) (config : Config) : Watched :=
  ⟨.new (.fresh keypad) config, .dark⟩

/-- The watched scheduler after an action; only a frame reaches the viewer. -/
def act (w : Watched) : Action → Watched
  | .frame noise arrivals =>
    let f := w.scheduler.frame noise arrivals
    ⟨f.scheduler, w.picture.heedAll f.notices⟩
  | .operate op => { w with
      scheduler := w.scheduler.withMachine (w.scheduler.machine.respond op).value }
  | .receive arrival => { w with scheduler := w.scheduler.receive arrival }

/-- The watched scheduler after actions, one after the other. -/
def after (w : Watched) (actions : List Action) : Watched := actions.foldl act w

/-- The viewer is in step with the machine. -/
def InStep (w : Watched) : Prop := w.picture.InStep w.scheduler.machine.bus.display

theorem inStep_start (keypad : Keypad) (config : Config) : (start keypad config).InStep :=
  Picture.inStep_dark

theorem InStep.act {w : Watched} (h : w.InStep) {action : Action}
    (hdrain : action ≠ .operate .drain) : (w.act action).InStep := by
  cases action with
  | frame noise arrivals => exact (Scheduler.shows_frame noise arrivals h).2
  | operate op =>
    refine (Bus.stable_inStep w.picture).respond (fun hload hb => ?_) (fun {b} hb => ?_) ?_ h
    · rw [Bus.display_loadProgram hload]; exact hb
    · rw [Bus.display_loadGlyphs]; exact hb
    · rintro rfl
      exact absurd rfl hdrain
  | receive arrival => exact (Bus.stable_inStep w.picture).receive arrival h

theorem InStep.after {w : Watched} (h : w.InStep) {actions : List Action}
    (hdrain : Action.operate .drain ∉ actions) : (w.after actions).InStep := by
  unfold Watched.after
  induction actions generalizing w with
  | nil => exact h
  | cons action rest ih =>
    rw [List.mem_cons, not_or] at hdrain
    exact ih (h.act fun e => hdrain.1 e.symm) hdrain.2

/-- **The picture after a frame.**  Whatever was done to a fresh machine before, except that nobody
else drained its display, each frame leaves every pixel of the viewer as it is on the display. -/
theorem lit_after_frame (keypad : Keypad) (config : Config) (actions : List Action)
    (hdrain : Action.operate .drain ∉ actions) (noise : Noise) (arrivals : Arrivals)
    (x : Fin 64) (y : Fin 32) :
    let shown := ((start keypad config).after actions).act (.frame noise arrivals)
    shown.picture.lit x y = shown.scheduler.machine.bus.display.pixel x y :=
  (Scheduler.shows_frame noise arrivals ((inStep_start keypad config).after hdrain)).1 x y

/-- More writes than the backlog holds, a picture that is blanked, a sprite over two edges. -/
theorem lit_after_frame_overflow :
    let actions : List Action :=
      List.replicate 600 (.operate (.write 0x058 0xAA)) ++
        [.frame (fun _ => 0) [], .operate .clear, .operate (.blit 60 30 [0xFF, 0x81, 0xFF]),
          .receive (.press 5), .operate (.perform 0 (.storeRegisters 0xF)), .receive .stop]
    let shown :=
      ((start .idle { budget := some 3 }).after actions).act (.frame (fun _ => 0) [[.stop]])
    Action.operate .drain ∉ actions ∧
      shown.picture.lit 63 31 = shown.scheduler.machine.bus.display.pixel 63 31 := by
  have h : Action.operate .drain ∉ List.replicate 600 (Action.operate (.write 0x058 0xAA)) ++
      [.frame (fun _ => 0) [], .operate .clear, .operate (.blit 60 30 [0xFF, 0x81, 0xFF]),
        .receive (.press 5), .operate (.perform 0 (.storeRegisters 0xF)), .receive .stop] := by
    intro hmem
    rcases List.mem_append.1 hmem with hmem | hmem
    · cases List.eq_of_mem_replicate hmem
    · simp at hmem
  exact ⟨h, lit_after_frame .idle { budget := some 3 } _ h (fun _ => 0) [[.stop]] 63 31⟩

end Watched

end ChipEight
