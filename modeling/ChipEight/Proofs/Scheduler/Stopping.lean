import ChipEight.Proofs.Scheduler.Batching
import ChipEight.Proofs.Scheduler.Events
import ChipEight.Proofs.Scheduler.Viewer

/-!
# Stops

`History` keeps the events of a scheduler while frames are called, whatever arrives before each
look.

1. No event undoes that a scheduler is finished (`finished_follow`), and a finished scheduler ticks
   no more (`Lawful.tick_not_mem`).
2. Without ticks the cycles stay, and of the machine all but the keypad and the changes that wait to
   be shown (`follow_of_not_mem_tick`).
3. So no tick follows a stop or a spent budget, within a frame and in all frames after it
   (`honours_stops`).
-/

namespace ChipEight

namespace Scheduler

/-! ## Finished schedulers -/

section Finished

variable {noise : Noise} {s : Scheduler}

theorem finished_iff (s : Scheduler) :
    s.finished = true ↔
      s.stopped = true ∨ ∃ budget, s.config.budget = some budget ∧ budget ≤ s.cycles := by
  rw [← Config.spentAt_eq_true_iff]
  exact Bool.or_eq_true_iff

/-- A tick counts as a cycle just if it succeeds. -/
theorem value_advance (noise : Noise) (s : Scheduler) :
    ∃ m, (s.advance noise).value = s.withMachine m ∨
      (s.advance noise).value = { s with machine := m, cycles := s.cycles + 1 } := by
  refine ⟨(s.machine.tick (noise s.cycles)).value, ?_⟩
  unfold advance
  cases hf : (s.machine.tick (noise s.cycles)).fault with
  | some f =>
    simp only [hf]
    exact Or.inl rfl
  | none =>
    simp only [hf]
    exact Or.inr rfl

theorem finished_receive (h : s.finished = true) (a : Arrival) : (s.receive a).finished = true := by
  cases a with
  | stop => rfl
  | press key => exact h
  | release => exact h

theorem finished_advance (h : s.finished = true) : (s.advance noise).value.finished = true := by
  obtain ⟨m, hvalue | hvalue⟩ := value_advance noise s
  · rw [hvalue]
    exact h
  · -- one cycle more does not leave the budget unspent
    rw [hvalue, finished_iff]
    rcases (finished_iff s).1 h with hstopped | ⟨budget, hbudget, hle⟩
    · exact Or.inl hstopped
    · exact Or.inr ⟨budget, hbudget, Nat.le_succ_of_le hle⟩

theorem finished_follow (h : s.finished = true) (events : List Event) :
    (s.follow noise events).finished = true := by
  induction events generalizing s with
  | nil => exact h
  | cons e rest ih =>
    cases e with
    | arrival a => exact ih (finished_receive h a)
    | tick => exact ih (finished_advance h)
    | drain => exact ih h

theorem finished_receiveAll (h : s.finished = true) (arrivals : List Arrival) :
    (s.receiveAll arrivals).finished = true := by
  rw [← follow_arrivals (fun _ => 0)]
  exact finished_follow h _

theorem finished_receiveAll_of_stop {arrivals : List Arrival} (h : Arrival.stop ∈ arrivals)
    (s : Scheduler) : (s.receiveAll arrivals).finished = true := by
  obtain ⟨before, after, rfl⟩ := List.append_of_mem h
  unfold receiveAll
  rw [List.foldl_append]
  exact finished_receiveAll rfl after

end Finished

/-- Arrivals do not look at the changes that wait to be shown. -/
theorem settled_receiveAll {s s' : Scheduler} (h : s.machine.settled = s'.machine.settled)
    (arrivals : List Arrival) :
    (s.receiveAll arrivals).machine.settled = (s'.receiveAll arrivals).machine.settled := by
  unfold receiveAll
  induction arrivals generalizing s s' with
  | nil => exact h
  | cons a rest ih =>
    refine ih ?_
    cases a with
    | stop => exact h
    | press key => exact congrArg (Machine.press key) h
    | release => exact congrArg Machine.release h

/-! ## Events in order -/

/-- Only a scheduler that is not finished ticks. -/
def Lawful (noise : Noise) (s : Scheduler) : List Event → Prop
  | [] => True
  | e :: rest => (e = .tick → s.finished = false) ∧ (s.undergo noise e).Lawful noise rest

section Lawful

variable {noise : Noise} {s : Scheduler} {events : List Event}

theorem lawful_append {events' : List Event} :
    s.Lawful noise (events ++ events') ↔
      s.Lawful noise events ∧ (s.follow noise events).Lawful noise events' := by
  induction events generalizing s with
  | nil => exact ⟨fun h => ⟨trivial, h⟩, And.right⟩
  | cons e rest ih => exact (and_congr_right fun _ => ih).trans and_assoc.symm

theorem lawful_of_not_mem_tick (h : .tick ∉ events) : s.Lawful noise events := by
  induction events generalizing s with
  | nil => trivial
  | cons e rest ih =>
    rw [List.mem_cons, not_or] at h
    exact ⟨fun he => absurd he.symm h.1, ih h.2⟩

theorem Lawful.tick_not_mem (h : s.Lawful noise events) (hs : s.finished = true) :
    .tick ∉ events := by
  induction events generalizing s with
  | nil => exact List.not_mem_nil
  | cons e rest ih =>
    rw [List.mem_cons, not_or]
    refine ⟨fun he => ?_, ih h.2 (finished_follow hs [e])⟩
    exact absurd hs (Bool.eq_false_iff.1 (h.1 he.symm))

/-- The budget bounds the cycles. -/
def WithinBudget (c : Config) (s : Scheduler) : Prop :=
  s.config = c ∧ ∀ budget, c.budget = some budget → s.cycles ≤ budget

theorem WithinBudget.advance {c : Config} (h : s.WithinBudget c) (hs : s.finished = false) :
    (s.advance noise).value.WithinBudget c := by
  obtain ⟨m, hvalue | hvalue⟩ := value_advance noise s
  · rw [hvalue]
    exact h
  · rw [hvalue]
    refine ⟨h.1, fun budget hbudget => Nat.succ_le_of_lt (Nat.lt_of_not_le fun hle => ?_)⟩
    have hfinished := (finished_iff s).2 (Or.inr ⟨budget, h.1.symm ▸ hbudget, hle⟩)
    exact Bool.eq_false_iff.1 hs hfinished

theorem Lawful.withinBudget {c : Config} (h : s.Lawful noise events) (hs : s.WithinBudget c) :
    (s.follow noise events).WithinBudget c := by
  induction events generalizing s with
  | nil => exact hs
  | cons e rest ih =>
    refine ih h.2 ?_
    cases e with
    | arrival a => cases a <;> exact hs
    | tick => exact hs.advance (h.1 rfl)
    | drain => exact hs

/-- Without ticks the cycles stay, and of the machine only the keypad and the changes that wait to
be shown are not as they were. -/
theorem follow_of_not_mem_tick (noise : Noise) (s : Scheduler) (h : .tick ∉ events) :
    (s.follow noise events).cycles = s.cycles ∧
      (s.follow noise events).machine.settled =
        (s.receiveAll (events.filterMap Event.arrival?)).machine.settled := by
  induction events generalizing s with
  | nil => exact ⟨rfl, rfl⟩
  | cons e rest ih =>
    rw [List.mem_cons, not_or] at h
    obtain ⟨hcycles, hsettled⟩ := ih (s.undergo noise e) h.2
    cases e with
    | arrival a => exact ⟨hcycles.trans (by cases a <;> rfl), hsettled⟩
    | tick => exact absurd rfl h.1
    | drain =>
      have hdrained : s.drained.machine.settled = s.machine.settled := rfl
      exact ⟨hcycles, hsettled.trans (settled_receiveAll hdrained (rest.filterMap Event.arrival?))⟩

end Lawful

/-! ## One frame -/

section Frame

variable {noise : Noise} {arrivals : Arrivals} {s : Scheduler}

theorem BatchRun.lawful {n : Nat} {events : List Event} {b : Batch}
    (h : BatchRun noise n arrivals s events b) : s.Lawful noise events := by
  induction h with
  | full => trivial
  | finished h => exact lawful_of_not_mem_tick (tick_not_mem_arrivals _)
  | ticked h htick hrest ih =>
    rw [lawful_append, follow_arrivals]
    exact ⟨lawful_of_not_mem_tick (tick_not_mem_arrivals _), fun _ => h, ih⟩
  | failed h htick =>
    rw [lawful_append, follow_arrivals]
    exact ⟨lawful_of_not_mem_tick (tick_not_mem_arrivals _), fun _ => h, trivial⟩

theorem tick_not_mem_drain (received : List Arrival) :
    Event.tick ∉ .drain :: received.map Event.arrival := by simp

theorem lawful_frame : s.Lawful noise (s.frameEvents noise arrivals) := by
  obtain ⟨received, hevents, -⟩ := s.frame_split noise arrivals
  rw [hevents, lawful_append]
  exact ⟨(s.batchRun noise _ arrivals).lawful, lawful_of_not_mem_tick (tick_not_mem_drain received)⟩

theorem finished_frame (h : (s.frame noise arrivals).ending = .finished) :
    (s.frame noise arrivals).scheduler.finished = true := by
  unfold frame at h ⊢
  cases hf : (s.batch noise s.config.batchSize arrivals).fault with
  | some f =>
    simp only [hf] at h
    cases h
  | none =>
    simp only [hf] at h ⊢
    split at h
    · assumption
    · cases h

theorem drained_receiveAll (s : Scheduler) (arrivals : List Arrival) :
    s.drained.receiveAll arrivals = (s.receiveAll arrivals).drained := by
  unfold receiveAll
  induction arrivals generalizing s with
  | nil => rfl
  | cons a rest ih =>
    cases a with
    | stop => exact ih s.stop
    | press key => exact ih (s.receive (.press key))
    | release => exact ih (s.receive .release)

/-- A frame that is finished at its first look ticks no more, but tells the viewer what has changed,
where the machine is, and that this is all. -/
theorem frame_of_finished (h : (s.receiveAll (arrivals.headD [])).finished = true) :
    (s.frame noise arrivals).ending = .finished ∧
      ∃ before after : List Arrival,
        s.frameEvents noise arrivals =
            before.map Event.arrival ++ .drain :: after.map Event.arrival ∧
          (s.frame noise arrivals).notices =
            s.machine.bus.display.pending.flatMap Change.notices ++
              [.status (s.receiveAll before).status, .present] := by
  unfold frame frameEvents
  cases hsize : s.config.batchSize with
  | zero =>
    -- the first look is the one after the batch
    have hfinished : (s.drained.receiveAll (arrivals.headD [])).finished = true := by
      rw [drained_receiveAll]
      exact h
    simp only [batch, batchEvents, hfinished, if_true]
    exact ⟨trivial, [], _, rfl, rfl⟩
  | succ n =>
    have hdrained : (s.receiveAll (arrivals.headD [])).drained.finished = true := h
    have hfinished := finished_receiveAll hdrained (arrivals.tail.headD [])
    simp only [batch, batchEvents, h, hfinished, if_true]
    refine ⟨trivial, arrivals.headD [], _, rfl, ?_⟩
    rw [notices, display_receiveAll]

end Frame

end Scheduler

/-! ## All frames -/

/-- A scheduler between two frames, what is still to arrive, and what has happened. -/
structure History where
  scheduler : Scheduler
  later : Arrivals
  events : List Event

namespace History

/-- The frame that comes next. -/
def frame (noise : Noise) (h : History) : Frame := h.scheduler.frame noise h.later

/-- What happens in the frame that comes next. -/
def frameEvents (noise : Noise) (h : History) : List Event := h.scheduler.frameEvents noise h.later

/-- The history after the frame that comes next, however that ends. -/
def call (noise : Noise) (h : History) : History :=
  ⟨(h.frame noise).scheduler, (h.frame noise).later, h.events ++ h.frameEvents noise⟩

end History

namespace Scheduler

/-- The history of `k` frames. -/
def history (noise : Noise) (arrivals : Arrivals) (s : Scheduler) : Nat → History
  | 0 => ⟨s, arrivals, []⟩
  | k + 1 => (s.history noise arrivals k).call noise

variable (noise : Noise) (arrivals : Arrivals) (s : Scheduler)

theorem history_lawful (k : Nat) :
    let h := s.history noise arrivals k
    h.scheduler = s.follow noise h.events ∧ s.Lawful noise h.events := by
  induction k with
  | zero => exact ⟨rfl, trivial⟩
  | succ k ih =>
    obtain ⟨hfollow, hlawful⟩ := ih
    simp only [history, History.call, lawful_append, follow_append, ← hfollow]
    exact ⟨follow_frame noise _ _, hlawful, lawful_frame⟩

theorem history_gives (k : Nat) :
    arrivals.Gives ((s.history noise arrivals k).events.filterMap Event.arrival?)
      (s.history noise arrivals k).later := by
  induction k with
  | zero => exact Arrivals.gives_nil _
  | succ k ih =>
    simp only [history, History.call, List.filterMap_append]
    exact ih.append (gives_frame noise _ _)

theorem history_finished {k j : Nat} (hlt : k < j)
    (h : ((s.history noise arrivals k).frame noise).ending = .finished) :
    (s.history noise arrivals j).scheduler.finished = true := by
  induction hlt with
  | refl => exact finished_frame h
  | @step j hle ih =>
    show ((s.history noise arrivals j).scheduler.frame noise _).scheduler.finished = true
    rw [follow_frame]
    exact finished_follow ih _

/-- How frames treat stops and the budget, whatever arrives before each look. -/
structure HonoursStops : Prop where
  /-- What has arrived is among the events, in order, and the rest is still to arrive. -/
  all_arrive (k : Nat) :
    arrivals.Gives ((s.history noise arrivals k).events.filterMap Event.arrival?)
      (s.history noise arrivals k).later
  /-- Arrivals, whole ticks and drains have made the scheduler what it is. -/
  whole_ticks (k : Nat) :
    (s.history noise arrivals k).scheduler = s.follow noise (s.history noise arrivals k).events
  /-- After a stop no tick is run, the cycles stay, and of the machine only the keypad and the
  changes that wait to be shown are not as they were. -/
  after_stop (k : Nat) (before after : List Event)
    (h : (s.history noise arrivals k).events = before ++ .arrival .stop :: after) :
    Event.tick ∉ after ∧
      (s.history noise arrivals k).scheduler.cycles = (s.follow noise before).cycles ∧
      (s.history noise arrivals k).scheduler.machine.settled =
        ((s.follow noise before).receiveAll (after.filterMap Event.arrival?)).machine.settled
  /-- A frame that starts finished, or that a stop reaches before its first look, is finished, runs
  no tick, and tells the viewer what has changed, where the machine is, and that this is all. -/
  starts_finished (k : Nat) :
    let h := s.history noise arrivals k
    h.scheduler.finished = true ∨ .stop ∈ h.later.headD [] →
      (h.frame noise).ending = .finished ∧
        ∃ before after : List Arrival,
          h.frameEvents noise = before.map Event.arrival ++ .drain :: after.map Event.arrival ∧
            (h.frame noise).notices =
              h.scheduler.machine.bus.display.pending.flatMap Change.notices ++
                [.status (h.scheduler.receiveAll before).status, .present]
  /-- A tick that fails is what the frame answers, whatever arrives once the tick is started. -/
  failing_tick (k : Nat) (f : Fault) :
    let h := s.history noise arrivals k
    some f ∈ h.scheduler.tickFaults noise (h.frameEvents noise) →
      (h.frame noise).ending = .halted f ∧
        ∀ arrivals' : Arrivals,
          (∀ i < (h.frameEvents noise).count .tick, arrivals'.getD i [] = h.later.getD i []) →
            (h.scheduler.frame noise arrivals').ending = .halted f
  /-- Once a frame is finished, all later ones are, and run no tick. -/
  stays_finished (k j : Nat) (hlt : k < j) :
    ((s.history noise arrivals k).frame noise).ending = .finished →
      ((s.history noise arrivals j).frame noise).ending = .finished ∧
        Event.tick ∉ (s.history noise arrivals j).frameEvents noise
  /-- The cycles never exceed the budget. -/
  within_budget (k budget : Nat) (h : s.config.budget = some budget) :
    (s.history noise arrivals k).scheduler.cycles ≤ budget

/-- **Stops and the budget are honoured at ticks, and for good.**  Before any look of any frame of a
new scheduler stops and key events may arrive. -/
theorem honours_stops (m : Machine) (c : Config) : (new m c).HonoursStops noise arrivals where
  all_arrive k := history_gives noise arrivals _ k
  whole_ticks k := (history_lawful noise arrivals _ k).1
  after_stop k before after h := by
    obtain ⟨hfollow, hlawful⟩ := history_lawful noise arrivals (new m c) k
    rw [h, lawful_append] at hlawful
    rw [hfollow, h, follow_append]
    -- what follows the stop happens to a stopped scheduler
    have hstopped : ((new m c).follow noise before).stop.machine.settled =
        ((new m c).follow noise before).machine.settled := rfl
    have hquiet : Event.tick ∉ after := hlawful.2.2.tick_not_mem rfl
    obtain ⟨hcycles, hsettled⟩ :=
      follow_of_not_mem_tick noise ((new m c).follow noise before).stop hquiet
    exact ⟨hquiet, hcycles, hsettled.trans (settled_receiveAll hstopped _)⟩
  starts_finished k := by
    rintro h (hfinished | hstop)
    · exact frame_of_finished (finished_receiveAll hfinished _)
    · exact frame_of_finished (finished_receiveAll_of_stop hstop _)
  failing_tick k f := by
    intro h hfails
    have hhalted := (halted_iff f).2 hfails
    exact ⟨hhalted, fun arrivals' hsame => halted_congr hhalted hsame⟩
  stays_finished k j hlt h := by
    have hfinished := history_finished noise arrivals (new m c) hlt h
    exact ⟨(frame_of_finished (finished_receiveAll hfinished _)).1,
      lawful_frame.tick_not_mem hfinished⟩
  within_budget k budget h := by
    obtain ⟨hfollow, hlawful⟩ := history_lawful noise arrivals (new m c) k
    have hstart : (new m c).WithinBudget c := ⟨rfl, fun _ _ => Nat.zero_le _⟩
    rw [hfollow]
    exact (hlawful.withinBudget hstart).2 budget h

end Scheduler

end ChipEight
