import ChipEight.Scheduler.Frame

/-!
# What happens in a frame

What happens to a scheduler is a row of events: something arrives, the machine ticks, the display
is drained.  `batchEvents` and `frameEvents` are the rows of a batch and of a frame.

1. A batch and a frame are what their events make of the scheduler (`BatchRun.follow`,
   `follow_frame`), and what arrives is among the events (`gives_frame`).
2. The cycles count the ticks that succeed (`cycles_follow`).
3. A frame answers the fault of the tick that failed in it, whatever arrives once that tick is
   started (`halted_iff`, `halted_congr`).
-/

namespace ChipEight

/-- What can happen to a scheduler: something arrives, its machine runs a whole tick, or the changes
of the display are handed over. -/
inductive Event where
  | arrival (arrival : Arrival)
  | tick
  | drain
deriving Repr, DecidableEq

/-- What arrives with the event. -/
def Event.arrival? : Event → Option Arrival
  | arrival a => some a
  | tick => none
  | drain => none

namespace Arrivals

/-- A number of looks finds `received`, one list after the other, and leaves `later`. -/
def Gives (arrivals : Arrivals) (received : List Arrival) (later : Arrivals) : Prop :=
  ∃ looks, (arrivals.take looks).flatten = received ∧ arrivals.drop looks = later

theorem gives_nil (arrivals : Arrivals) : arrivals.Gives [] arrivals := ⟨0, rfl, rfl⟩

theorem gives_head (arrivals : Arrivals) : arrivals.Gives (arrivals.headD []) arrivals.tail := by
  refine ⟨1, ?_, List.drop_one⟩
  cases arrivals with
  | nil => rfl
  | cons now later => exact List.flatten_singleton

theorem Gives.append {arrivals later later' : Arrivals} {received received' : List Arrival}
    (h : arrivals.Gives received later) (h' : later.Gives received' later') :
    arrivals.Gives (received ++ received') later' := by
  obtain ⟨looks, rfl, rfl⟩ := h
  obtain ⟨looks', rfl, rfl⟩ := h'
  exact ⟨looks + looks', by rw [List.take_add, List.flatten_append], List.drop_drop.symm⟩

theorem getD_zero (later : Arrivals) : later.getD 0 [] = later.headD [] := by
  cases later <;> rfl

theorem getD_succ (later : Arrivals) (i : Nat) : later.getD (i + 1) [] = later.tail.getD i [] := by
  cases later <;> rfl

/-- What is the same before `n + 1` looks is the same before the first one and `n` more. -/
theorem split_congr {later later' : Arrivals} {n : Nat}
    (h : ∀ i < n + 1, later'.getD i [] = later.getD i []) :
    later'.headD [] = later.headD [] ∧ ∀ i < n, later'.tail.getD i [] = later.tail.getD i [] := by
  refine ⟨?_, fun i hi => ?_⟩
  · rw [← getD_zero, ← getD_zero]
    exact h 0 (Nat.succ_pos n)
  · rw [← getD_succ, ← getD_succ]
    exact h (i + 1) (Nat.succ_lt_succ hi)

end Arrivals

theorem Event.filterMap_arrivals (arrivals : List Arrival) :
    (arrivals.map arrival).filterMap arrival? = arrivals := by
  rw [List.filterMap_map]
  exact List.filterMap_some

namespace Scheduler

/-- The scheduler after an event. -/
def undergo (noise : Noise) (s : Scheduler) : Event → Scheduler
  | .arrival a => s.receive a
  | .tick => (s.advance noise).value
  | .drain => s.drained

/-- The scheduler after events, one after the other. -/
def follow (noise : Noise) (s : Scheduler) (events : List Event) : Scheduler :=
  events.foldl (undergo noise) s

/-- What the ticks among events answer, in order. -/
def tickFaults (noise : Noise) (s : Scheduler) : List Event → List (Option Fault)
  | [] => []
  | e :: rest =>
    let answered := (s.undergo noise e).tickFaults noise rest
    match e with
    | .tick => (s.advance noise).fault :: answered
    | _ => answered

/-- What happens in a batch, in order. -/
def batchEvents (noise : Noise) : Nat → Arrivals → Scheduler → List Event
  | 0, _, _ => []
  | n + 1, later, s =>
    let received := (later.headD []).map Event.arrival
    let ready := s.receiveAll (later.headD [])
    if ready.finished then
      received
    else
      let o := ready.advance noise
      match o.fault with
      | none => received ++ .tick :: batchEvents noise n later.tail o.value
      | some _ => received ++ [.tick]

/-- What happens in a frame, in order. -/
def frameEvents (noise : Noise) (arrivals : Arrivals) (s : Scheduler) : List Event :=
  let ran := s.batch noise s.config.batchSize arrivals
  s.batchEvents noise s.config.batchSize arrivals ++ .drain ::
    match ran.fault with
    | some _ => []
    | none => (ran.later.headD []).map Event.arrival

section Follow

variable (noise : Noise)

theorem follow_append (s : Scheduler) (events events' : List Event) :
    s.follow noise (events ++ events') = (s.follow noise events).follow noise events' :=
  List.foldl_append

theorem follow_arrivals (s : Scheduler) (arrivals : List Arrival) :
    s.follow noise (arrivals.map Event.arrival) = s.receiveAll arrivals := List.foldl_map

theorem tickFaults_append (s : Scheduler) (events events' : List Event) :
    s.tickFaults noise (events ++ events') =
      s.tickFaults noise events ++ (s.follow noise events).tickFaults noise events' := by
  induction events generalizing s with
  | nil => rfl
  | cons e rest ih =>
    cases e with
    | arrival a => exact ih (s.receive a)
    | tick => exact congrArg ((s.advance noise).fault :: ·) (ih (s.advance noise).value)
    | drain => exact ih s.drained

theorem tickFaults_arrivals (s : Scheduler) (arrivals : List Arrival) :
    s.tickFaults noise (arrivals.map Event.arrival) = [] := by
  induction arrivals generalizing s with
  | nil => rfl
  | cons a rest ih => exact ih (s.receive a)

theorem length_tickFaults (s : Scheduler) (events : List Event) :
    (s.tickFaults noise events).length = events.count .tick := by
  induction events generalizing s with
  | nil => rfl
  | cons e rest ih =>
    cases e with
    | arrival a => rw [List.count_cons_of_ne (by simp)]; exact ih (s.receive a)
    | tick => rw [List.count_cons_self]; exact congrArg (· + 1) (ih (s.advance noise).value)
    | drain => rw [List.count_cons_of_ne (by simp)]; exact ih s.drained

theorem cycles_receive (s : Scheduler) (a : Arrival) : (s.receive a).cycles = s.cycles := by
  cases a <;> rfl

theorem cycles_advance (s : Scheduler) :
    (s.advance noise).value.cycles = s.cycles + [(s.advance noise).fault].count none := by
  unfold advance
  cases hf : (s.machine.tick (noise s.cycles)).fault with
  | none => simp only [hf]; rfl
  | some f => simp only [hf]; rfl

/-- The ticks that succeed are the cycles. -/
theorem cycles_follow (s : Scheduler) (events : List Event) :
    (s.follow noise events).cycles = s.cycles + (s.tickFaults noise events).count none := by
  induction events generalizing s with
  | nil => rfl
  | cons e rest ih =>
    cases e with
    | arrival a => exact (ih (s.receive a)).trans (congrArg (· + _) (s.cycles_receive a))
    | tick =>
      refine (ih (s.advance noise).value).trans ?_
      rw [cycles_advance, Nat.add_assoc, ← List.count_append]
      rfl
    | drain => exact ih s.drained

theorem cycles_receiveAll (s : Scheduler) (arrivals : List Arrival) :
    (s.receiveAll arrivals).cycles = s.cycles := by
  rw [← follow_arrivals (fun _ => 0), cycles_follow, tickFaults_arrivals]
  rfl

theorem tick_not_mem_arrivals (arrivals : List Arrival) :
    Event.tick ∉ arrivals.map Event.arrival := by simp

theorem count_tick_received (arrivals : List Arrival) (events : List Event) :
    (arrivals.map Event.arrival ++ events).count .tick = events.count .tick := by
  rw [List.count_append, List.count_eq_zero.2 (tick_not_mem_arrivals arrivals), Nat.zero_add]

end Follow

/-! ## One batch -/

/-- How a batch runs: its events, and where it ends. -/
inductive BatchRun (noise : Noise) : Nat → Arrivals → Scheduler → List Event → Batch → Prop where
  | full {later : Arrivals} {s : Scheduler} : BatchRun noise 0 later s [] ⟨s, none, later⟩
  | finished {n : Nat} {later : Arrivals} {s : Scheduler}
      (h : (s.receiveAll (later.headD [])).finished = true) :
      BatchRun noise (n + 1) later s ((later.headD []).map Event.arrival)
        ⟨s.receiveAll (later.headD []), none, later.tail⟩
  | ticked {n : Nat} {later : Arrivals} {s : Scheduler} {events : List Event} {b : Batch}
      (h : (s.receiveAll (later.headD [])).finished = false)
      (htick : ((s.receiveAll (later.headD [])).advance noise).fault = none)
      (hrest : BatchRun noise n later.tail ((s.receiveAll (later.headD [])).advance noise).value
        events b) :
      BatchRun noise (n + 1) later s ((later.headD []).map Event.arrival ++ .tick :: events) b
  | failed {n : Nat} {later : Arrivals} {s : Scheduler} {f : Fault}
      (h : (s.receiveAll (later.headD [])).finished = false)
      (htick : ((s.receiveAll (later.headD [])).advance noise).fault = some f) :
      BatchRun noise (n + 1) later s ((later.headD []).map Event.arrival ++ [.tick])
        ⟨((s.receiveAll (later.headD [])).advance noise).value, some f, later.tail⟩

theorem batchRun (noise : Noise) (n : Nat) (later : Arrivals) (s : Scheduler) :
    BatchRun noise n later s (s.batchEvents noise n later) (s.batch noise n later) := by
  induction n generalizing later s with
  | zero => exact .full
  | succ n ih =>
    rw [batchEvents, batch]
    cases h : (s.receiveAll (later.headD [])).finished with
    | true =>
      simp only [if_true]
      exact .finished h
    | false =>
      simp only [Bool.false_eq_true, if_false]
      cases htick : ((s.receiveAll (later.headD [])).advance noise).fault with
      | none => exact .ticked h htick (ih _ _)
      | some f => exact .failed h htick

namespace BatchRun

variable {noise : Noise} {n : Nat} {later : Arrivals} {s : Scheduler} {events : List Event}
  {b : Batch}

/-- A batch is what its events make of the scheduler. -/
theorem follow (h : BatchRun noise n later s events b) : b.scheduler = s.follow noise events := by
  induction h with
  | full => rfl
  | finished h => rw [follow_arrivals]
  | ticked h htick hrest ih =>
    rw [follow_append, follow_arrivals]
    exact ih
  | failed h htick =>
    rw [follow_append, follow_arrivals]
    rfl

/-- Among the events of a batch is what arrives before its looks, in order. -/
theorem gives (h : BatchRun noise n later s events b) :
    later.Gives (events.filterMap Event.arrival?) b.later := by
  induction h with
  | full => exact Arrivals.gives_nil _
  | finished h =>
    rw [Event.filterMap_arrivals]
    exact Arrivals.gives_head _
  | ticked h htick hrest ih =>
    rw [List.filterMap_append, Event.filterMap_arrivals]
    exact (Arrivals.gives_head _).append ih
  | failed h htick =>
    rw [List.filterMap_append, Event.filterMap_arrivals]
    exact (Arrivals.gives_head _).append (Arrivals.gives_nil _)

/-- The fault of a batch is that of the tick that failed in it. -/
theorem fault_eq_some_iff (h : BatchRun noise n later s events b) (f : Fault) :
    b.fault = some f ↔ some f ∈ s.tickFaults noise events := by
  induction h with
  | full => exact ⟨(nomatch ·), (nomatch ·)⟩
  | finished h =>
    rw [tickFaults_arrivals]
    exact ⟨(nomatch ·), (nomatch ·)⟩
  | @ticked n later s events b h htick hrest ih =>
    rw [tickFaults_append, tickFaults_arrivals, follow_arrivals, List.nil_append, ih]
    show _ ↔ some f ∈ ((s.receiveAll (later.headD [])).advance noise).fault :: _
    rw [htick, List.mem_cons]
    exact ⟨Or.inr, fun hmem => hmem.resolve_left (nomatch ·)⟩
  | @failed n later s f' h htick =>
    rw [tickFaults_append, tickFaults_arrivals, follow_arrivals, List.nil_append]
    show _ ↔ some f ∈ [((s.receiveAll (later.headD [])).advance noise).fault]
    rw [htick, List.mem_singleton]
    exact eq_comm

/-- Once its ticks are started, what arrives later does not save a batch from its fault. -/
theorem fault_congr (h : BatchRun noise n later s events b) {f : Fault} (hf : b.fault = some f)
    {later' : Arrivals} (hsame : ∀ i < events.count .tick, later'.getD i [] = later.getD i []) :
    (s.batch noise n later').fault = some f := by
  induction h generalizing later' with
  | full => cases hf
  | finished h => cases hf
  | @ticked n later s events b h htick hrest ih =>
    rw [count_tick_received, List.count_cons_self] at hsame
    obtain ⟨hhead, htail⟩ := Arrivals.split_congr hsame
    rw [batch, hhead, if_neg (Bool.eq_false_iff.1 h)]
    simp only [htick]
    exact ih hf htail
  | @failed n later s f' h htick =>
    rw [count_tick_received, List.count_cons_self] at hsame
    obtain ⟨hhead, -⟩ := Arrivals.split_congr hsame
    rw [batch, hhead, if_neg (Bool.eq_false_iff.1 h)]
    simp only [htick]
    exact hf

end BatchRun

/-! ## One frame -/

section Frame

variable (noise : Noise) (arrivals : Arrivals) (s : Scheduler)

/-- After its batch a frame drains the display and takes what arrives then. -/
theorem frame_split :
    ∃ received : List Arrival,
      s.frameEvents noise arrivals =
          s.batchEvents noise s.config.batchSize arrivals ++
            .drain :: received.map Event.arrival ∧
        (s.frame noise arrivals).scheduler =
          (s.batch noise s.config.batchSize arrivals).scheduler.drained.receiveAll received ∧
        (s.batch noise s.config.batchSize arrivals).later.Gives received
          (s.frame noise arrivals).later := by
  unfold frameEvents frame
  cases hf : (s.batch noise s.config.batchSize arrivals).fault with
  | some f =>
    simp only [hf]
    exact ⟨[], rfl, rfl, Arrivals.gives_nil _⟩
  | none =>
    simp only [hf]
    exact ⟨_, rfl, rfl, Arrivals.gives_head _⟩

/-- A frame is what its events make of the scheduler. -/
theorem follow_frame :
    (s.frame noise arrivals).scheduler = s.follow noise (s.frameEvents noise arrivals) := by
  obtain ⟨received, hevents, hscheduler, -⟩ := s.frame_split noise arrivals
  rw [hevents, hscheduler, follow_append, ← (s.batchRun noise _ arrivals).follow]
  exact (follow_arrivals noise _ received).symm

/-- Among the events of a frame is what arrives before its looks, in order. -/
theorem gives_frame :
    arrivals.Gives ((s.frameEvents noise arrivals).filterMap Event.arrival?)
      (s.frame noise arrivals).later := by
  obtain ⟨received, hevents, -, hgives⟩ := s.frame_split noise arrivals
  have hdrain : (Event.drain :: received.map Event.arrival).filterMap Event.arrival? = received :=
    Event.filterMap_arrivals received
  rw [hevents, List.filterMap_append, hdrain]
  exact (s.batchRun noise _ arrivals).gives.append hgives

theorem notices_frame :
    (s.frame noise arrivals).notices =
      (s.batch noise s.config.batchSize arrivals).scheduler.notices := by
  unfold frame
  simp only
  split <;> rfl

theorem later_frame_nil : (s.frame noise []).later = [] := by
  obtain ⟨looks, -, hlater⟩ := s.gives_frame noise []
  rw [← hlater, List.drop_nil]

theorem tickFaults_frame :
    s.tickFaults noise (s.frameEvents noise arrivals) =
      s.tickFaults noise (s.batchEvents noise s.config.batchSize arrivals) := by
  obtain ⟨received, hevents, -⟩ := s.frame_split noise arrivals
  rw [hevents, tickFaults_append]
  exact (congrArg _ (tickFaults_arrivals noise _ received)).trans (List.append_nil _)

theorem ending_frame_of_fault (f : Fault) :
    (s.frame noise arrivals).ending = .halted f ↔
      (s.batch noise s.config.batchSize arrivals).fault = some f := by
  unfold frame
  cases hf : (s.batch noise s.config.batchSize arrivals).fault with
  | some f' => simp only [hf, Ending.halted.injEq, Option.some.injEq]
  | none =>
    simp only [hf]
    split <;> simp

variable {noise arrivals s}

/-- A frame answers the fault of the tick that failed in it. -/
theorem halted_iff (f : Fault) :
    (s.frame noise arrivals).ending = .halted f ↔
      some f ∈ s.tickFaults noise (s.frameEvents noise arrivals) := by
  rw [ending_frame_of_fault, tickFaults_frame]
  exact (s.batchRun noise _ arrivals).fault_eq_some_iff f

/-- It answers it whatever arrives once the tick is started. -/
theorem halted_congr {f : Fault} (h : (s.frame noise arrivals).ending = .halted f)
    {arrivals' : Arrivals}
    (hsame : ∀ i < (s.frameEvents noise arrivals).count .tick,
      arrivals'.getD i [] = arrivals.getD i []) :
    (s.frame noise arrivals').ending = .halted f := by
  rw [ending_frame_of_fault] at h ⊢
  refine (s.batchRun noise _ arrivals).fault_congr h fun i hi => hsame i ?_
  rwa [← length_tickFaults noise s, tickFaults_frame, length_tickFaults]

end Frame

end Scheduler

end ChipEight
