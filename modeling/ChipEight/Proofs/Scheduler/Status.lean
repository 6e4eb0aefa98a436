import ChipEight.Arcade
import ChipEight.Proofs.Machine.Calls
import ChipEight.Proofs.Scheduler.Stopping

/-!
# The status tells what comes next

1. A recorded tick is a tick that also says which instruction it carries out.  That is the one which
   `next` looks at (`recordedTick_eq`), and `next` looks at none just if the tick fails before it
   comes to one (`toOption_next_eq_none_iff`).
2. The cycles are the ticks that succeeded in all frames so far (`cycles_actAll`).
3. Between the status and the coming tick only arrivals reach the scheduler, and they change nothing
   of its machine but the keypad (`machine_receiveAll`).  So the tick carries out the instruction
   that the status tells, unless the keypad is another one (`status_tells_next`).
-/

namespace ChipEight

namespace Machine

variable {m : Machine}

/-! ## One tick -/

/-- A step, and the instruction that it carries out, if it comes to carrying one out. -/
def recordedStep (noise : Byte) (m : Machine) : Option Instruction × Outcome Machine :=
  match m.fetch with
  | .error f => (none, .failure m f)
  | .ok word =>
    let past := m.goTo (m.pc + 2)
    match Instruction.decode word with
    | .error f => (none, .failure past f)
    | .ok i => (some i, past.perform noise i)

/-- A tick, and the instruction that it carries out, if it comes to carrying one out. -/
def recordedTick (noise : Byte) (m : Machine) : Option Instruction × Outcome Machine :=
  let recorded := m.recordedStep noise
  (recorded.1, recorded.2.andThen fun ran => .success ran.lowerTimers)

/-- There is no word at the program counter, or it is no instruction. -/
def FailsEarly (f : Fault) (m : Machine) : Prop :=
  m.fetch = .error f ∨ ∃ word, m.fetch = .ok word ∧ Instruction.decode word = .error f

theorem recordedTick_eq (noise : Byte) (m : Machine) :
    m.recordedTick noise = (m.next.toOption, m.tick noise) := by
  unfold recordedTick recordedStep next tick step
  cases m.fetch with
  | error f => rfl
  | ok word =>
    simp only
    cases Instruction.decode word <;> rfl

theorem next_eq_error_iff (f : Fault) : m.next = .error f ↔ m.FailsEarly f := by
  unfold next FailsEarly
  cases m.fetch with
  | error f' => simp
  | ok word => simp

/-- A step that comes to no instruction moves past its word, if there is one, and no further. -/
theorem step_of_failsEarly {f : Fault} (h : m.FailsEarly f) (noise : Byte) :
    (m.step noise).fault = some f ∧
      ((m.step noise).value = m ∨
        (∃ word, f = .unknownInstruction word) ∧ (m.step noise).value = m.goTo (m.pc + 2)) := by
  rcases h with hfetch | ⟨word, hfetch, hdecode⟩
  · have hstep : m.step noise = .failure m f := by
      unfold step
      rw [hfetch]
    rw [hstep]
    exact ⟨rfl, .inl rfl⟩
  · have hstep : m.step noise = .failure (m.goTo (m.pc + 2)) f := by
      unfold step
      simp only [hfetch, hdecode]
    obtain ⟨-, rfl⟩ := (Instruction.decode_eq_error_iff word f).1 hdecode
    rw [hstep]
    exact ⟨rfl, .inr ⟨⟨word, rfl⟩, rfl⟩⟩

theorem toOption_next_eq_none_iff (noise : Byte) :
    m.next.toOption = none ↔ ∃ f, m.FailsEarly f ∧ (m.tick noise).fault = some f := by
  constructor
  · intro h
    cases hnext : m.next with
    | ok i =>
      rw [hnext] at h
      cases h
    | error f =>
      have hearly := (next_eq_error_iff f).1 hnext
      exact ⟨f, hearly, (fault_tick noise m).trans (step_of_failsEarly hearly noise).1⟩
  · rintro ⟨f, hearly, -⟩
    rw [(next_eq_error_iff f).2 hearly]
    rfl

theorem next_settled (m : Machine) : m.settled.next = m.next := rfl

/-- What a look at the coming instruction says about the coming step and tick. -/
structure Foretells (m : Machine) : Prop where
  /-- The step moves past the instruction that was seen and carries it out. -/
  runs (i : Instruction) (noise : Byte) :
    m.next = .ok i → m.step noise = (m.goTo (m.pc + 2)).perform noise i
  /-- The step fails with the fault that was seen.  It changes nothing, or moves past a word that is
  no instruction. -/
  fails (f : Fault) (noise : Byte) : m.next = .error f →
    (m.step noise).fault = some f ∧
      ((m.step noise).value = m ∨
        (∃ word, f = .unknownInstruction word) ∧ (m.step noise).value = m.goTo (m.pc + 2))
  /-- The tick carries out what was seen. -/
  records (noise : Byte) : m.recordedTick noise = (m.next.toOption, m.tick noise)

theorem foretells (m : Machine) : m.Foretells where
  runs _ noise h := step_of_next h noise
  fails f noise h := step_of_failsEarly ((next_eq_error_iff f).1 h) noise
  records noise := recordedTick_eq noise m

end Machine

namespace Scheduler

/-! ## The ticks so far -/

/-- The scheduler after an action. -/
def act (s : Scheduler) : Action → Scheduler
  | .frame noise arrivals => (s.frame noise arrivals).scheduler
  | .operate op => s.withMachine (s.machine.respond op).value
  | .receive arrival => s.receive arrival

/-- The scheduler after actions, one after the other. -/
def actAll (s : Scheduler) (actions : List Action) : Scheduler := actions.foldl act s

/-- How many ticks of the scheduler succeed in an action. -/
def successes (s : Scheduler) : Action → Nat
  | .frame noise arrivals => (s.tickFaults noise (s.frameEvents noise arrivals)).count none
  | .operate _ => 0
  | .receive _ => 0

/-- How many ticks of the scheduler succeed in actions, one after the other. -/
def totalSuccesses (s : Scheduler) : List Action → Nat
  | [] => 0
  | action :: rest => s.successes action + (s.act action).totalSuccesses rest

variable {s : Scheduler} {noise : Noise} {arrivals : Arrivals}

theorem cycles_act (s : Scheduler) (action : Action) :
    (s.act action).cycles = s.cycles + s.successes action := by
  cases action with
  | frame noise arrivals =>
    have hfollow : s.act (.frame noise arrivals) =
        s.follow noise (s.frameEvents noise arrivals) := follow_frame noise arrivals s
    rw [hfollow, cycles_follow]
    rfl
  | operate op => rfl
  | receive arrival => exact s.cycles_receive arrival

theorem cycles_actAll (s : Scheduler) (actions : List Action) :
    (s.actAll actions).cycles = s.cycles + s.totalSuccesses actions := by
  induction actions generalizing s with
  | nil => rfl
  | cons action rest ih =>
    refine (ih (s.act action)).trans ?_
    rw [cycles_act, Nat.add_assoc]
    rfl

theorem actAll_concat (s : Scheduler) (actions : List Action) (action : Action) :
    s.actAll (actions ++ [action]) = (s.actAll actions).act action := List.foldl_append

/-! ## From the status to the coming tick -/

/-- Of the machine arrivals change the keypad only. -/
theorem machine_receiveAll (s : Scheduler) (received : List Arrival) :
    ∃ k, (s.receiveAll received).machine = s.machine.plug k := by
  unfold receiveAll
  induction received generalizing s with
  | nil => exact ⟨s.machine.bus.keypad, rfl⟩
  | cons a rest ih =>
    obtain ⟨k, hk⟩ := ih (s.receive a)
    refine ⟨k, hk.trans ?_⟩
    cases a <;> rfl

/-- Arrivals that leave the keypad as it is leave the machine as it is. -/
theorem machine_receiveAll_of_keypad {received : List Arrival}
    (h : (s.receiveAll received).machine.bus.keypad = s.machine.bus.keypad) :
    (s.receiveAll received).machine = s.machine := by
  obtain ⟨k, hk⟩ := s.machine_receiveAll received
  have hkeypad : k = s.machine.bus.keypad := by
    rw [hk] at h
    exact h
  rw [hk, hkeypad]
  rfl

theorem fault_advance (noise : Noise) (s : Scheduler) :
    (s.advance noise).fault = (s.machine.tick (noise s.cycles)).fault := by
  unfold advance
  cases hf : (s.machine.tick (noise s.cycles)).fault <;> simp only [hf] <;> rfl

/-- A frame that is not finished at its first look ticks right after it. -/
theorem frameEvents_of_not_finished (hsize : s.config.batchSize ≠ 0)
    (h : (s.receiveAll (arrivals.headD [])).finished = false) :
    ∃ rest, s.frameEvents noise arrivals =
      (arrivals.headD []).map Event.arrival ++ .tick :: rest := by
  obtain ⟨n, hn⟩ := Nat.exists_eq_succ_of_ne_zero hsize
  unfold frameEvents
  rw [hn, batchEvents]
  simp only [h, Bool.false_eq_true, if_false]
  cases ((s.receiveAll (arrivals.headD [])).advance noise).fault with
  | none => exact ⟨_, List.append_assoc ..⟩
  | some f => exact ⟨_, List.append_assoc ..⟩

theorem status_not_mem_changes (st : Status) (changes : List Change) :
    Notice.status st ∉ changes.flatMap Change.notices := by
  intro h
  obtain ⟨change, -, hchange⟩ := List.mem_flatMap.1 h
  cases change with
  | blanked => cases List.mem_singleton.1 hchange
  | cell place byte =>
    obtain ⟨bit, hbit⟩ := List.mem_ofFn.1 hchange
    cases hbit

/-- The scheduler at the moment when a frame tells the viewer what has changed. -/
def telling (noise : Noise) (arrivals : Arrivals) (s : Scheduler) : Scheduler :=
  (s.batch noise s.config.batchSize arrivals).scheduler

/-- What the status that a frame tells says about the frame and about the coming tick; `count` ticks
of the scheduler have succeeded, those of the frame included. -/
structure Tells (noise : Noise) (arrivals : Arrivals) (s : Scheduler) (count : Nat) (st : Status) :
    Prop where
  /-- The status is told once, after the picture. -/
  told : ∃ pixels, (s.frame noise arrivals).notices = pixels ++ [.status st, .present] ∧
    ∀ st', Notice.status st' ∉ pixels
  /-- It has the program counter after the frame. -/
  pc : st.pc = (s.frame noise arrivals).scheduler.machine.pc
  /-- It has the cycles after the frame, which are the ticks that succeeded. -/
  cycles : st.cycles = (s.frame noise arrivals).scheduler.cycles ∧ st.cycles = count
  /-- Unless the scheduler is finished, the coming frame starts with a tick after its first look.
  If the keypad is as it was when the status was told, that tick carries out the instruction that
  the status has; and it fails before it comes to an instruction just if the status has none. -/
  next (noise' : Noise) (arrivals' : Arrivals) :
    let f := s.frame noise arrivals
    let ready := f.scheduler.receiveAll (arrivals'.headD [])
    ready.finished = false →
      (f.scheduler.config.batchSize ≠ 0 → ∃ rest, f.scheduler.frameEvents noise' arrivals' =
        (arrivals'.headD []).map Event.arrival ++ .tick :: rest) ∧
      (ready.machine.bus.keypad = (s.telling noise arrivals).machine.bus.keypad →
        (ready.machine.recordedTick (noise' ready.cycles)).1 = st.next ∧
          (st.next = none ↔ ∃ e, ready.machine.FailsEarly e ∧
            (ready.advance noise').fault = some e))

theorem tells_status (noise : Noise) (arrivals : Arrivals) (s : Scheduler) :
    s.Tells noise arrivals (s.cycles + s.successes (.frame noise arrivals))
      (s.telling noise arrivals).status := by
  obtain ⟨received, -, hscheduler, -⟩ := s.frame_split noise arrivals
  have hafter : (s.frame noise arrivals).scheduler =
      (s.telling noise arrivals).drained.receiveAll received := hscheduler
  have hcycles : (s.telling noise arrivals).cycles =
      (s.frame noise arrivals).scheduler.cycles := by
    rw [hafter, cycles_receiveAll]
    rfl
  refine ⟨⟨_, notices_frame noise arrivals s, fun st' => status_not_mem_changes st' _⟩, ?_,
    ⟨hcycles, hcycles.trans (s.cycles_act (.frame noise arrivals))⟩, ?_⟩
  · obtain ⟨k, hk⟩ := (s.telling noise arrivals).drained.machine_receiveAll received
    rw [hafter, hk]
    rfl
  · intro noise' arrivals' f ready hgoes
    refine ⟨fun hsize => frameEvents_of_not_finished hsize hgoes, fun hkeypad => ?_⟩
    -- the status was told before the display was drained
    have hready : ready =
        (s.telling noise arrivals).drained.receiveAll (received ++ arrivals'.headD []) := by
      rw [receiveAll_append, ← hafter]
    have hmachine : ready.machine = (s.telling noise arrivals).machine.settled := by
      rw [hready] at hkeypad ⊢
      exact machine_receiveAll_of_keypad hkeypad
    have hnext : ready.machine.next.toOption = (s.telling noise arrivals).status.next := by
      rw [hmachine, Machine.next_settled]
      rfl
    rw [Machine.recordedTick_eq, ← hnext, fault_advance]
    exact ⟨rfl, Machine.toOption_next_eq_none_iff _⟩

/-- **What is shown as next is what runs next.**  A look at the coming instruction tells what the
coming step does, or how it fails.  Whatever frames, operations and arrivals a new scheduler has
gone through, each frame, also one that fails, tells its viewer the program counter after the frame,
how many ticks have succeeded, and the instruction that the coming tick carries out. -/
theorem status_tells_next (m : Machine) (c : Config) (actions : List Action) (noise : Noise)
    (arrivals : Arrivals) :
    (∀ m : Machine, m.Foretells) ∧
      ∃ st, ((new m c).actAll actions).Tells noise arrivals
        ((new m c).totalSuccesses (actions ++ [.frame noise arrivals])) st := by
  have hcount : ((new m c).actAll actions).cycles +
      ((new m c).actAll actions).successes (.frame noise arrivals) =
        (new m c).totalSuccesses (actions ++ [.frame noise arrivals]) := by
    have hcycles := (new m c).cycles_actAll (actions ++ [.frame noise arrivals])
    rw [actAll_concat, cycles_act] at hcycles
    exact hcycles.trans (Nat.zero_add _)
  rw [← hcount]
  exact ⟨Machine.foretells, _, tells_status noise arrivals _⟩

/-- A program that goes on in the keypad: with key 7 down its bytes are an instruction. -/
example :
    let blank : Bus := ⟨.blank 4096, .dark, .idle⟩
    let m := Machine.new.withBus (blank.store 0x200 [0x11, 0x50]).value
    let f := (new m { batchSize := 1 }).frame (fun _ => 0) [[.press 7]]
    f.notices = [.status ⟨0x150, some (.readDelay 0xF), 1⟩, .present] ∧
      (f.scheduler.machine.recordedTick 0).1 = some (.readDelay 0xF) := by
  decide +kernel

end Scheduler

end ChipEight
