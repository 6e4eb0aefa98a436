import ChipEight.Proofs.Machine.Settled
import ChipEight.Scheduler.Frame

/-!
# Batches are ticks

A scheduler that nothing reaches from outside only counts ticks: however its batches are cut, calls
of it run the machine as ticks one by one do, up to the budget and the first fault
(`calls_eq_ticks`).

1. A batch is a row of ticks, as many as the batch size and the budget allow (`batch_quiet`).
2. A call settles the machine after its batch, which no later tick can tell (`tick_congr`).
3. The ticks allowed to one call more add up to the quota of all calls (`quota_succ`).
-/

namespace ChipEight

namespace Config

/-- How many of `n` ticks the budget leaves after `cycles`. -/
def allowance (c : Config) (n cycles : Nat) : Nat :=
  match c.budget with
  | none => n
  | some budget => min n (budget - cycles)

/-- How many ticks `calls` frames have in them, faults aside. -/
def quota (c : Config) (calls : Nat) : Nat :=
  match c.budget with
  | none => calls * c.batchSize
  | some budget => min budget (calls * c.batchSize)

/-- Whether the budget is spent after `cycles`. -/
def spentAt (c : Config) (cycles : Nat) : Bool :=
  match c.budget with
  | none => false
  | some budget => budget ≤ cycles

/-- How a frame ends after a batch that left the cycles at `cycles`. -/
def endingAt (c : Config) (cycles : Nat) : Option Fault → Ending
  | some f => .halted f
  | none => if c.spentAt cycles then .finished else .running

theorem spentAt_eq_true_iff (c : Config) (cycles : Nat) :
    c.spentAt cycles = true ↔ ∃ budget, c.budget = some budget ∧ budget ≤ cycles := by
  unfold spentAt
  cases c.budget with
  | none => simp
  | some budget => simp

theorem endingAt_eq_halted_iff (c : Config) (cycles : Nat) (fault : Option Fault) (f : Fault) :
    c.endingAt cycles fault = .halted f ↔ fault = some f := by
  unfold endingAt
  cases fault with
  | some f' => simp
  | none => cases c.spentAt cycles <;> simp

theorem endingAt_eq_finished_iff (c : Config) (cycles : Nat) (fault : Option Fault) :
    c.endingAt cycles fault = .finished ↔ fault = none ∧ c.spentAt cycles = true := by
  unfold endingAt
  cases fault with
  | some f => simp
  | none => cases c.spentAt cycles <;> simp

theorem endingAt_eq_running_iff (c : Config) (cycles : Nat) (fault : Option Fault) :
    c.endingAt cycles fault = .running ↔ fault = none ∧ c.spentAt cycles = false := by
  unfold endingAt
  cases fault with
  | some f => simp
  | none => cases c.spentAt cycles <;> simp

/-- A frame that is not followed by another one has met a fault or spent the budget. -/
theorem ended_cases {c : Config} {cycles : Nat} {fault : Option Fault}
    (h : c.endingAt cycles fault ≠ .running) :
    (∃ e, fault = some e ∧ c.endingAt cycles fault = .halted e) ∨
      fault = none ∧ c.spentAt cycles = true ∧ c.endingAt cycles fault = .finished := by
  cases fault with
  | some e => exact Or.inl ⟨e, rfl, rfl⟩
  | none =>
    cases hspent : c.spentAt cycles with
    | true => exact Or.inr ⟨rfl, rfl, (c.endingAt_eq_finished_iff _ _).2 ⟨rfl, hspent⟩⟩
    | false => exact absurd ((c.endingAt_eq_running_iff _ _).2 ⟨rfl, hspent⟩) h

theorem allowance_zero (c : Config) (cycles : Nat) : c.allowance 0 cycles = 0 := by
  unfold allowance
  split
  · rfl
  · exact Nat.zero_min _

theorem allowance_of_spent {c : Config} {cycles : Nat} (h : c.spentAt cycles = true) (n : Nat) :
    c.allowance n cycles = 0 := by
  obtain ⟨budget, hbudget, hle⟩ := (c.spentAt_eq_true_iff cycles).1 h
  unfold allowance
  rw [hbudget]
  simp only
  omega

theorem allowance_of_not_spent {c : Config} {cycles : Nat} (h : c.spentAt cycles = false)
    (n : Nat) : c.allowance (n + 1) cycles = c.allowance n (cycles + 1) + 1 := by
  unfold spentAt at h
  unfold allowance
  cases hb : c.budget with
  | none => rfl
  | some budget =>
    rw [hb] at h
    have hlt : ¬ budget ≤ cycles := of_decide_eq_false h
    simp only
    omega

theorem quota_zero (c : Config) : c.quota 0 = 0 := by
  unfold quota
  split
  · exact Nat.zero_mul _
  · rw [Nat.zero_mul, Nat.min_zero]

theorem quota_succ (c : Config) (calls : Nat) :
    c.quota (calls + 1) = c.quota calls + c.allowance c.batchSize (c.quota calls) := by
  unfold quota allowance
  cases c.budget with
  | none => exact Nat.succ_mul _ _
  | some budget =>
    simp only [Nat.succ_mul]
    omega

/-- Each frame that runs a tick uses up some of the budget. -/
theorem lt_of_not_spent {c : Config} {f budget : Nat} (hbudget : c.budget = some budget)
    (hsize : 1 ≤ c.batchSize) (h : c.spentAt (c.quota f) = false) : f < budget := by
  unfold spentAt quota at h
  rw [hbudget] at h
  have hlt : ¬ budget ≤ min budget (f * c.batchSize) := of_decide_eq_false h
  have hle : f * 1 ≤ f * c.batchSize := Nat.mul_le_mul_left f hsize
  omega

end Config

namespace Scheduler

section Quiet

variable (noise : Byte) (m : Machine) (c : Config) (cycles : Nat)

/-! ## One batch -/

/-- A batch that nothing interrupts is a row of ticks. -/
theorem batch_quiet (n : Nat) :
    let p := repeatedFrom (Machine.tick noise) cycles (c.allowance n cycles) m
    (Scheduler.mk m c cycles false).batch (fun _ => noise) n [] =
      ⟨⟨p.value, c, p.completed, false⟩, p.fault, []⟩ := by
  induction n generalizing m cycles with
  | zero =>
    rw [Config.allowance_zero]
    rfl
  | succ n ih =>
    rw [batch]
    show (if c.spentAt cycles = true then _ else _) = _
    cases hspent : c.spentAt cycles with
    | true =>
      rw [if_pos rfl, Config.allowance_of_spent hspent]
      rfl
    | false =>
      rw [if_neg Bool.false_ne_true, Config.allowance_of_not_spent hspent, List.headD_nil,
        receiveAll_nil]
      unfold advance
      cases hf : (m.tick noise).fault with
      | none =>
        rw [repeatedFrom_succ_of_success hf]
        simp only [hf]
        exact ih (m.tick noise).value (cycles + 1)
      | some f =>
        rw [repeatedFrom_succ_of_failure hf]
        simp only [hf]
        rfl

/-! ## One call -/

/-- A frame that nothing interrupts settles the machine after its batch. -/
theorem frame_quiet :
    let p := repeatedFrom (Machine.tick noise) cycles (c.allowance c.batchSize cycles) m
    let f := (Scheduler.mk m c cycles false).frame (fun _ => noise) []
    f.scheduler = ⟨p.value.settled, c, p.completed, false⟩ ∧
      f.ending = c.endingAt p.completed p.fault := by
  unfold frame
  rw [batch_quiet noise m c cycles]
  cases hf : (repeatedFrom (Machine.tick noise) cycles
    (c.allowance c.batchSize cycles) m).fault with
  | some f =>
    simp only [hf]
    exact ⟨rfl, rfl⟩
  | none =>
    simp only [hf, List.headD_nil, receiveAll_nil]
    exact ⟨rfl, rfl⟩

/-- A frame that nothing interrupts, as an operation that can fail. -/
def call (noise : Byte) (s : Scheduler) : Outcome Scheduler :=
  let f := s.frame (fun _ => noise) []
  match f.ending with
  | .halted fault => .failure f.scheduler fault
  | .running | .finished => .success f.scheduler

theorem call_quiet :
    let p := repeatedFrom (Machine.tick noise) cycles (c.allowance c.batchSize cycles) m
    (Scheduler.mk m c cycles false).call noise =
      ⟨⟨p.value.settled, c, p.completed, false⟩, p.fault⟩ := by
  obtain ⟨hscheduler, hending⟩ := frame_quiet noise m c cycles
  intro p
  unfold call
  simp only
  rw [hending, hscheduler]
  change (match c.endingAt p.completed p.fault with
    | .halted fault => _ | .running | .finished => _) = _
  cases hf : p.fault with
  | some f => rfl
  | none =>
    unfold Config.endingAt
    cases c.spentAt p.completed <;> rfl

/-! ## Many calls -/

/-- Frames that nothing interrupts, up to the first one that fails. -/
def calls (noise : Byte) (n : Nat) (s : Scheduler) : Progress Scheduler :=
  repeated (call noise) n s

variable (f : Nat)

theorem ticks_quota_succ (h : (m.ticks noise (c.quota f)).fault = none) :
    m.ticks noise (c.quota (f + 1)) =
      repeatedFrom (Machine.tick noise) (c.quota f) (c.allowance c.batchSize (c.quota f))
        (m.ticks noise (c.quota f)).value := by
  have hcompleted : (m.ticks noise (c.quota f)).completed = c.quota f :=
    completed_repeated_of_success h
  rw [Config.quota_succ, Machine.ticks, repeated, repeatedFrom_add_of_success h]
  exact congrArg (fun done => repeatedFrom _ done _ _) hcompleted

/-- Calls run the machine as the ticks of their quota do, as far as a settled machine shows. -/
theorem calls_ticks :
    let t := m.ticks noise (c.quota f)
    ∃ m' : Machine, m'.settled = t.value.settled ∧
      ((new m c).calls noise f).toOutcome = ⟨⟨m', c, t.completed, false⟩, t.fault⟩ := by
  induction f with
  | zero =>
    rw [Config.quota_zero]
    exact ⟨m, rfl, rfl⟩
  | succ f ih =>
    obtain ⟨m', hm', hcalls⟩ := ih
    have hfault : ((new m c).calls noise f).fault = (m.ticks noise (c.quota f)).fault :=
      congrArg Outcome.fault hcalls
    cases hf : (m.ticks noise (c.quota f)).fault with
    | some e =>
      -- both rows ended before
      have hcalls' : (new m c).calls noise (f + 1) = (new m c).calls noise f :=
        repeatedFrom_add_of_failure (hfault.trans hf) 1
      have hticks : m.ticks noise (c.quota (f + 1)) = m.ticks noise (c.quota f) := by
        rw [Config.quota_succ]
        exact repeatedFrom_add_of_failure hf _
      rw [hcalls', hticks]
      exact ⟨m', hm', hcalls⟩
    | none =>
      have hcompleted : (m.ticks noise (c.quota f)).completed = c.quota f :=
        completed_repeated_of_success hf
      have hcalls' : ((new m c).calls noise (f + 1)).toOutcome =
          ((new m c).calls noise f).value.call noise := by
        rw [calls, repeated, repeatedFrom_add_of_success (hfault.trans hf)]
        exact toOutcome_repeatedFrom_one _ _ _
      -- the call starts from a machine that ticks cannot tell from the one the ticks reached
      obtain ⟨hsettled, hcount, hend⟩ := Progress.of_map_eq (repeatedFrom_congr
        (Machine.tick_congr noise) (c.quota f) (c.allowance c.batchSize (c.quota f)) hm')
      rw [hcalls', ticks_quota_succ noise m c f hf, congrArg Outcome.value hcalls, hcompleted,
        call_quiet]
      refine ⟨Machine.settled _, (Machine.settled_settled _).trans hsettled, ?_⟩
      rw [hcount, hend]

theorem fault_calls :
    ((new m c).calls noise f).fault = (m.ticks noise (c.quota f)).fault := by
  obtain ⟨m', -, h⟩ := calls_ticks noise m c f
  exact congrArg Outcome.fault h

theorem cycles_calls :
    ((new m c).calls noise f).value.cycles = (m.ticks noise (c.quota f)).completed := by
  obtain ⟨m', -, h⟩ := calls_ticks noise m c f
  rw [congrArg Outcome.value h]

theorem settled_calls :
    ((new m c).calls noise f).value.machine.settled =
      (m.ticks noise (c.quota f)).value.settled := by
  obtain ⟨m', hm', h⟩ := calls_ticks noise m c f
  rw [congrArg Outcome.value h]
  exact hm'

/-- Calls that met no fault have run their quota. -/
theorem cycles_calls_of_success (h : ((new m c).calls noise f).fault = none) :
    ((new m c).calls noise f).value.cycles = c.quota f := by
  rw [fault_calls] at h
  rw [cycles_calls]
  exact completed_repeated_of_success h

/-- What the call after `f` calls answers. -/
theorem ending_after_calls (h : ((new m c).calls noise f).fault = none) :
    let t := m.ticks noise (c.quota (f + 1))
    (((new m c).calls noise f).value.frame (fun _ => noise) []).ending =
      c.endingAt t.completed t.fault := by
  rw [fault_calls] at h
  obtain ⟨m', hm', hcalls⟩ := calls_ticks noise m c f
  have hcompleted : (m.ticks noise (c.quota f)).completed = c.quota f :=
    completed_repeated_of_success h
  obtain ⟨-, hcount, hend⟩ := Progress.of_map_eq (repeatedFrom_congr
    (Machine.tick_congr noise) (c.quota f) (c.allowance c.batchSize (c.quota f)) hm')
  rw [ticks_quota_succ noise m c f h, congrArg Outcome.value hcalls, hcompleted,
    (frame_quiet noise m' c (c.quota f)).2, hcount, hend]

end Quiet

/-- **Batching does not change the computation.**  After `f` calls that nothing interrupts the
machine is, up to what waits to be shown, the one that as many ticks as cycles reach, whatever the
batches were.  The call that holds the first failing tick answers its fault and is the first to
fail, and no other call fails. -/
theorem calls_eq_ticks (noise : Byte) (m : Machine) (c : Config) (f : Nat) :
    let r := (new m c).calls noise f
    let r' := (new m c).calls noise (f + 1)
    let answer := (r.value.frame (fun _ => noise) []).ending
    (r.fault = none →
      r.value.cycles = c.quota f ∧ (m.ticks noise r.value.cycles).fault = none ∧
        r.value.machine.settled = (m.ticks noise r.value.cycles).value.settled ∧
        (∀ e, answer = .halted e ↔ r'.fault = some e) ∧
        (answer = .finished ↔ r'.fault = none ∧
          ∃ budget, c.budget = some budget ∧ budget ≤ r'.value.cycles)) ∧
    (∀ n e, (m.ticks noise n).fault = none → ((m.ticks noise n).value.tick noise).fault = some e →
      (r.fault = none ↔ c.quota f ≤ n) ∧
        (n < c.quota f → r.fault = some e ∧ r.value.cycles = n ∧
          r.value.machine.settled = ((m.ticks noise n).value.tick noise).value.settled)) ∧
    (∀ e, r.fault = some e → ∃ n < c.quota f, (m.ticks noise n).fault = none ∧
      ((m.ticks noise n).value.tick noise).fault = some e) ∧
    ∀ (c₂ : Config) (f₂ : Nat), let r₂ := (new m c₂).calls noise f₂
      r.fault = none → r₂.fault = none → r.value.cycles = r₂.value.cycles →
        r.value.machine.settled = r₂.value.machine.settled := by
  intro r r' answer
  have hsettled : ∀ (c : Config) (f : Nat), ((new m c).calls noise f).fault = none →
      ((new m c).calls noise f).value.machine.settled =
        (m.ticks noise ((new m c).calls noise f).value.cycles).value.settled := by
    intro c f h
    rw [cycles_calls_of_success noise m c f h]
    exact settled_calls noise m c f
  refine ⟨fun h => ?_, fun n e hn he => ?_, fun e he => ?_, ?_⟩
  · have hcycles : r.value.cycles = c.quota f := cycles_calls_of_success noise m c f h
    have hanswer : answer = c.endingAt r'.value.cycles r'.fault := by
      rw [fault_calls, cycles_calls]
      exact ending_after_calls noise m c f h
    refine ⟨hcycles, ?_, hsettled c f h, fun e => ?_, ?_⟩
    · rw [hcycles, ← fault_calls]
      exact h
    · rw [hanswer, Config.endingAt_eq_halted_iff]
    · rw [hanswer, Config.endingAt_eq_finished_iff, Config.spentAt_eq_true_iff]
  · have hlate : n < c.quota f → m.ticks noise (c.quota f) =
        ⟨(m.ticks noise n).value.tick noise, n⟩ := repeated_of_failure hn he
    refine ⟨⟨fun h => ?_, fun hle => ?_⟩, fun hlt => ⟨?_, ?_, ?_⟩⟩
    · -- a quota beyond the failing tick would have met its fault
      refine Nat.le_of_not_lt fun hlt => ?_
      have hfault := (fault_calls noise m c f).symm.trans h
      rw [hlate hlt] at hfault
      exact absurd (he.symm.trans hfault) (fun e => nomatch e)
    · exact (fault_calls noise m c f).trans (fault_repeatedFrom_of_le hle hn)
    · rw [fault_calls, hlate hlt, he]
    · rw [cycles_calls, hlate hlt]
    · rw [settled_calls, hlate hlt]
  · exact exists_failure_of_repeated ((fault_calls noise m c f).symm.trans he)
  · intro c₂ f₂ r₂ h h₂ hcycles
    rw [hsettled c f h, hsettled c₂ f₂ h₂, hcycles]

end Scheduler

end ChipEight
