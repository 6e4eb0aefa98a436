import ChipEight.Console.ArgumentReader
import ChipEight.Proofs.Scheduler.Stopping
import ChipEight.Scheduler.Run

/-!
# Runs with a budget

A run has no bound of its own.  What bounds it is the budget, less the cycles that were run.

1. A frame that is followed by another one has run the ticks of a whole batch (`cycles_of_running`).
2. So after `k` such frames the cycles are `k` batches (`cycles_history`), and as the budget is not
   spent, there are fewer frames than the budget (`exists_ended`).
3. Batches without ticks run no cycles, and the budget is never spent (`running_history`).
-/

namespace ChipEight

namespace Arrivals

/-- No stop is among the arrivals. -/
def Quiet (arrivals : Arrivals) : Prop := ∀ received ∈ arrivals, .stop ∉ received

theorem quiet_nil : Quiet [] := fun _ h => nomatch h

theorem Quiet.head {arrivals : Arrivals} (h : arrivals.Quiet) : .stop ∉ arrivals.headD [] := by
  cases arrivals with
  | nil => exact List.not_mem_nil
  | cons now later => exact h now List.mem_cons_self

theorem Quiet.tail {arrivals : Arrivals} (h : arrivals.Quiet) : Quiet arrivals.tail :=
  fun received hmem => h received (List.mem_of_mem_tail hmem)

end Arrivals

namespace Scheduler

variable {noise : Noise} {arrivals : Arrivals} {s : Scheduler}

theorem receive_of_ne_stop {a : Arrival} (h : a ≠ .stop) (s : Scheduler) :
    ∃ m, s.receive a = s.withMachine m := by
  cases a with
  | stop => exact absurd rfl h
  | press key => exact ⟨_, rfl⟩
  | release => exact ⟨_, rfl⟩

theorem receiveAll_of_no_stop {received : List Arrival} (h : .stop ∉ received) (s : Scheduler) :
    ∃ m, s.receiveAll received = s.withMachine m := by
  unfold receiveAll
  induction received generalizing s with
  | nil => exact ⟨s.machine, rfl⟩
  | cons a rest ih =>
    rw [List.mem_cons, not_or] at h
    obtain ⟨m, hm⟩ := receive_of_ne_stop (Ne.symm h.1) s
    obtain ⟨m', hm'⟩ := ih h.2 (s.receive a)
    refine ⟨m', hm'.trans ?_⟩
    rw [hm]
    rfl

/-! ## Frames that are followed by another one -/

/-- A batch that neither fails nor ends finished runs all its ticks. -/
theorem BatchRun.cycles {n : Nat} {events : List Event} {b : Batch}
    (h : BatchRun noise n arrivals s events b) (hfault : b.fault = none)
    (hgoes : b.scheduler.finished = false) : b.scheduler.cycles = s.cycles + n := by
  induction h with
  | full => rfl
  | finished h => exact absurd h (Bool.eq_false_iff.1 hgoes)
  | ticked h htick hrest ih =>
    rw [ih hfault hgoes, cycles_advance, htick, cycles_receiveAll, List.count_singleton_self]
    omega
  | failed h htick => cases hfault

theorem finished_of_running (h : (s.frame noise arrivals).ending = .running) :
    (s.frame noise arrivals).scheduler.finished = false := by
  unfold frame at h ⊢
  cases hf : (s.batch noise s.config.batchSize arrivals).fault with
  | some f =>
    simp only [hf] at h
    cases h
  | none =>
    simp only [hf] at h ⊢
    split at h
    · cases h
    · rename_i hgoes
      exact Bool.eq_false_iff.2 hgoes

theorem cycles_of_running (h : (s.frame noise arrivals).ending = .running) :
    (s.frame noise arrivals).scheduler.cycles = s.cycles + s.config.batchSize := by
  have hgoes := finished_of_running h
  have hfault : (s.batch noise s.config.batchSize arrivals).fault = none := by
    refine Option.eq_none_iff_forall_ne_some.2 fun f hf => ?_
    rw [(ending_frame_of_fault noise arrivals s f).2 hf] at h
    cases h
  obtain ⟨received, -, hscheduler, -⟩ := s.frame_split noise arrivals
  rw [hscheduler] at hgoes ⊢
  -- what arrives after the batch does not take back that it was finished
  have hbatch : (s.batch noise s.config.batchSize arrivals).scheduler.finished = false := by
    refine Bool.eq_false_iff.2 fun hfinished => Bool.eq_false_iff.1 hgoes ?_
    rw [drained_receiveAll]
    exact finished_receiveAll hfinished received
  rw [cycles_receiveAll]
  exact (s.batchRun noise _ arrivals).cycles hfault hbatch

/-! ## All frames -/

section History

variable {m : Machine} {c : Config}

theorem config_history (k : Nat) : ((new m c).history noise arrivals k).scheduler.config = c := by
  obtain ⟨hfollow, hlawful⟩ := history_lawful noise arrivals (new m c) k
  have hstart : (new m c).WithinBudget c := ⟨rfl, fun _ _ => Nat.zero_le _⟩
  rw [hfollow]
  exact (hlawful.withinBudget hstart).1

/-- Frames that are followed by another one have run whole batches. -/
theorem cycles_history {k : Nat}
    (h : ∀ j < k, (((new m c).history noise arrivals j).frame noise).ending = .running) :
    ((new m c).history noise arrivals k).scheduler.cycles = k * c.batchSize := by
  induction k with
  | zero => exact (Nat.zero_mul _).symm
  | succ k ih =>
    have hcycles := cycles_of_running (h k (Nat.lt_succ_self k))
    rw [ih fun j hj => h j (Nat.lt_succ_of_lt hj), config_history] at hcycles
    rw [Nat.succ_mul]
    exact hcycles

/-- If batches have ticks, or there is nothing to run, the budget is spent in time. -/
theorem exists_ended {budget : Nat} (hbudget : c.budget = some budget)
    (hmoves : c.batchSize ≠ 0 ∨ budget = 0) :
    ∃ k < max 1 budget, (((new m c).history noise arrivals k).frame noise).ending ≠ .running := by
  refine Classical.byContradiction fun hnone => ?_
  have hrunning : ∀ k < max 1 budget,
      (((new m c).history noise arrivals k).frame noise).ending = .running :=
    fun k hk => Classical.byContradiction fun hended => hnone ⟨k, hk, hended⟩
  have hcycles := cycles_history hrunning
  obtain ⟨last, hlast⟩ : ∃ last, max 1 budget = last + 1 := ⟨max 1 budget - 1, by omega⟩
  -- after the last frame the budget is spent, so that frame was not followed by another one
  have hspent : budget ≤ (last + 1) * c.batchSize := by
    rcases hmoves with hsize | hzero
    · have hle := Nat.le_mul_of_pos_right (last + 1) (Nat.pos_of_ne_zero hsize)
      omega
    · omega
  rw [hlast] at hcycles hrunning
  have hfinished : ((new m c).history noise arrivals (last + 1)).scheduler.finished = true := by
    refine (finished_iff _).2 (.inr ⟨budget, ?_, ?_⟩)
    · rw [config_history, hbudget]
    · rw [hcycles]
      exact hspent
  have hgoes := finished_of_running (hrunning last (Nat.lt_succ_self last))
  exact absurd hfinished (Bool.eq_false_iff.1 hgoes)

/-- A frame without ticks that neither a stop nor the budget ends. -/
theorem frame_resting (noise : Noise) {budget : Nat} (hbudget : s.config.budget = some budget)
    (hsize : s.config.batchSize = 0) (hcycles : s.cycles < budget) (hstopped : s.stopped = false)
    (hquiet : arrivals.Quiet) :
    (s.frame noise arrivals).ending = .running ∧ (s.frame noise arrivals).later = arrivals.tail ∧
      ∃ m, (s.frame noise arrivals).scheduler = s.withMachine m := by
  obtain ⟨m, hm⟩ := receiveAll_of_no_stop hquiet.head s.drained
  have hgoes : (s.withMachine m).finished = false := by
    refine Bool.eq_false_iff.2 fun hfinished => ?_
    rcases (finished_iff _).1 hfinished with h | ⟨budget', hbudget', hle⟩
    · exact absurd h (Bool.eq_false_iff.1 hstopped)
    · obtain rfl := Option.some.inj (hbudget.symm.trans hbudget')
      exact absurd hle (Nat.not_le.2 hcycles)
  have hafter : s.drained.receiveAll (arrivals.headD []) = s.withMachine m := hm
  unfold frame
  simp only [hsize, batch, hafter, hgoes, Bool.false_eq_true, if_false]
  exact ⟨trivial, trivial, m, rfl⟩

/-- No tick has been run, and no stop is still to arrive. -/
structure Resting (c : Config) (h : History) : Prop where
  scheduler : ∃ m, h.scheduler = new m c
  quiet : h.later.Quiet

theorem Resting.frame {budget : Nat} (hbudget : c.budget = some budget) (hsize : c.batchSize = 0)
    (hpositive : budget ≠ 0) {h : History} (hrests : Resting c h) (noise : Noise) :
    (h.frame noise).ending = .running ∧ Resting c (h.call noise) := by
  obtain ⟨s, later, events⟩ := h
  obtain ⟨⟨m, rfl⟩, hquiet⟩ := hrests
  obtain ⟨hending, hlater, m', hscheduler⟩ := frame_resting (s := new m c) noise hbudget hsize
    (Nat.pos_of_ne_zero hpositive) rfl hquiet
  refine ⟨hending, ⟨m', hscheduler⟩, ?_⟩
  show Arrivals.Quiet ((new m c).frame noise later).later
  rw [hlater]
  exact hquiet.tail

theorem resting_history {budget : Nat} (hbudget : c.budget = some budget) (hsize : c.batchSize = 0)
    (hpositive : budget ≠ 0) (hquiet : arrivals.Quiet) (k : Nat) :
    Resting c ((new m c).history noise arrivals k) := by
  induction k with
  | zero => exact ⟨⟨m, rfl⟩, hquiet⟩
  | succ k ih => exact (ih.frame hbudget hsize hpositive noise).2

/-- If batches have no ticks, the budget is never spent. -/
theorem running_history {budget : Nat} (hbudget : c.budget = some budget) (hsize : c.batchSize = 0)
    (hpositive : budget ≠ 0) (hquiet : arrivals.Quiet) (k : Nat) :
    (((new m c).history noise arrivals k).frame noise).ending = .running :=
  ((resting_history hbudget hsize hpositive hquiet k).frame hbudget hsize hpositive noise).1

end History

/-! ## Runs -/

/-- The history of a frame and `k` more is that of `k` frames after it. -/
theorem history_succ (noise : Noise) (arrivals : Arrivals) (s : Scheduler) (k : Nat) :
    let f := s.frame noise arrivals
    (s.history noise arrivals (k + 1)).scheduler = (f.scheduler.history noise f.later k).scheduler ∧
      (s.history noise arrivals (k + 1)).later = (f.scheduler.history noise f.later k).later := by
  intro f
  induction k with
  | zero => exact ⟨rfl, rfl⟩
  | succ k ih =>
    obtain ⟨hscheduler, hlater⟩ := ih
    have hframe : (s.history noise arrivals (k + 1)).frame noise =
        (f.scheduler.history noise f.later k).frame noise := by
      rw [History.frame, History.frame, hscheduler, hlater]
    exact ⟨congrArg Frame.scheduler hframe, congrArg Frame.later hframe⟩

variable {α : Type} {heed : α → Notice → α}

theorem run_of_running (h : (s.frame noise []).ending = .running) (limit : Nat) (watcher : α) :
    s.run noise heed (limit + 1) watcher = (s.frame noise []).scheduler.run noise heed limit
      ((s.frame noise []).notices.foldl heed watcher) := by
  rw [run]
  simp only [h]

theorem ending_run_of_ended (h : (s.frame noise []).ending ≠ .running) (limit : Nat) (watcher : α) :
    (s.run noise heed (limit + 1) watcher).ending = (s.frame noise []).ending := by
  rw [run]
  cases hending : (s.frame noise []).ending with
  | running => exact absurd hending h
  | finished => rfl
  | halted f => rfl

/-- A run ends within the limit just if one of its frames is not followed by another one. -/
theorem ending_run_iff (limit : Nat) (watcher : α) :
    (s.run noise heed limit watcher).ending ≠ .running ↔
      ∃ k < limit, ((s.history noise [] k).frame noise).ending ≠ .running := by
  induction limit generalizing s watcher with
  | zero => exact ⟨fun h => absurd rfl h, fun ⟨k, hk, _⟩ => absurd hk (Nat.not_lt_zero k)⟩
  | succ limit ih =>
    by_cases hfirst : (s.frame noise []).ending = .running
    · have hlater : ∀ k, (s.history noise [] (k + 1)).frame noise =
          ((s.frame noise []).scheduler.history noise [] k).frame noise := by
        intro k
        obtain ⟨hscheduler, hlater⟩ := history_succ noise [] s k
        rw [later_frame_nil] at hscheduler hlater
        rw [History.frame, History.frame, hscheduler, hlater]
      rw [run_of_running hfirst, ih]
      constructor
      · rintro ⟨k, hk, hended⟩
        exact ⟨k + 1, Nat.succ_lt_succ hk, by rwa [hlater]⟩
      · rintro ⟨k, hk, hended⟩
        cases k with
        | zero => exact absurd hfirst hended
        | succ k => exact ⟨k, Nat.lt_of_succ_lt_succ hk, by rwa [← hlater]⟩
    · rw [ending_run_of_ended hfirst]
      exact ⟨fun h => ⟨0, Nat.succ_pos limit, h⟩, fun _ => hfirst⟩

/-- **Runs with a budget.**  A run that no stop reaches, whatever keys are pressed meanwhile, ends
just if its batches have ticks or there is nothing to run; and if it ends, it does so within as many
frames as the budget has cycles, or within one. -/
theorem ends_within_budget_iff (noise : Noise) (arrivals : Arrivals) (m : Machine) (c : Config)
    (budget : Nat) (hbudget : c.budget = some budget)
    (hquiet : arrivals.Quiet) :
    let frame k := ((new m c).history noise arrivals k).frame noise
    let moves := c.batchSize ≠ 0 ∨ budget = 0
    ((∃ k < max 1 budget, (frame k).ending ≠ .running) ↔ moves) ∧
      ((∃ k, (frame k).ending ≠ .running) ↔ moves) ∧
      ∀ (α : Type) (heed : α → Notice → α) (watcher : α),
        (((new m c).run noise heed (max 1 budget) watcher).ending ≠ .running ↔ moves) ∧
          ((∃ limit, ((new m c).run noise heed limit watcher).ending ≠ .running) ↔ moves) := by
  intro frame moves
  have hends : ∀ arrivals : Arrivals, moves →
      ∃ k < max 1 budget, (((new m c).history noise arrivals k).frame noise).ending ≠ .running :=
    fun _ hmoves => exists_ended hbudget hmoves
  have hmoves : ∀ (arrivals : Arrivals) (k : Nat), arrivals.Quiet →
      (((new m c).history noise arrivals k).frame noise).ending ≠ .running → moves := by
    intro arrivals k hquiet hended
    refine Classical.byContradiction fun hrests => ?_
    obtain ⟨hsize, hpositive⟩ := not_or.1 hrests
    exact hended (running_history hbudget (Decidable.not_not.1 hsize) hpositive hquiet k)
  refine ⟨⟨?_, hends arrivals⟩, ⟨?_, ?_⟩, fun α heed watcher => ⟨?_, ?_⟩⟩
  · rintro ⟨k, -, hended⟩
    exact hmoves arrivals k hquiet hended
  · rintro ⟨k, hended⟩
    exact hmoves arrivals k hquiet hended
  · intro h
    obtain ⟨k, -, hended⟩ := hends arrivals h
    exact ⟨k, hended⟩
  · rw [ending_run_iff]
    refine ⟨?_, hends []⟩
    rintro ⟨k, -, hended⟩
    exact hmoves [] k Arrivals.quiet_nil hended
  · simp only [ending_run_iff]
    constructor
    · rintro ⟨limit, k, -, hended⟩
      exact hmoves [] k Arrivals.quiet_nil hended
    · exact fun h => ⟨max 1 budget, hends [] h⟩

/-- A program that waits for a key for ever, in batches of three and with a budget of seven. -/
theorem ends_within_budget_iff_waiting :
    let blank : Bus := ⟨.blank 4096, .dark, .idle⟩
    let m := Machine.new.withBus (blank.store 0x200 [0xF0, 0x0A]).value
    ∃ k < 7, (((new m ⟨3, 15, some 7⟩).history (fun _ => 0) [] k).frame fun _ => 0).ending ≠
      .running := by
  intro blank m
  have hmoves : (⟨3, 15, some 7⟩ : Config).batchSize ≠ 0 ∨ 7 = 0 := .inl (by decide)
  exact (ends_within_budget_iff (fun _ => 0) [] m _ 7 rfl Arrivals.quiet_nil).1.2 hmoves

/-- The command line accepts batches without ticks, and with a budget of one cycle the run goes on
for ever. -/
theorem empty_batches_never_end :
    ((CommandLine.parse ["ROM", "--cycles-per-frame=0", "--max-cycles=1"]).toOption.map
        CommandLine.Settings.config = some ⟨0, 15, some 1⟩) ∧
      (∀ k, (((new .new ⟨0, 15, some 1⟩).history (fun _ => 0) [] k).frame fun _ => 0).ending =
        .running) ∧
      ∀ limit, ((new .new ⟨0, 15, some 1⟩).run (fun _ => 0) (fun _ _ => ()) limit ()).ending =
        .running := by
  have hframes : ∀ k, (((new .new ⟨0, 15, some 1⟩).history (fun _ => 0) [] k).frame
      fun _ => 0).ending = .running :=
    fun k => running_history rfl rfl Nat.one_ne_zero Arrivals.quiet_nil k
  refine ⟨by decide +kernel, hframes, fun limit => ?_⟩
  refine Classical.byContradiction fun hended => ?_
  obtain ⟨k, -, hended⟩ := (ending_run_iff limit ()).1 hended
  exact hended (hframes k)

end Scheduler

end ChipEight
