import ChipEight.Proofs.Machine.Calls
import ChipEight.Proofs.Machine.LeftBehind

/-!
# Timers over whole runs

1. An instruction sets a timer or leaves it alone (`timer_perform`).  A tick that succeeds then
   lowers the timer (`timer_tick`); a tick that fails leaves it alone (`timer_failing_tick`), and so
   does whatever else is asked of the machine (`timer_respond`).
2. So over a run each successful tick leaves the timer one below its own setting or, if it has none,
   below what the tick before it left (`timer_after`).
3. The latest setting outlives the ones before it (`toNat_runDown_latest`), so that it alone decides
   what a timer shows in the end (`timers_over_runs`).
-/

namespace ChipEight

/-- One of the two timers. -/
inductive Timer where
  | delay
  | sound
deriving Repr, DecidableEq

/-- What the instruction sets the timer to, if it sets it. -/
def Instruction.setting? (t : Timer) (m : Machine) : Instruction → Option Byte
  | setDelay x => if t = .delay then some (m.reg x) else none
  | setSound x => if t = .sound then some (m.reg x) else none
  | _ => none

/-- A timer that showed `timer`, after ticks with these settings. -/
def Timer.runDown (timer : Byte) (settings : List (Option Byte)) : Byte :=
  settings.foldl (fun timer new? => Machine.lowered (new?.getD timer)) timer

namespace Machine

/-- What a timer shows. -/
def timer (t : Timer) (m : Machine) : Byte :=
  match t with
  | .delay => m.delay
  | .sound => m.sound

/-- What the coming tick sets the timer to, if it sets it. -/
def setting? (t : Timer) (m : Machine) : Option Byte :=
  m.next.toOption.bind (Instruction.setting? t m)

/-- The machines that the successful ticks among operations start from, in order. -/
def tickStarts (m : Machine) : List Operation → List Machine
  | [] => []
  | op :: rest =>
    let later := (m.respond op).value.tickStarts rest
    match op with
    | .tick noise => if (m.tick noise).succeeded then m :: later else later
    | _ => later

end Machine

/-! ## Running down -/

namespace Timer

variable {timer : Byte} {before after settings : List (Option Byte)}

theorem toNat_runDown_unset (h : ∀ new? ∈ settings, new? = none) :
    (runDown timer settings).toNat = timer.toNat - settings.length := by
  induction settings generalizing timer with
  | nil => rfl
  | cons new? rest ih =>
    obtain rfl := h new? List.mem_cons_self
    show (runDown (Machine.lowered timer) rest).toNat = _
    rw [ih fun s hs => h s (List.mem_cons_of_mem _ hs), Machine.toNat_lowered, List.length_cons]
    omega

theorem runDown_append (timer : Byte) (before after : List (Option Byte)) :
    runDown timer (before ++ after) = runDown (runDown timer before) after := List.foldl_append

/-- The setting that comes last counts. -/
theorem toNat_runDown_latest {new : Byte} (h : ∀ new? ∈ after, new? = none) :
    (runDown timer (before ++ some new :: after)).toNat = new.toNat - (after.length + 1) := by
  rw [runDown_append]
  show (runDown (Machine.lowered new) after).toNat = _
  rw [toNat_runDown_unset h, Machine.toNat_lowered]
  omega

end Timer

namespace Machine

variable {m : Machine} {op : Operation} {noise : Byte}

/-! ## What an operation does to a timer -/

theorem timer_perform (t : Timer) (noise : Byte) (i : Instruction) (m : Machine) :
    (m.perform noise i).value.timer t = (i.setting? t m).getD (m.timer t) := by
  cases i with
  | setDelay x | setSound x => cases t <;> rfl
  | ret =>
    show m.ret.value.timer t = m.timer t
    unfold ret
    split <;> rfl
  | call target =>
    show (m.call target).value.timer t = m.timer t
    unfold call
    split <;> rfl
  | skip test =>
    obtain ⟨target, h⟩ := skip_eq test m
    show (m.skip test).timer t = m.timer t
    rw [h]
    rfl
  | combine op x y =>
    obtain ⟨bank, h⟩ := combine_eq op x y m
    show (m.combine op x y).timer t = m.timer t
    rw [h]
    rfl
  | draw x y height =>
    show (m.draw x y height).value.timer t = m.timer t
    unfold draw
    split <;> rfl
  | awaitKey x =>
    show (m.awaitKey x).timer t = m.timer t
    unfold awaitKey
    split <;> rfl
  | loadRegisters x =>
    show (m.loadRegisters x).value.timer t = m.timer t
    unfold loadRegisters timer
    rw [Outcome.value_map, setFirstRegs]
  | clear | jump | jumpOffset | load | addByte | point | advance | random | readDelay | pointGlyph
  | storeDecimal | storeRegisters => rfl

theorem timer_lowerTimers (t : Timer) (m : Machine) :
    m.lowerTimers.timer t = lowered (m.timer t) := by
  cases t <;> rfl

theorem exists_next_of_step (h : (m.step noise).fault = none) : ∃ i, m.next = .ok i := by
  rcases step_cases noise m with ⟨f, -, hs⟩ | ⟨w, -, -, hs⟩ | ⟨w, i, hfetch, hdecode, -⟩
  · rw [hs] at h
    cases h
  · rw [hs] at h
    cases h
  · refine ⟨i, ?_⟩
    unfold next
    rw [hfetch]
    exact hdecode

theorem timer_step (t : Timer) (h : (m.step noise).fault = none) :
    (m.step noise).value.timer t = (m.setting? t).getD (m.timer t) := by
  obtain ⟨i, hi⟩ := exists_next_of_step h
  rw [step_of_next hi, timer_perform, setting?, hi]
  cases i <;> rfl

theorem timer_tick (t : Timer) (h : (m.tick noise).fault = none) :
    (m.tick noise).value.timer t = lowered ((m.setting? t).getD (m.timer t)) := by
  rcases tick_eq noise m with ⟨htick, hfault⟩ | ⟨htick, hfault⟩
  · rw [htick] at h
    exact absurd h hfault
  · rw [htick, Outcome.value_success, timer_lowerTimers, timer_step t hfault]

theorem timer_failing_tick (t : Timer) (h : (m.tick noise).fault ≠ none) :
    (m.tick noise).value.timer t = m.timer t := by
  rcases tick_eq noise m with ⟨htick, hfault⟩ | ⟨htick, -⟩
  · obtain ⟨f, hf⟩ := Option.ne_none_iff_exists'.1 hfault
    obtain ⟨hdelay, hsound, -⟩ := (leaves_step hf).kept
    rw [htick]
    cases t with
    | delay => exact hdelay
    | sound => exact hsound
  · rw [htick] at h
    exact absurd rfl h

theorem timer_respond (t : Timer) (htick : op.isTick = false) (hhalf : op.isHalfTick = false)
    (m : Machine) : (m.respond op).value.timer t = m.timer t := by
  obtain ⟨_, _, _, _, h⟩ := respond_between htick hhalf m
  rw [h]
  rfl

/-! ## Runs -/

theorem tickStarts_cons_of_not_tick (h : op.isTick = false) (m : Machine) (ops : List Operation) :
    m.tickStarts (op :: ops) = (m.respond op).value.tickStarts ops := by
  rw [tickStarts]
  rintro noise rfl
  cases h

theorem tickStarts_cons_of_fails (h : (m.tick noise).fault ≠ none) (ops : List Operation) :
    m.tickStarts (.tick noise :: ops) = (m.tick noise).value.tickStarts ops := by
  refine if_neg ?_
  rwa [Outcome.succeeded, Option.isNone_iff_eq_none]

theorem tickStarts_cons_of_succeeds (h : (m.tick noise).fault = none) (ops : List Operation) :
    m.tickStarts (.tick noise :: ops) = m :: (m.tick noise).value.tickStarts ops := by
  refine if_pos ?_
  rw [Outcome.succeeded, h]
  rfl

/-- Only the ticks that succeed move a timer, each by its own setting or from where it was. -/
theorem timer_after (t : Timer) {ops : List Operation} (hops : ∀ op ∈ ops, op.isHalfTick = false)
    (m : Machine) :
    (m.after ops).timer t = Timer.runDown (m.timer t) ((m.tickStarts ops).map (setting? t)) := by
  induction ops generalizing m with
  | nil => rfl
  | cons op rest ih =>
    have hrest := ih (fun op' h => hops op' (List.mem_cons_of_mem _ h)) (m.respond op).value
    rw [after_cons, hrest]
    cases htick : op.isTick with
    | false =>
      rw [timer_respond t htick (hops op List.mem_cons_self), tickStarts_cons_of_not_tick htick]
    | true =>
      obtain ⟨noise, rfl⟩ := Operation.exists_of_isTick htick
      by_cases hfault : (m.tick noise).fault = none
      · rw [tickStarts_cons_of_succeeds hfault]
        show Timer.runDown ((m.tick noise).value.timer t) _ = _
        rw [timer_tick t hfault]
        rfl
      · rw [tickStarts_cons_of_fails hfault]
        show Timer.runDown ((m.tick noise).value.timer t) _ = _
        rw [timer_failing_tick t hfault]
        rfl

theorem timer_after_between (t : Timer) {ops : List Operation}
    (hops : ∀ op ∈ ops, op.isHalfTick = false) (hbetween : ∀ op ∈ ops, op.isTick = false)
    (m : Machine) : (m.after ops).timer t = m.timer t := by
  induction ops generalizing m with
  | nil => rfl
  | cons op rest ih =>
    rw [after_cons, ih (fun op' h => hops op' (List.mem_cons_of_mem _ h))
      fun op' h => hbetween op' (List.mem_cons_of_mem _ h)]
    exact timer_respond t (hbetween op List.mem_cons_self) (hops op List.mem_cons_self) m

theorem tick_readDelay {x : Nibble} (h : m.next = .ok (.readDelay x)) (noise : Byte) :
    (m.tick noise).fault = none ∧ (m.tick noise).value.reg x = m.delay := by
  unfold tick
  rw [step_of_next h]
  exact ⟨rfl, reg_setReg_self x m.delay (m.goTo (m.pc + 2))⟩

theorem beeps_iff (m : Machine) : m.beeps = true ↔ 0 < (m.timer .sound).toNat := by
  rw [beeps, decide_eq_true_iff, BitVec.lt_def]
  rfl

/-- What the timers show after operations, whose successful ticks start from `m.tickStarts ops`. -/
structure TimerLaws (m : Machine) (ops : List Operation) : Prop where
  /-- A timer that was not set has run down from where it was. -/
  unset (t : Timer) (h : ∀ s ∈ m.tickStarts ops, s.setting? t = none) :
    ((m.after ops).timer t).toNat = (m.timer t).toNat - (m.tickStarts ops).length
  /-- A timer that was set has run down from the latest setting, once in the tick that set it. -/
  latest (t : Timer) (before after : List Machine) (s : Machine) (new : Byte)
    (hstarts : m.tickStarts ops = before ++ s :: after) (hset : s.setting? t = some new)
    (h : ∀ s' ∈ after, s'.setting? t = none) :
    ((m.after ops).timer t).toNat = new.toNat - (after.length + 1)
  /-- Whatever else is done, the other timer included, has no influence on a timer. -/
  own (t : Timer) (m' : Machine) (ops' : List Operation)
    (hops' : ∀ op ∈ ops', op.isHalfTick = false) (h : m'.timer t = m.timer t)
    (hsettings : (m'.tickStarts ops').map (setting? t) = (m.tickStarts ops).map (setting? t)) :
    (m'.after ops').timer t = (m.after ops).timer t
  firstRead (x : Nibble) (noise : Byte) (hnone : ∀ op ∈ ops, op.isTick = false)
    (hnext : (m.after ops).next = .ok (.readDelay x)) :
    ((m.after ops).tick noise).fault = none ∧ ((m.after ops).tick noise).value.reg x = m.delay
  /-- The delay timer is read as the tick before left it. -/
  read (before between : List Operation) (x : Nibble) (noise noise' : Byte)
    (hsplit : ops = before ++ .tick noise :: between) (hnone : ∀ op ∈ between, op.isTick = false)
    (hnext : (m.after ops).next = .ok (.readDelay x)) :
    ((m.after ops).tick noise').fault = none ∧
      ((m.after ops).tick noise').value.reg x = ((m.after before).tick noise).value.delay
  failure (t : Timer) (noise : Byte) (h : ((m.after ops).tick noise).fault ≠ none) :
    ((m.after ops).tick noise).value.timer t = (m.after ops).timer t
  beeps : (m.after ops).beeps = true ↔ 0 < ((m.after ops).timer .sound).toNat

/-- **Timers over whole runs.**  A run is any row of operations in which ticks are not taken apart:
ticks that succeed or fail, and key events, accesses and loadings between them. -/
theorem timers_over_runs {ops : List Operation} (hops : ∀ op ∈ ops, op.isHalfTick = false)
    (m : Machine) : m.TimerLaws ops where
  unset t h := by
    rw [timer_after t hops, Timer.toNat_runDown_unset, List.length_map]
    intro new? hnew
    obtain ⟨s, hs, rfl⟩ := List.mem_map.1 hnew
    exact h s hs
  latest t before after s new hstarts hset h := by
    rw [timer_after t hops, hstarts, List.map_append, List.map_cons, hset,
      Timer.toNat_runDown_latest, List.length_map]
    intro new? hnew
    obtain ⟨s', hs', rfl⟩ := List.mem_map.1 hnew
    exact h s' hs'
  own t m' ops' hops' h hsettings := by
    rw [timer_after t hops, timer_after t hops', h, hsettings]
  firstRead x noise hnone hnext := by
    have hdelay : (m.after ops).delay = m.delay := timer_after_between .delay hops hnone m
    rw [← hdelay]
    exact tick_readDelay hnext noise
  read before between x noise noise' hsplit hnone hnext := by
    -- what follows the tick moves no timer
    have hbetween : ∀ op ∈ between, op.isHalfTick = false := by
      intro op hop
      exact hops op (hsplit ▸ List.mem_append_right _ (List.mem_cons_of_mem _ hop))
    have hafter : m.after ops = ((m.after before).tick noise).value.after between := by
      rw [hsplit, after_append]
      rfl
    have hdelay : (m.after ops).delay = ((m.after before).tick noise).value.delay := by
      rw [hafter]
      exact timer_after_between .delay hbetween hnone _
    rw [← hdelay]
    exact tick_readDelay hnext noise'
  failure t noise h := timer_failing_tick t h
  beeps := beeps_iff _

/-- The delay timer is set to 5 and the sound timer to 9, and then the delay timer is read. -/
theorem timers_over_runs_both :
    let blank : Bus := ⟨.blank 4096, .dark, .idle⟩
    let m := new.withBus (blank.store 0x200 [0xF1, 0x15, 0xF2, 0x18, 0xF3, 0x07]).value
    let ops := [.setReg 1 5, .setReg 2 9, .tick 0, .press 3, .tick 1, .tick 2, .tick 3]
    let m' := m.after ops
    (∀ op ∈ ops, op.isHalfTick = false) ∧ m.TimerLaws ops ∧
      (m.tickStarts ops).map (setting? .delay) = [some 5, none, none] ∧
      (m.tickStarts ops).map (setting? .sound) = [none, some 9, none] ∧
      m'.delay = 2 ∧ m'.sound = 7 ∧ m'.reg 3 = 3 ∧ m'.beeps = true := by
  intro blank m ops m'
  have hops : ∀ op ∈ ops, op.isHalfTick = false := by decide
  exact ⟨hops, timers_over_runs hops m, by decide +kernel⟩

end Machine

end ChipEight
