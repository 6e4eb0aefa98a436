import ChipEight.Console.Program
import ChipEight.Proofs.Console.Layout
import ChipEight.Proofs.Machine.Faults
import ChipEight.Proofs.Machine.Loading
import ChipEight.Proofs.Scheduler.Batching
import ChipEight.Proofs.Scheduler.Events
import ChipEight.Proofs.Scheduler.Viewer

/-!
# The whole program

When nothing is typed, the program does no more than run ticks up to its budget and show what they
have reached.

1. The notices of a frame put a sheet on the screen that depends on the ticks only
   (`Session.Quiet.frame`).
2. The frame that is not followed by another one shows the ticks of the whole budget, or those up to
   the fault (`ticks_of_ended`).
3. So the report is one and the same however the ticks are cut into frames, and it tells what became
   of them (`report_of_ticks`).
-/

namespace ChipEight

/-- What is on the screen after ticks. -/
def Sheet.ofTicks (p : Progress Machine) : Sheet :=
  ⟨.ofDisplay p.value.bus.display, some ⟨p.value.pc, p.value.next.toOption, p.completed⟩⟩

/-- What is reported of ticks. -/
def Report.ofTicks (kit : Toolkit) (p : Progress Machine) : Report :=
  let rows := kit.paint (Sheet.ofTicks p).drawing
  match p.fault with
  | none => ⟨0, none, rows⟩
  | some f => .failure kit "Chip8 Execution error" f.message rows

/-- What waits to be shown is not on the screen. -/
theorem Sheet.ofTicks_map_settled (p : Progress Machine) :
    ofTicks (p.map Machine.settled) = ofTicks p := rfl

/-! ## The notices of a frame -/

namespace Screen

/-- The screen with another picture to be shown next. -/
def withPicture (p : Picture) (s : Screen) : Screen :=
  { s with coming := { s.coming with picture := p } }

theorem foldl_pixelNotices (place : Fin 256) (byte : Byte) (bits : List (Fin 8)) (s : Screen) :
    (bits.map (pixelNotice place byte)).foldl heed s =
      s.withPicture (s.coming.picture.heedAll (bits.map (pixelNotice place byte))) := by
  induction bits generalizing s with
  | nil => rfl
  | cons bit rest ih => exact ih (s.heed (pixelNotice place byte bit))

theorem foldl_change (c : Change) (s : Screen) :
    c.notices.foldl heed s = s.withPicture (s.coming.picture.heedAll c.notices) := by
  cases c with
  | blanked => rfl
  | cell place byte =>
    have hbits : Change.notices (.cell place byte) =
        (List.finRange 8).map (pixelNotice place byte) :=
      (List.map_ofFn (f := id) (g := pixelNotice place byte)).symm
    rw [hbits]
    exact foldl_pixelNotices place byte _ s

theorem foldl_changes (changes : List Change) (s : Screen) :
    (changes.flatMap Change.notices).foldl heed s =
      s.withPicture (s.coming.picture.paint changes) := by
  induction changes generalizing s with
  | nil => rfl
  | cons c rest ih =>
    rw [List.flatMap_cons, List.foldl_append, foldl_change, ih, Picture.paint_cons,
      Picture.paint_singleton]
    rfl

/-- After the notices of a scheduler the sheet is complete and shown. -/
theorem foldl_notices (scheduler : Scheduler) (s : Screen) :
    let sheet : Sheet := ⟨s.coming.picture.paint scheduler.machine.bus.display.pending,
      some scheduler.status⟩
    scheduler.notices.foldl heed s = ⟨sheet, some sheet⟩ := by
  rw [Scheduler.notices, List.foldl_append, foldl_changes]
  rfl

end Screen

namespace Scheduler

/-- That nothing arrives at the first look is as if nothing arrives at all. -/
theorem frame_nothing (noise : Noise) (s : Scheduler) : s.frame noise [[]] = s.frame noise [] := by
  unfold frame
  cases s.config.batchSize <;> rfl

/-- A frame that nothing interrupts puts on the screen what its ticks have reached. -/
theorem frame_quiet_shown {screen : Screen} {m : Machine}
    (h : screen.coming.picture.InStep m.bus.display) (noise : Byte) (c : Config) (cycles : Nat) :
    let p := repeatedFrom (Machine.tick noise) cycles (c.allowance c.batchSize cycles) m
    let f := (Scheduler.mk m c cycles false).frame (fun _ => noise) []
    let screen' := f.notices.foldl Screen.heed screen
    screen'.shown = some (Sheet.ofTicks p) ∧
      screen'.coming.picture.InStep f.scheduler.machine.bus.display := by
  intro p f screen'
  let ended : Scheduler := ⟨p.value, c, p.completed, false⟩
  have hbatch := batch_quiet noise m c cycles c.batchSize
  have hnotices : f.notices = ended.notices :=
    (notices_frame _ _ _).trans (congrArg (fun b => b.scheduler.notices) hbatch)
  have hscreen : screen' = ⟨_, some _⟩ :=
    (congrArg (List.foldl Screen.heed screen) hnotices).trans (Screen.foldl_notices ended screen)
  have hpending : screen.coming.picture.InStep p.value.bus.display := by
    have hstable := (Bus.stable_inStep screen.coming.picture).batch
      (s := ⟨m, c, cycles, false⟩) (fun _ => noise) c.batchSize [] h
    rwa [hbatch] at hstable
  have hpicture : screen.coming.picture.paint p.value.bus.display.pending =
      .ofDisplay p.value.bus.display := Picture.Shows.eq_ofDisplay hpending
  refine ⟨?_, ?_⟩
  · rw [hscreen]
    exact congrArg (fun picture => some (Sheet.mk picture (some ended.status))) hpicture
  · rw [hscreen]
    have hsettled : f.scheduler = ⟨p.value.settled, c, p.completed, false⟩ :=
      (frame_quiet noise m c cycles).1
    rw [hsettled]
    exact hpending.drain.2

end Scheduler

/-! ## Sessions without a key -/

/-- A session on which nothing was typed, after `f` frames that were followed by another one. -/
structure Session.Quiet (noise : Byte) (m : Machine) (c : Config) (f : Nat) (s : Session) :
    Prop where
  keyboard : s.keyboard = .idle
  sent : s.sent = []
  scheduler : s.scheduler = ⟨s.scheduler.machine, c, c.quota f, false⟩
  machine : s.scheduler.machine.settled = (m.ticks noise (c.quota f)).value.settled
  fault : (m.ticks noise (c.quota f)).fault = none
  inStep : s.screen.coming.picture.InStep s.scheduler.machine.bus.display

section Quiet

variable {noise : Byte} {m : Machine} {c : Config} {f budget : Nat}

theorem Session.quiet_new (hdark : m.bus.display = .dark) :
    (Session.new (.new m c)).Quiet noise m c 0 where
  keyboard := rfl
  sent := rfl
  scheduler := by rw [Config.quota_zero]; rfl
  machine := by rw [Config.quota_zero]; rfl
  fault := by rw [Config.quota_zero]; rfl
  inStep := by
    show Picture.dark.InStep m.bus.display
    rw [hdark]
    exact Picture.inStep_dark

/-- A frame shows what the ticks up to its end have reached. -/
theorem Session.Quiet.frame {s : Session} (h : s.Quiet noise m c f) :
    let t := m.ticks noise (c.quota (f + 1))
    let shown := s.frame fun _ => noise
    shown.2 = c.endingAt t.completed t.fault ∧ shown.1.screen.shown = some (Sheet.ofTicks t) ∧
      (shown.2 = .running → ∀ now, (shown.1.poll now []).Quiet noise m c (f + 1)) := by
  intro t shown
  obtain ⟨m', hscheduler⟩ : ∃ m', s.scheduler = ⟨m', c, c.quota f, false⟩ := ⟨_, h.scheduler⟩
  have hmachine := h.machine
  have hinStep := h.inStep
  rw [hscheduler] at hmachine hinStep
  let p := repeatedFrom (Machine.tick noise) (c.quota f) (c.allowance c.batchSize (c.quota f)) m'
  -- the batch starts from a machine that ticks cannot tell from the one the ticks have reached
  have hticks : p.map Machine.settled = t.map Machine.settled := by
    rw [show t = _ from Scheduler.ticks_quota_succ noise m c f h.fault]
    exact repeatedFrom_congr (Machine.tick_congr noise) _ _ hmachine
  obtain ⟨hvalue, hcompleted, hfault⟩ := Progress.of_map_eq hticks
  have hsheet : Sheet.ofTicks p = Sheet.ofTicks t := by
    rw [← Sheet.ofTicks_map_settled, hticks, Sheet.ofTicks_map_settled]
  have hframe : s.scheduler.frame (fun _ => noise) [s.sent] =
      (Scheduler.mk m' c (c.quota f) false).frame (fun _ => noise) [] := by
    rw [h.sent, Scheduler.frame_nothing, hscheduler]
  obtain ⟨hafter, hending⟩ := Scheduler.frame_quiet noise m' c (c.quota f)
  obtain ⟨hshown, hinStep'⟩ := Scheduler.frame_quiet_shown hinStep noise c (c.quota f)
  rw [← hframe] at hafter hending hshown hinStep'
  have hending' : shown.2 = c.endingAt t.completed t.fault := by
    rw [← hcompleted, ← hfault]
    exact hending
  refine ⟨hending', hshown.trans (congrArg some hsheet), fun hrunning now => ?_⟩
  obtain ⟨hnone, -⟩ := (c.endingAt_eq_running_iff _ _).1 (hending'.symm.trans hrunning)
  have hquota : p.completed = c.quota (f + 1) :=
    hcompleted.trans (completed_repeated_of_success hnone)
  refine ⟨?_, ?_, ?_, ?_, hnone, hinStep'⟩
  · show (s.keyboard.pollAll now []).1 = .idle
    rw [h.keyboard]
    rfl
  · show (s.scheduler.frame _ [s.sent]).later.flatten ++ (s.keyboard.pollAll now []).2 = []
    rw [hframe, Scheduler.later_frame_nil, h.keyboard]
    rfl
  · show (s.scheduler.frame _ [s.sent]).scheduler = _
    rw [hafter, ← hquota]
    exact congrArg (fun m => Scheduler.mk m c p.completed false)
      (congrArg Scheduler.machine hafter).symm
  · show (s.scheduler.frame _ [s.sent]).scheduler.machine.settled = _
    rw [hafter]
    exact hvalue

/-- The frame that is not followed by another one has run the ticks of the whole budget, or those up
to the fault. -/
theorem ticks_of_ended (hbudget : c.budget = some budget)
    (hended : c.endingAt (m.ticks noise (c.quota f)).completed (m.ticks noise (c.quota f)).fault ≠
      .running) :
    m.ticks noise (c.quota f) = m.ticks noise budget := by
  have hquota : c.quota f ≤ budget := by
    unfold Config.quota
    rw [hbudget]
    exact Nat.min_le_left _ _
  rcases Config.ended_cases hended with ⟨e, hfault, -⟩ | ⟨hfault, hspent, -⟩
  · -- the longer row fails at the same tick
    obtain ⟨more, rfl⟩ := Nat.exists_eq_add_of_le hquota
    exact (repeatedFrom_add_of_failure hfault more).symm
  · obtain ⟨budget', hbudget', hle⟩ := (c.spentAt_eq_true_iff _).1 hspent
    obtain rfl := Option.some.inj (hbudget.symm.trans hbudget')
    have hcompleted : (m.ticks noise (c.quota f)).completed = c.quota f :=
      completed_repeated_of_success hfault
    rw [Nat.le_antisymm hquota (hcompleted ▸ hle)]

theorem Report.ofSession?_eq (kit : Toolkit) {s : Session} {t : Progress Machine} {ending : Ending}
    (hending : ending = c.endingAt t.completed t.fault)
    (hshown : s.screen.shown = some (Sheet.ofTicks t)) (hended : ending ≠ .running) :
    Report.ofSession? kit s ending = some (Report.ofTicks kit t) := by
  have hrows : s.screen.rows kit.paint = kit.paint (Sheet.ofTicks t).drawing := by
    unfold Screen.rows
    rw [hshown]
  unfold Report.ofTicks
  rw [hending] at hended ⊢
  rcases Config.ended_cases hended with ⟨e, hfault, hhalted⟩ | ⟨hfault, -, hfinished⟩
  · rw [hhalted, hfault, ← hrows]
    rfl
  · rw [hfinished, hfault, ← hrows]
    rfl

/-- A session without a key, from wherever it is: if it ends, it reports the ticks of the whole
budget, and if its frames run any ticks and there are enough of them, it ends. -/
theorem Session.Quiet.run (kit : Toolkit) (hbudget : c.budget = some budget) (limit now : Nat)
    {s : Session} (h : s.Quiet noise m c f) :
    let ended := s.run (fun _ => noise) limit now []
    (ended.2 ≠ .running →
        Report.ofSession? kit ended.1 ended.2 =
          some (Report.ofTicks kit (m.ticks noise budget))) ∧
      (1 ≤ c.batchSize → 1 ≤ limit → budget ≤ f + limit → ended.2 ≠ .running) := by
  induction limit generalizing f now s with
  | zero => exact ⟨fun hended => absurd rfl hended, fun _ hlimit => absurd hlimit (by decide)⟩
  | succ limit ih =>
    obtain ⟨hending, hshown, hnext⟩ := h.frame
    have hlast : (s.frame fun _ => noise).2 ≠ .running →
        Report.ofSession? kit (s.frame fun _ => noise).1 (s.frame fun _ => noise).2 =
          some (Report.ofTicks kit (m.ticks noise budget)) := by
      intro hended
      rw [← ticks_of_ended hbudget (hending ▸ hended)]
      exact Report.ofSession?_eq kit hending hshown hended
    unfold Session.run
    cases hframe : (s.frame fun _ => noise).2 with
    | running =>
      simp only [hframe]
      obtain ⟨hreport, hends⟩ := ih (now + s.pace) (hnext hframe _)
      refine ⟨hreport, fun hsize _ henough => ?_⟩
      obtain ⟨hfault, hspent⟩ := (c.endingAt_eq_running_iff _ _).1 (hending.symm.trans hframe)
      have hcompleted : (m.ticks noise (c.quota (f + 1))).completed = c.quota (f + 1) :=
        completed_repeated_of_success hfault
      have hlt : f + 1 < budget := Config.lt_of_not_spent hbudget hsize (hcompleted ▸ hspent)
      exact hends hsize (by omega) (by omega)
    | finished | halted =>
      rw [hframe] at hlast
      simp only [hframe]
      exact ⟨hlast, fun _ _ _ => nofun⟩

end Quiet

/-! ## The program -/

/-- The report tells what became of ticks. -/
structure Report.Tells (r : Report) (p : Progress Machine) : Prop where
  /-- It is a report of success just if all ticks have succeeded. -/
  success : r.exitCode = 0 ∧ r.message = none ↔ p.fault = none
  /-- Else it names the fault of the tick that failed. -/
  failure (f : Fault) (h : p.fault = some f) :
    r.exitCode = 1 ∧ r.message = some (failureMessage "Chip8 Execution error" f.message)
  /-- The screen has 35 rows, the first 34 of them with the box. -/
  box : r.screen.length = 35 ∧
    r.screen[0]? = some (String.ofList (Drawing.upperSide " CHIP-8 ".toList)) ∧
    r.screen[33]? = some (String.ofList Drawing.lowerSide)
  /-- Between the sides of the box both cells of a pixel are lit just if the pixel is. -/
  picture (y : Fin 32) : ∃ cells : List Char,
    r.screen[1 + y.val]? = some (String.ofList ('│' :: cells ++ ['│'])) ∧ cells.length = 128 ∧
      ∀ x : Fin 64,
        cells[2 * x.val]? = some (if p.value.bus.display.pixel x y then '█' else ' ') ∧
          cells[2 * x.val + 1]? = some (if p.value.bus.display.pixel x y then '█' else ' ')
  /-- In the last row are the program counter, the coming instruction and the number of ticks that
  have succeeded. -/
  status :
    let coming := match p.value.next with
      | .ok i => i.statement.text
      | .error _ => "???".toList
    r.screen[34]? = some (String.ofList (' ' :: p.value.pc.place ++ ' ' ::
      Padding.padded 16 coming ++ Decimal.digits p.completed ++ " cycles".toList))

theorem Fault.newline_notMem_message (f : Fault) : '\n' ∉ f.message.toList := by
  have hdecimal : ∀ n, '\n' ∉ (Decimal.text n).toList := by
    intro n
    rw [Decimal.text, String.toList_ofList]
    exact Decimal.notMem_digits rfl n
  have hword : ∀ n, '\n' ∉ (Hex.text 4 n).toList := by
    intro n
    rw [Hex.text, String.toList_ofList, Hex.number]
    simp [Hex.notMem_digits (show ∀ d : Fin 16, '\n' ≠ Hex.digit d by decide)]
  have happend : ∀ s t : String, '\n' ∉ s.toList → '\n' ∉ t.toList → '\n' ∉ (s ++ t).toList := by
    intro s t hs ht
    rw [String.toList_append]
    exact List.not_mem_append hs ht
  cases f with
  | imageTooLarge size capacity =>
    exact happend _ _ (happend _ _ (happend _ _ (happend _ _ (by decide) (hdecimal size))
      (by decide)) (hdecimal capacity)) (by decide)
  | outOfBounds address => exact happend _ _ (by decide) (hword _)
  | stackOverflow depth address =>
    exact happend _ _ (happend _ _ (happend _ _ (by decide) (hdecimal depth)) (by decide)) (hword _)
  | stackUnderflow => decide
  | unknownInstruction word => exact happend _ _ (by decide) (hword _)

section Tells

variable {kit : Toolkit} {p : Progress Machine}

theorem Report.screen_ofTicks (kit : Toolkit) (p : Progress Machine) :
    (ofTicks kit p).screen = kit.paint (Sheet.ofTicks p).drawing := by
  unfold ofTicks
  cases p.fault <;> rfl

theorem Report.tells_ofTicks (hpaint : Paints kit.paint) (hexplain : Explains kit.explain)
    (hcompleted : p.completed < 2 ^ 64) : (ofTicks kit p).Tells p := by
  have hfits : (Sheet.ofTicks p).drawing.Fits := Sheet.fits_drawing rfl hcompleted
  constructor
  case success =>
    unfold ofTicks
    cases p.fault with
    | none => exact ⟨fun _ => rfl, fun _ => ⟨rfl, rfl⟩⟩
    | some f => exact ⟨fun h => absurd (show 1 = 0 from h.1) (by decide), fun h => nomatch h⟩
  case failure =>
    intro f h
    unfold ofTicks
    rw [h]
    exact ⟨rfl, congrArg some (hexplain _ _ (by decide) f.newline_notMem_message)⟩
  case box =>
    rw [screen_ofTicks]
    exact ⟨hpaint.height _ hfits, hpaint.upper _ hfits, hpaint.lower _ hfits⟩
  case picture =>
    intro y
    rw [screen_ofTicks]
    obtain ⟨row, hline, hpixels⟩ := (Sheet.ofTicks p).exists_line y
    refine ⟨Sheet.pixelLine row, hpaint.line _ hfits _ _ hline, Sheet.length_pixelLine row,
      fun x => ?_⟩
    have hlit : (Sheet.ofTicks p).picture.lit x y = p.value.bus.display.pixel x y :=
      Picture.lit_ofDisplay _ x y
    exact Sheet.getElem?_flatMap_cells (hlit ▸ hpixels x)
  case status =>
    rw [screen_ofTicks, hpaint.caption _ hfits, Sheet.caption_drawing rfl, Sheet.trimmed_chars]
    unfold Status.chars shownInstruction
    cases p.value.next <;> rfl

end Tells

namespace Program

/-- The arguments are understood as `settings` and name a file that holds `image`. -/
def Names (kit : Toolkit) (files : String → Except ReadError (Array Byte))
    (arguments : List String) (settings : CommandLine.Settings) (image : Array Byte) : Prop :=
  kit.parse arguments = .ok settings ∧ files settings.path = .ok image

theorem run_of_names {kit : Toolkit} {files : String → Except ReadError (Array Byte)}
    {arguments : List String} {settings : CommandLine.Settings} {image : Array Byte}
    (h : Names kit files arguments settings image) (noise : Noise) (limit : Nat) :
    run kit noise limit files arguments [] =
      match Machine.new.loadProgram image with
      | .error f => some (.failure kit "Failed to load ROM into CHIP-8 memory" f.message [])
      | .ok m =>
        let ended := (Session.new (.new m settings.config)).run noise limit 0 []
        Report.ofSession? kit ended.1 ended.2 := by
  unfold run prepare
  rw [h.1]
  simp only [h.2]
  cases Machine.new.loadProgram image <;> rfl

theorem load_new_of_le {image : Array Byte} (h : image.size ≤ programCapacity) :
    ∃ m, Machine.new.loadProgram image = .ok m ∧ m.bus.display = .dark := by
  unfold Machine.loadProgram Bus.loadProgram
  rw [if_pos h]
  exact ⟨_, rfl, rfl⟩

/-- **The whole program.**  What is reported of an image, if nothing is typed, depends on the ticks
of its machine only, and tells what became of them.  There is a report as soon as the frames, if
ticks are run in them, have used up the budget.  Of the kit only this is assumed, that it paints
drawings that fit the terminal and words failures. -/
theorem report_of_ticks {kit : Toolkit} (hpaint : Paints kit.paint)
    (hexplain : Explains kit.explain) (noise : Byte) (image : Array Byte) (budget : BitVec 64) :
    (3584 < image.size → ∀ limit files arguments settings,
      Names kit files arguments settings image →
        run kit (fun _ => noise) limit files arguments [] =
          some ⟨1, some (failureMessage "Failed to load ROM into CHIP-8 memory"
            (Fault.imageTooLarge image.size 3584).message), []⟩) ∧
    (image.size ≤ 3584 → ∃ m report, Machine.new.loadProgram image = .ok m ∧
      report.Tells (m.ticks noise budget.toNat) ∧
      ∀ files arguments settings, Names kit files arguments settings image →
        settings.maxCycles = some budget →
          (∀ limit r, run kit (fun _ => noise) limit files arguments [] = some r → r = report) ∧
          (1 ≤ settings.cyclesPerFrame.toNat → ∀ limit, max 1 budget.toNat ≤ limit →
            run kit (fun _ => noise) limit files arguments [] = some report)) := by
  refine ⟨fun hlarge limit files arguments settings hnames => ?_, fun hsize => ?_⟩
  · rw [run_of_names hnames, Machine.loadProgram_of_too_large hlarge]
    exact congrArg (fun message => some (Report.mk 1 (some message) []))
      (hexplain _ _ (by decide) (Fault.newline_notMem_message _))
  · obtain ⟨m, hload, hdark⟩ := load_new_of_le hsize
    have hcompleted : (m.ticks noise budget.toNat).completed < 2 ^ 64 :=
      Nat.lt_of_le_of_lt (completed_repeated_le _ _) budget.isLt
    refine ⟨m, .ofTicks kit (m.ticks noise budget.toNat), hload,
      Report.tells_ofTicks hpaint hexplain hcompleted, ?_⟩
    intro files arguments settings hnames hmax
    have hbudget : settings.config.budget = some budget.toNat := congrArg (Option.map _) hmax
    have hquiet : (Session.new (.new m settings.config)).Quiet noise m settings.config 0 :=
      Session.quiet_new hdark
    have hrun : ∀ limit, run kit (fun _ => noise) limit files arguments [] = _ := fun limit =>
      run_of_names hnames (fun _ => noise) limit
    rw [hload] at hrun
    refine ⟨fun limit r hr => ?_, fun hticks limit hlimit => ?_⟩
    · obtain ⟨hreport, -⟩ := hquiet.run kit hbudget limit 0
      rw [hrun] at hr
      -- a session that has not ended is not reported
      have hended : ((Session.new (.new m settings.config)).run (fun _ => noise) limit 0 []).2 ≠
          .running := by
        intro hrunning
        simp only [hrunning] at hr
        cases hr
      exact Option.some.inj (hr.symm.trans (hreport hended))
    · obtain ⟨hreport, hends⟩ := hquiet.run kit hbudget limit 0
      rw [hrun]
      exact hreport (hends hticks (by omega) (by omega))

/-- A program that loads a register and then returns, though nothing was called. -/
theorem report_of_ticks_underflow :
    let image : Array Byte := #[0x60, 0x07, 0x00, 0xEE]
    let files : String → Except ReadError (Array Byte) := fun _ => .ok image
    let arguments := ["ROM", "--max-cycles=12", "--cycles-per-frame", "3"]
    let settings : CommandLine.Settings := ⟨"ROM", 3, 15, some 12⟩
    Paints Toolkit.plain.paint ∧ Explains Toolkit.plain.explain ∧
      Names .plain files arguments settings image ∧
      ∃ r, run .plain (fun _ => 0) 12 files arguments [] = some r ∧ r.exitCode = 1 ∧
        r.message = some (failureMessage "Chip8 Execution error" Fault.stackUnderflow.message) ∧
        r.screen.length = 35 := by
  intro image files arguments settings
  have hnames : Names .plain files arguments settings image := ⟨rfl, rfl⟩
  obtain ⟨m, report, hload, htells, hrun⟩ :=
    (@report_of_ticks .plain Drawing.paints_rows explains_failureMessage 0 image 12).2 (by decide)
  obtain ⟨-, hends⟩ := hrun files arguments settings hnames rfl
  obtain ⟨m', hload', hloaded⟩ := Machine.loaded_of_fits (show image.size ≤ 3584 by decide) .new
  obtain rfl : m = m' := Except.ok.inj (hload.symm.trans hload')
  have hfirst : (m.goTo 0x200).fetch = .ok 0x6007 :=
    (hloaded.fetched 0 (by decide)).trans (congrArg Except.ok (by decide))
  have hsecond : (m.goTo 0x202).fetch = .ok 0x00EE :=
    (hloaded.fetched 1 (by decide)).trans (congrArg Except.ok (by decide))
  -- the first tick loads the register, the second one fails
  have hloads : (m.ticks 0 1).value = ((m.goTo 0x202).setReg 0 7).lowerTimers ∧
      (m.ticks 0 1).fault = none := by
    have hfetch : m.fetch = .ok 0x6007 := by
      rw [Machine.fetch, hloaded.started]
      exact hfirst
    have htick : m.tick 0 = .success ((m.goTo 0x202).setReg 0 7).lowerTimers := by
      rw [Machine.tick, Machine.step_of_instruction 0 (Machine.fetch_eq_ok_iff.1 hfetch)
        (i := .load 0 7) rfl, hloaded.started]
      rfl
    have hrow := toOutcome_repeatedFrom_one (Machine.tick 0) 0 m
    rw [htick] at hrow
    exact ⟨congrArg Outcome.value hrow, congrArg Outcome.fault hrow⟩
  have hstack : m.stack = [] := hloaded.kept .stack nofun nofun
  have hreturns : ((m.ticks 0 1).value.tick 0).fault = some .stackUnderflow := by
    rw [hloads.1, Machine.fault_tick]
    exact Machine.step_of_fails 0 (.ret (Machine.fetch_eq_ok_iff.1 hsecond) rfl hstack)
  have hfault : (m.ticks 0 12).fault = some .stackUnderflow := by
    have hrow : m.ticks 0 12 = ⟨(m.ticks 0 1).value.tick 0, 1⟩ :=
      repeated_of_failure hloads.2 hreturns (by decide)
    rw [hrow]
    exact hreturns
  obtain ⟨hexit, hmessage⟩ := htells.failure _ hfault
  exact ⟨Drawing.paints_rows, explains_failureMessage, hnames, report,
    hends (by decide) 12 (by decide), hexit, hmessage, htells.box.1⟩

end Program

end ChipEight
