import ChipEight.Proofs.Bus.Rows
import ChipEight.Proofs.Display.InStep
import ChipEight.Proofs.Display.Strokes
import ChipEight.Proofs.Machine.Operation

/-!
# The queue of changes

The backlog of a display can be kept as a list of changes with a flag that is set when the list has
grown too long and was dropped (`Queue`).

1. Whatever is done to the devices, the queue is the backlog of the display (`display_after`).
2. The list, the flag and the bytes of the picture fit together, and everything keeps it so
   (`Sound.act`).
3. Changes without a blanking in them leave a viewer with the latest byte of each place
   (`lit_paint_of_not_blanked`).  With a blanking before them, they leave no trace of what was shown
   before, so what is handed over then brings any viewer in step (`Sound.shows_paint_drain`).
-/

namespace ChipEight

namespace Change

/-- The byte that the change puts at `place`. -/
def update? (place : Fin 256) : Change → Option Byte
  | blanked => none
  | cell place' byte => if place' = place then some byte else none

/-- The byte that the latest change of `place` puts there. -/
def latest? (place : Fin 256) : List Change → Option Byte
  | [] => none
  | c :: rest => (latest? place rest).or (c.update? place)

theorem latest?_append (place : Fin 256) (cs cs' : List Change) :
    latest? place (cs ++ cs') = (latest? place cs').or (latest? place cs) := by
  induction cs with
  | nil => exact (Option.or_none).symm
  | cons c rest ih => rw [List.cons_append, latest?, ih, latest?, Option.or_assoc]

end Change

/-- A picture and what of it was not shown yet. -/
structure Queue where
  /-- The bytes of the picture. -/
  cells : Bank 256
  /-- The changes that wait, oldest first. -/
  events : List Change
  /-- The list was dropped, and the whole picture has to be shown again. -/
  repaint : Bool
deriving Repr, DecidableEq

namespace Queue

/-- What can be done to the devices. -/
inductive Act where
  | clear
  | blit (x y : Byte) (rows : List Byte)
  | write (address : Word) (byte : Byte)
  | press (key : Nibble)
  | release
  | drain
deriving Repr, DecidableEq

/-- The act as an operation on a machine. -/
def Act.operation : Act → Operation
  | clear => .clear
  | blit x y rows => .blit x y rows
  | write address byte => .write address byte
  | press key => .press key
  | release => .release
  | drain => .drain

/-- A dark picture of which nothing has to be shown. -/
def fresh : Queue := ⟨.blank 256, [], false⟩

/-- One more change.  If it does not fit, it is dropped with the others. -/
def push (c : Change) (q : Queue) : Queue :=
  if q.repaint then q
  else if 512 ≤ q.events.length then { q with events := [], repaint := true }
  else { q with events := q.events ++ [c] }

/-- Writes a byte of the picture. -/
def write (place : Fin 256) (byte : Byte) (q : Queue) : Queue :=
  push (.cell place byte) { q with cells := q.cells.put place byte }

/-- Writes the byte at an address, if it is one of the picture. -/
def writeAt (address : Word) (byte : Byte) (q : Queue) : Queue :=
  if h : 0x050 ≤ address.toNat ∧ address.toNat < 0x150 then
    q.write ⟨address.toNat - 0x050, by omega⟩ byte
  else q

def invert (q : Queue) (s : Stroke) : Queue :=
  q.write s.place (q.cells.byteAt s.place ^^^ s.bits)

/-- Draws a sprite. -/
def blit (x y : Byte) (rows : List Byte) (q : Queue) : Queue :=
  (Stroke.ofSprite x y rows).foldl invert q

/-- Blanks the picture.  What waited no longer matters. -/
def clear (_ : Queue) : Queue := ⟨.blank 256, [.blanked], false⟩

/-- Hands over the changes to be shown and starts an empty list. -/
def drain (q : Queue) : List Change × Queue :=
  if q.repaint then
    (.blanked :: List.ofFn fun place : Fin 256 => Change.cell place (q.cells.byteAt place),
      { q with events := [], repaint := false })
  else (q.events, { q with events := [] })

def act (q : Queue) : Act → Queue
  | .clear => q.clear
  | .blit x y rows => q.blit x y rows
  | .write address byte => q.writeAt address byte
  | .press _ => q
  | .release => q
  | .drain => q.drain.2

/-- The queue after acts, one after the other. -/
def after (acts : List Act) (q : Queue) : Queue := acts.foldl act q

/-- The display with this queue as its backlog. -/
def display (q : Queue) : Display :=
  ⟨q.cells, if q.repaint then .everything else .changes q.events.toArray⟩

theorem push_cases (c : Change) (q : Queue) :
    (q.repaint = true ∧ q.push c = q) ∨
      (q.repaint = false ∧ 512 ≤ q.events.length ∧
        q.push c = { q with events := [], repaint := true }) ∨
      (q.repaint = false ∧ q.events.length < 512 ∧
        q.push c = { q with events := q.events ++ [c] }) := by
  unfold push
  cases hrepaint : q.repaint with
  | true => exact Or.inl ⟨rfl, if_pos rfl⟩
  | false =>
    rw [if_neg Bool.false_ne_true]
    by_cases hfull : 512 ≤ q.events.length
    · exact Or.inr (Or.inl ⟨rfl, hfull, if_pos hfull⟩)
    · exact Or.inr (Or.inr ⟨rfl, Nat.lt_of_not_le hfull, by rw [if_neg hfull]⟩)

/-- What writes keep, everything but blanking and handing over keeps. -/
theorem act_induction {P : Queue → Prop} {q : Queue} (a : Act)
    (hwrite : ∀ {q : Queue} (place : Fin 256) (byte : Byte), P q → P (q.write place byte))
    (hclear : a = .clear → P q.clear) (hdrain : a = .drain → P q.drain.2) (hq : P q) :
    P (q.act a) := by
  cases a with
  | clear => exact hclear rfl
  | blit x y rows =>
    show P ((Stroke.ofSprite x y rows).foldl invert q)
    generalize Stroke.ofSprite x y rows = strokes
    -- the induction is over every queue, and these two are about one
    clear hclear hdrain
    induction strokes generalizing q with
    | nil => exact hq
    | cons s rest ih => exact ih (hwrite _ _ hq)
  | write address byte =>
    show P (q.writeAt address byte)
    unfold writeAt
    split
    · exact hwrite _ _ hq
    · exact hq
  | press key => exact hq
  | release => exact hq
  | drain => exact hdrain rfl

theorem drain_of_repaint {q : Queue} (h : q.repaint = true) :
    q.drain = (.blanked :: q.display.allCells, { q with events := [], repaint := false }) :=
  if_pos h

theorem drain_of_not_repaint {q : Queue} (h : q.repaint = false) :
    q.drain = (q.events, { q with events := [] }) := by
  rw [drain, h]
  rfl

/-! ## The queue is the backlog of the display -/

theorem display_push (c : Change) (q : Queue) :
    (q.push c).display = ⟨q.cells, q.display.backlog.push c⟩ := by
  rcases push_cases c q with ⟨hrepaint, h⟩ | ⟨hrepaint, hfull, h⟩ | ⟨hrepaint, hroom, h⟩
  · rw [h]
    simp only [display, hrepaint, if_true, Backlog.push_everything]
  · rw [h]
    simp only [display, hrepaint, if_true, if_false, Bool.false_eq_true]
    exact congrArg _ (Backlog.push_changes_of_le c (by rwa [List.size_toArray])).symm
  · rw [h]
    simp only [display, hrepaint, if_false, Bool.false_eq_true]
    rw [Backlog.push_changes_of_lt c hroom, List.push_toArray]

theorem display_write (place : Fin 256) (byte : Byte) (q : Queue) :
    (q.write place byte).display = q.display.write place byte := display_push ..

theorem display_foldl_invert (strokes : List Stroke) (q : Queue) :
    (strokes.foldl invert q).display = (q.display.invertAll strokes).1 := by
  induction strokes generalizing q with
  | nil => rfl
  | cons s rest ih =>
    have hfirst : (q.invert s).display = (q.display.invert s.place s.bits).1 := display_write ..
    rw [List.foldl_cons, ih, hfirst]
    rfl

theorem display_blit (x y : Byte) (rows : List Byte) (q : Queue) :
    (q.blit x y rows).display = (q.display.blit x y rows).1 := by
  rw [Display.blit_eq_invertAll, blit, display_foldl_invert]

theorem drain_display (q : Queue) : q.display.drain = (q.drain.1, q.drain.2.display) := by
  cases hrepaint : q.repaint with
  | true =>
    rw [drain_of_repaint hrepaint, Display.drain, Display.pending]
    simp only [display, hrepaint, if_true]
    rfl
  | false =>
    rw [drain_of_not_repaint hrepaint, Display.drain, Display.pending]
    simp only [display, hrepaint, Bool.false_eq_true, if_false]
    rfl

/-- Of all addresses only those of the picture lead to the display. -/
theorem display_writeAt (address : Word) (byte : Byte) {q : Queue} {m : Machine}
    (h : m.bus.display = q.display) :
    (m.respond (.write address byte)).value.bus.display = (q.writeAt address byte).display := by
  simp only [Machine.respond, writeAt]
  by_cases hin : address.toNat < 4096
  · rw [Bus.write_eq_ok address byte m.bus hin]
    show (m.bus.setCell ⟨address.toNat, hin⟩ byte).display = _
    by_cases hpicture : 0x050 ≤ address.toNat ∧ address.toNat < 0x150
    · have hof : Location.of ⟨address.toNat, hin⟩ =
          .picture ⟨address.toNat - 0x050, by omega⟩ := dif_pos hpicture
      rw [dif_pos hpicture, display_write, ← h, Bus.setCell, hof]
    · rw [dif_neg hpicture, Bus.display_setCell_of_not_mem byte m.bus (by simp only; omega), h]
  · rw [Bus.write_eq_error address byte m.bus hin, dif_neg (by omega)]
    exact h

theorem display_act {q : Queue} {m : Machine} (h : m.bus.display = q.display) (a : Act) :
    (m.respond a.operation).value.bus.display = (q.act a).display := by
  cases a with
  | clear => rfl
  | blit x y rows =>
    show (m.bus.display.blit x y rows).1 = (q.blit x y rows).display
    rw [h, display_blit]
  | write address byte => exact display_writeAt address byte h
  | press key => exact h
  | release => exact h
  | drain =>
    show m.bus.display.drain.2 = q.drain.2.display
    rw [h, drain_display]

theorem display_after {q : Queue} {m : Machine} (h : m.bus.display = q.display)
    (acts : List Act) :
    (m.after (acts.map Act.operation)).bus.display = (q.after acts).display := by
  induction acts generalizing q m with
  | nil => exact h
  | cons a rest ih =>
    rw [List.map_cons, Machine.after_cons]
    exact ih (display_act h a)

/-! ## The list, the flag and the picture -/

/-- The list is short, and empty if it was dropped.  A blanking can only be the first change.  The
latest change of a place is about the byte that is there now, and where nothing has changed since
the picture was blanked, it is blank.  That the places are below 256 is in the type of a change. -/
structure Sound (q : Queue) : Prop where
  length : q.events.length ≤ 512
  dropped : q.repaint = true → q.events = []
  blanked : ∀ i, q.events[i]? = some .blanked → i = 0
  latest : ∀ place byte, Change.latest? place q.events = some byte →
    q.cells.byteAt place = byte
  others : q.events.head? = some .blanked → ∀ place, Change.latest? place q.events = none →
    q.cells.byteAt place = 0

/-- An empty list is sound, whatever the flag and the picture are. -/
theorem Sound.of_nil {q : Queue} (h : q.events = []) : q.Sound where
  length := by rw [h]; exact Nat.zero_le _
  dropped _ := h
  blanked i hi := by rw [h] at hi; cases hi
  latest place byte hlatest := by rw [h] at hlatest; cases hlatest
  others hhead := by rw [h] at hhead; cases hhead

theorem Sound.clear (q : Queue) : q.clear.Sound where
  length := by
    show 1 ≤ 512
    decide
  dropped h := by cases h
  blanked i hi := by
    obtain ⟨hlt, -⟩ := List.getElem?_eq_some_iff.1 hi
    exact Nat.lt_one_iff.1 hlt
  latest place byte h := by cases h
  others _ place _ := Bank.getElem_blank place.val place.isLt

/-- A byte that is written and listed. -/
theorem Sound.listed {q : Queue} (hq : q.Sound) (hrepaint : q.repaint = false)
    (hroom : q.events.length < 512) (place : Fin 256) (byte : Byte) :
    Sound { q with cells := q.cells.put place byte, events := q.events ++ [.cell place byte] } where
  length := by
    rw [List.length_append]
    exact hroom
  dropped h := by
    rw [hrepaint] at h
    cases h
  blanked i hi := by
    rw [List.getElem?_append] at hi
    split at hi
    · exact hq.blanked i hi
    · cases List.mem_singleton.1 (List.mem_of_getElem? hi)
  latest place' byte' h := by
    rw [Change.latest?_append] at h
    simp only [Change.latest?, Change.update?, Option.none_or] at h
    show (q.cells.set place.val byte)[place'.val] = byte'
    by_cases hplace : place = place'
    · subst hplace
      rw [if_pos rfl, Option.some_or] at h
      rw [Vector.getElem_set_self]
      exact Option.some.inj h
    · rw [if_neg hplace, Option.none_or] at h
      rw [Vector.getElem_set_ne _ _ fun e => hplace (Fin.ext e)]
      exact hq.latest place' byte' h
  others hhead place' h := by
    rw [Change.latest?_append] at h
    simp only [Change.latest?, Change.update?, Option.none_or] at h
    show (q.cells.set place.val byte)[place'.val] = 0
    have hplace : place ≠ place' := by
      rintro rfl
      rw [if_pos rfl] at h
      cases h
    rw [if_neg hplace, Option.none_or] at h
    rw [Vector.getElem_set_ne _ _ fun e => hplace (Fin.ext e)]
    refine hq.others ?_ place' h
    cases hevents : q.events with
    | nil => rw [hevents] at hhead; cases hhead
    | cons c rest => rw [hevents] at hhead; exact hhead

theorem Sound.write {q : Queue} (hq : q.Sound) (place : Fin 256) (byte : Byte) :
    (q.write place byte).Sound := by
  unfold Queue.write
  rcases push_cases (.cell place byte) { q with cells := q.cells.put place byte } with
    ⟨hrepaint, h⟩ | ⟨-, -, h⟩ | ⟨hrepaint, hroom, h⟩
  · rw [h]
    exact .of_nil (hq.dropped hrepaint)
  · rw [h]
    exact .of_nil rfl
  · rw [h]
    exact hq.listed hrepaint hroom place byte

theorem events_drain (q : Queue) : q.drain.2.events = [] := by
  unfold drain
  split <;> rfl

theorem Sound.act {q : Queue} (hq : q.Sound) (a : Act) : (q.act a).Sound :=
  act_induction a (fun place byte h => h.write place byte) (fun _ => .clear q)
    (fun _ => .of_nil (events_drain q)) hq

theorem Sound.after {q : Queue} (hq : q.Sound) (acts : List Act) : (q.after acts).Sound := by
  induction acts generalizing q with
  | nil => exact hq
  | cons a rest ih => exact ih (hq.act a)

/-! ## What is handed over -/

/-- The whole picture is due, or a blanking is. -/
def StartsOver (q : Queue) : Prop := q.repaint = true ∨ q.events.head? = some .blanked

theorem head?_drain_iff (q : Queue) : q.drain.1.head? = some .blanked ↔ q.StartsOver := by
  unfold StartsOver
  cases h : q.repaint with
  | true =>
    rw [drain_of_repaint h]
    exact iff_of_true rfl (Or.inl rfl)
  | false =>
    rw [drain_of_not_repaint h]
    exact ⟨Or.inr, fun hor => hor.resolve_left Bool.false_ne_true⟩

theorem StartsOver.write {q : Queue} (h : q.StartsOver) (place : Fin 256) (byte : Byte) :
    (q.write place byte).StartsOver := by
  unfold Queue.write
  rcases push_cases (.cell place byte) { q with cells := q.cells.put place byte } with
    ⟨hrepaint, hpush⟩ | ⟨-, -, hpush⟩ | ⟨hrepaint, -, hpush⟩
  · rw [hpush]
    exact Or.inl hrepaint
  · rw [hpush]
    exact Or.inl rfl
  · rw [hpush]
    have hhead := h.resolve_left (Bool.eq_false_iff.1 hrepaint)
    refine Or.inr ?_
    rw [List.head?_append, hhead]
    rfl

theorem StartsOver.act {q : Queue} (h : q.StartsOver) {a : Act} (ha : a ≠ .drain) :
    (q.act a).StartsOver :=
  act_induction a (fun place byte h => h.write place byte) (fun _ => Or.inr rfl)
    (fun e => absurd e ha) h

/-- Only handing over ends it. -/
theorem StartsOver.after {q : Queue} (h : q.StartsOver) {acts : List Act} (hacts : .drain ∉ acts) :
    (q.after acts).StartsOver := by
  induction acts generalizing q with
  | nil => exact h
  | cons a rest ih =>
    rw [List.mem_cons, not_or] at hacts
    exact ih (h.act fun e => hacts.1 e.symm) hacts.2

theorem Sound.length_drain {q : Queue} (hq : q.Sound) : q.drain.1.length ≤ 512 := by
  cases h : q.repaint with
  | true =>
    rw [drain_of_repaint h, List.length_cons, Display.allCells, List.length_ofFn]
    decide
  | false =>
    rw [drain_of_not_repaint h]
    exact hq.length

theorem Sound.blanked_drain {q : Queue} (hq : q.Sound) {i : Nat}
    (hi : q.drain.1[i]? = some .blanked) : i = 0 := by
  cases h : q.repaint with
  | true =>
    rw [drain_of_repaint h] at hi
    cases i with
    | zero => rfl
    | succ i =>
      rw [List.getElem?_cons_succ] at hi
      have hmem := List.mem_of_getElem? hi
      rw [Display.allCells, List.mem_ofFn] at hmem
      obtain ⟨place, hplace⟩ := hmem
      cases hplace
  | false =>
    rw [drain_of_not_repaint h] at hi
    exact hq.blanked i hi

/-- Without a blanking, the pixels of a place are those of its latest change. -/
theorem lit_paint_of_not_blanked {cs : List Change} (h : .blanked ∉ cs) (p : Picture) (x : Fin 64)
    (y : Fin 32) :
    (p.paint cs).lit x y =
      ((Change.latest? (Display.placeOf x y) cs).map fun byte => byte.getMsbD (x.val % 8)).getD
        (p.lit x y) := by
  induction cs generalizing p with
  | nil => rfl
  | cons c rest ih =>
    rw [List.mem_cons, not_or] at h
    rw [Picture.paint_cons, ih h.2, Change.latest?]
    cases c with
    | blanked => exact absurd rfl h.1
    | cell place byte =>
      rw [Picture.lit_paint_cell, Change.update?]
      simp only [eq_comm (a := place)]
      cases Change.latest? (Display.placeOf x y) rest with
      | some latest => rfl
      | none =>
        rw [Option.none_or]
        split <;> rfl

theorem Sound.blanked_not_mem_tail {q : Queue} (hq : q.Sound) {c : Change} {rest : List Change}
    (h : q.events = c :: rest) : .blanked ∉ rest := by
  intro hmem
  obtain ⟨i, hi⟩ := List.mem_iff_getElem?.1 hmem
  have hzero := hq.blanked (i + 1) (by rw [h]; exact hi)
  cases hzero

/-- After a blanking, a byte is the latest that was put there, or it is still zero. -/
theorem Sound.byteAt_of_blanked {q : Queue} (hq : q.Sound) {rest : List Change}
    (h : q.events = .blanked :: rest) (place : Fin 256) :
    q.cells.byteAt place = (Change.latest? place rest).getD 0 := by
  have hlatest : Change.latest? place q.events = Change.latest? place rest := by
    rw [h]
    exact Option.or_none
  rw [← hlatest]
  cases hbyte : Change.latest? place q.events with
  | some byte => exact hq.latest place byte hbyte
  | none => exact hq.others (by rw [h]; rfl) place hbyte

/-- What starts over brings any viewer in step. -/
theorem Sound.shows_paint_drain {q : Queue} (hq : q.Sound) (h : q.drain.1.head? = some .blanked)
    (p : Picture) : (p.paint q.drain.1).Shows q.display := by
  cases hrepaint : q.repaint with
  | true =>
    rw [drain_of_repaint hrepaint]
    exact Picture.shows_paint_allCells p q.display
  | false =>
    rw [drain_of_not_repaint hrepaint] at h ⊢
    cases hevents : q.events with
    | nil => rw [hevents] at h; cases h
    | cons c rest =>
      rw [hevents] at h
      obtain rfl : c = .blanked := Option.some.inj h
      intro x y
      have hdark : (p.paint [.blanked]).lit x y = false := Picture.lit_dark x y
      rw [Picture.paint_cons, lit_paint_of_not_blanked (hq.blanked_not_mem_tail hevents), hdark,
        Display.pixel_eq_getMsbD]
      show _ = (q.cells.byteAt (Display.placeOf x y)).getMsbD _
      rw [hq.byteAt_of_blanked hevents]
      cases Change.latest? (Display.placeOf x y) rest with
      | some byte => rfl
      | none => exact BitVec.getMsbD_zero.symm

/-- **The queue of changes.**  Whatever was done to the devices, the backlog of the display is a
sound queue.  So what is handed over is short and has a blanking at most at its head, where there
is one after the picture was blanked or the list was dropped.  Then it brings any viewer in step.
Handing over once more hands over nothing. -/
theorem sound_and_resynchronizing (keypad : Keypad) (acts : List Act) :
    let q := fresh.after acts
    let d := ((Machine.fresh keypad).after (acts.map Act.operation)).bus.display
    d = q.display ∧ q.Sound ∧ d.drain.1 = q.drain.1 ∧
      d.drain.1.length ≤ 512 ∧
      (∀ i, d.drain.1[i]? = some .blanked → i = 0) ∧
      (d.drain.1.head? = some .blanked ↔ q.StartsOver) ∧
      (∀ before later, acts = before ++ .clear :: later → .drain ∉ later → q.StartsOver) ∧
      (d.drain.1.head? = some .blanked → ∀ p : Picture, (p.paint d.drain.1).Shows d) ∧
      d.drain.2.drain.1 = [] := by
  intro q d
  have hd : d = q.display := display_after rfl acts
  have hq : q.Sound := Sound.after (.of_nil rfl) acts
  have hdrain : d.drain.1 = q.drain.1 := by rw [hd, drain_display]
  refine ⟨hd, hq, hdrain, ?_, fun i hi => ?_, ?_, fun before later hacts hlater => ?_,
    fun hhead p => ?_, d.pending_drain⟩
  · rw [hdrain]
    exact hq.length_drain
  · rw [hdrain] at hi
    exact hq.blanked_drain hi
  · rw [hdrain]
    exact head?_drain_iff q
  · have hsplit : q = (fresh.after before).clear.after later := by
      show fresh.after acts = _
      rw [hacts, after, List.foldl_append]
      rfl
    have hclear : (fresh.after before).clear.StartsOver := Or.inr rfl
    rw [hsplit]
    exact hclear.after hlater
  · rw [hdrain] at hhead ⊢
    rw [hd]
    exact hq.shows_paint_drain hhead p

end Queue

end ChipEight
