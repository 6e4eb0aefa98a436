import ChipEight.Arcade
import ChipEight.Console.Session

/-!
# Keys that are held

The program looks at the keyboard again and again, and the keypad of its machine hears what each
look says.  Nobody else writes to the keypad meanwhile.

1. The time that the keyboard keeps and the key that is down change together: both show one held key
   with the time at which it was struck last, or none (`Watch.Shows`).  `Look.after` says how a look
   changes the held key, and every look keeps the two in step (`Watch.Shows.look`).
2. So after any looks the held key is that of the last strike, unless a key was lifted or the time
   ran out since (`Look.heldAfter_eq_some_iff`, `Look.heldAfter_of_last`).
3. A key that is lifted lets the held key go, whichever of the two was struck last
   (`held_unless_lifted`, `rollover_lets_go`).
-/

namespace ChipEight

theorem keyOfChar?_eq_some_iff {c : Char} {key : Nibble} :
    keyOfChar? c = some key ↔ keyLayout[key.toNat]? = some c := by
  constructor
  · intro h
    obtain ⟨i, hi, hkey⟩ := Option.bind_eq_some_iff.1 h
    obtain ⟨hlt, hc, -⟩ := List.idxOf?_eq_some_iff.1 hi
    rw [Nibble.toNat_of_ofNat? hkey, List.getElem?_eq_getElem hlt, hc]
  · intro h
    have hkey := keyOfChar?_keyLayout key
    rw [h] at hkey
    exact hkey

/-! ## Looks -/

/-- A look at the keyboard: the time in nanoseconds, and the key event that is found.  It is none
if nothing has happened or something that is no key event. -/
structure Look where
  time : Nat
  event : Option KeyEvent
deriving Repr, DecidableEq

namespace Look

/-- Something happens to a key with a place in the layout.  Ctrl-C is not such a key. -/
def Moves (key : Nibble) (motion : KeyMotion) (l : Look) : Prop :=
  ∃ c control, l.event = some ⟨.char c, control, motion⟩ ∧ keyLayout[key.toNat]? = some c ∧
    ¬ (c = 'c' ∧ control = true)

/-- A key is pressed, or pressed again. -/
def Strikes (key : Nibble) (l : Look) : Prop := l.Moves key .press ∨ l.Moves key .again

/-- A key is let go. -/
def Lifts (key : Nibble) (l : Look) : Prop := l.Moves key .release

/-- Whether the end of the program is requested. -/
def quits (l : Look) : Bool := l.event.any KeyEvent.quits

/-- The key with a place in the layout to which something happens, and what it is. -/
def moved? (l : Look) : Option (Nibble × KeyMotion) :=
  match l.event with
  | some e => if e.quits then none else e.code.key?.map (·, e.motion)
  | none => none

theorem moved?_eq_some_iff {l : Look} {key : Nibble} {motion : KeyMotion} :
    l.moved? = some (key, motion) ↔ l.Moves key motion := by
  obtain ⟨time, event⟩ := l
  cases event with
  | none => simp [moved?, Moves]
  | some e =>
    obtain ⟨code, control, motion'⟩ := e
    cases code with
    | char c =>
      have hquits : (KeyEvent.mk (.char c) control motion').quits = true ↔
          c = 'c' ∧ control = true := by simp [KeyEvent.quits]
      by_cases hq : c = 'c' ∧ control = true
      · simp only [moved?, Moves, if_pos (hquits.2 hq)]
        constructor
        · intro h
          cases h
        · rintro ⟨_, _, hsame, -, hno⟩
          cases hsame
          exact absurd hq hno
      · simp only [moved?, Moves, if_neg (mt hquits.1 hq), KeyCode.key?]
        constructor
        · intro h
          obtain ⟨key', hkey, hsame⟩ := Option.map_eq_some_iff.1 h
          cases hsame
          exact ⟨c, control, rfl, keyOfChar?_eq_some_iff.1 hkey, hq⟩
        · rintro ⟨_, _, hsame, hlayout, -⟩
          cases hsame
          rw [keyOfChar?_eq_some_iff.2 hlayout]
          rfl
    | escape => simp [moved?, Moves, KeyEvent.quits]
    | other => simp [moved?, Moves, KeyEvent.quits, KeyCode.key?]

instance (key : Nibble) (motion : KeyMotion) (l : Look) : Decidable (l.Moves key motion) :=
  decidable_of_iff _ moved?_eq_some_iff

instance (key : Nibble) (l : Look) : Decidable (l.Strikes key) :=
  inferInstanceAs (Decidable (_ ∨ _))

instance (key : Nibble) (l : Look) : Decidable (l.Lifts key) :=
  inferInstanceAs (Decidable (Moves _ _ _))

/-- The looks that are taken: up to the first request to quit. -/
def taken : List Look → List Look
  | [] => []
  | l :: rest => if l.quits then [l] else l :: taken rest

/-! ## The held key -/

/-- The held key and the time at which it was struck, once the look is taken. -/
def after (held : Option (Nat × Nibble)) (l : Look) : Option (Nat × Nibble) :=
  match l.moved? with
  | some (_, .release) => none
  | some (key, _) => some (l.time, key)
  | none => held.filter fun h => l.time ≤ h.1 + Keyboard.holdTime

/-- A key that was struck at `time` stays held: it is early enough and no key moves. -/
def Keeps (time : Nat) (l : Look) : Prop :=
  l.time ≤ time + Keyboard.holdTime ∧ ∀ key motion, ¬ l.Moves key motion

variable {held : Option (Nat × Nibble)} {time : Nat} {key : Nibble}

theorem moved?_eq_none_iff {l : Look} :
    l.moved? = none ↔ ∀ key motion, ¬ l.Moves key motion := by
  simp only [← moved?_eq_some_iff, Option.eq_none_iff_forall_ne_some, Prod.forall]

/-- A key is held after a look because it was held before, or because it is struck now. -/
theorem after_eq_some_iff {l : Look} :
    l.after held = some (time, key) ↔
      held = some (time, key) ∧ l.Keeps time ∨ l.time = time ∧ l.Strikes key := by
  have hstrikes : l.Strikes key ↔
      l.moved? = some (key, .press) ∨ l.moved? = some (key, .again) := by
    rw [moved?_eq_some_iff, moved?_eq_some_iff]
    rfl
  rw [hstrikes, Keeps, ← moved?_eq_none_iff, after]
  rcases l.moved? with _ | ⟨key', motion⟩
  · -- no key moves, so only the time can end the hold
    simp only [Option.filter_eq_some_iff, decide_eq_true_eq, reduceCtorEq, or_self, and_false,
      or_false, and_true]
  · cases motion <;> simp

/-- After looks, the held key was held before them, or it is that of the last strike. -/
theorem foldl_after_eq_some_iff (looks : List Look) :
    looks.foldl after held = some (time, key) ↔
      (held = some (time, key) ∧ ∀ l ∈ looks, l.Keeps time) ∨
        ∃ before l later, looks = before ++ l :: later ∧ l.time = time ∧ l.Strikes key ∧
          ∀ l' ∈ later, l'.Keeps time := by
  induction looks generalizing held with
  | nil => simp
  | cons l rest ih =>
    rw [List.foldl_cons, ih, after_eq_some_iff]
    constructor
    · rintro (⟨⟨hheld, hkeeps⟩ | ⟨htime, hstrikes⟩, hrest⟩ | ⟨before, l', later, rfl, h⟩)
      · exact Or.inl ⟨hheld, List.forall_mem_cons.2 ⟨hkeeps, hrest⟩⟩
      · exact Or.inr ⟨[], l, rest, rfl, htime, hstrikes, hrest⟩
      · exact Or.inr ⟨l :: before, l', later, rfl, h⟩
    · rintro (⟨hheld, hall⟩ | ⟨before, l', later, hlooks, htime, hstrikes, hlater⟩)
      · obtain ⟨hkeeps, hrest⟩ := List.forall_mem_cons.1 hall
        exact Or.inl ⟨Or.inl ⟨hheld, hkeeps⟩, hrest⟩
      · cases before with
        | nil =>
          obtain ⟨rfl, rfl⟩ := List.cons.inj hlooks
          exact Or.inl ⟨Or.inr ⟨htime, hstrikes⟩, hlater⟩
        | cons l₀ before =>
          obtain ⟨-, rfl⟩ := List.cons.inj hlooks
          exact Or.inr ⟨before, l', later, rfl, htime, hstrikes, hlater⟩

/-- The key that is held after looks and the time at which it was struck. -/
def heldAfter (looks : List Look) : Option (Nat × Nibble) := looks.foldl after none

theorem heldAfter_eq_some_iff {looks : List Look} :
    heldAfter looks = some (time, key) ↔
      ∃ before l later, looks = before ++ l :: later ∧ l.time = time ∧ l.Strikes key ∧
        ∀ l' ∈ later, l'.Keeps time := by
  rw [heldAfter, foldl_after_eq_some_iff]
  simp

theorem keeps_iff {l : Look} (h : ∀ key, ¬ l.Strikes key) :
    l.Keeps time ↔ l.time ≤ time + 100_000_000 ∧ ∀ key, ¬ l.Lifts key := by
  refine and_congr_right fun _ => ⟨fun hall key => hall key .release, fun hall key motion => ?_⟩
  cases motion with
  | press => exact fun hmoves => h key (Or.inl hmoves)
  | again => exact fun hmoves => h key (Or.inr hmoves)
  | release => exact hall key

/-- The key that was struck last is held just as long as the time lasts and no key is lifted. -/
theorem heldAfter_of_last {before later : List Look} {l : Look} (hl : l.Strikes key)
    (hlast : ∀ l' ∈ later, ∀ key', ¬ l'.Strikes key') (struck : Nat × Nibble) :
    heldAfter (before ++ l :: later) = some struck ↔
      (l.time, key) = struck ∧
        ∀ l' ∈ later, l'.time ≤ l.time + 100_000_000 ∧ ∀ key', ¬ l'.Lifts key' := by
  have hheld : l.after (before.foldl after none) = some (l.time, key) :=
    after_eq_some_iff.2 (Or.inr ⟨rfl, hl⟩)
  have hkeeps : (∀ l' ∈ later, l'.Keeps l.time) ↔
      ∀ l' ∈ later, l'.time ≤ l.time + 100_000_000 ∧ ∀ key', ¬ l'.Lifts key' :=
    forall₂_congr fun l' hl' => keeps_iff (hlast l' hl')
  obtain ⟨time, key'⟩ := struck
  rw [heldAfter, List.foldl_append, List.foldl_cons, hheld, foldl_after_eq_some_iff, ← hkeeps]
  constructor
  · rintro (⟨hsame, hall⟩ | ⟨before', l', later', rfl, -, hstrikes, -⟩)
    · cases hsame
      exact ⟨rfl, hall⟩
    · exact absurd hstrikes (hlast l' (List.mem_append_right _ List.mem_cons_self) key')
  · rintro ⟨hsame, hall⟩
    cases hsame
    exact Or.inl ⟨rfl, hall⟩

end Look

/-- A keyboard and the scheduler that hears what it says. -/
structure Watch where
  keyboard : Keyboard
  scheduler : Scheduler

namespace Watch

/-- The keypad of the machine. -/
def keypad (w : Watch) : Keypad := w.scheduler.machine.bus.keypad

/-- A new keyboard, and a machine with a new keypad. -/
def start (m : Machine) (c : Config) : Watch := ⟨.idle, .new (m.plug .idle) c⟩

/-- The keyboard has said something. -/
def hear (said : Keyboard × List Arrival) (w : Watch) : Watch :=
  ⟨said.1, w.scheduler.receiveAll said.2⟩

/-- Looks at the keyboard once. -/
def look (w : Watch) (l : Look) : Watch := w.hear (w.keyboard.poll l.time l.event)

/-- Looks at the keyboard again and again. -/
def lookAll (w : Watch) (looks : List Look) : Watch := looks.foldl look w

/-- Keyboard and keypad show the same held key, or both none, and the end was requested or not. -/
structure Shows (held : Option (Nat × Nibble)) (ended : Bool) (w : Watch) : Prop where
  pressedAt : w.keyboard.pressedAt = held.map Prod.fst
  pressed? : w.keypad.pressed? = held.map fun h => h.2.setWidth 8
  closed : w.keyboard.closed = ended
  stopped : w.scheduler.stopped = ended

theorem shows_start (m : Machine) (c : Config) : (start m c).Shows none false :=
  ⟨rfl, rfl, rfl, rfl⟩

variable {held : Option (Nat × Nibble)} {w : Watch}

/-- A held key is let go once its time has run out. -/
theorem Shows.expire (h : w.Shows held false) (now : Nat) :
    (w.hear (w.keyboard.expire now)).Shows
      (held.filter fun h => now ≤ h.1 + Keyboard.holdTime) false := by
  unfold Keyboard.expire
  rw [h.pressedAt]
  cases held with
  | none => exact h
  | some struck =>
    obtain ⟨time, key⟩ := struck
    by_cases hlate : Keyboard.holdTime < now - time
    · have hfilter : ¬ now ≤ time + Keyboard.holdTime := by omega
      simp only [Option.map_some, if_pos hlate, Option.filter_some, decide_eq_true_eq,
        if_neg hfilter]
      exact ⟨rfl, rfl, h.closed, h.stopped⟩
    · have hfilter : now ≤ time + Keyboard.holdTime := by omega
      simp only [Option.map_some, if_neg hlate, Option.filter_some, decide_eq_true_eq,
        if_pos hfilter]
      exact h

/-- A look first lets a key go whose time has run out, then takes in the event. -/
theorem look_eq (h : w.keyboard.closed = false) (l : Look) :
    w.look l =
      let kept := w.hear (w.keyboard.expire l.time)
      match l.event with
      | none => kept
      | some e => kept.hear (kept.keyboard.heed l.time e) := by
  obtain ⟨time, event⟩ := l
  cases event with
  | none => simp [look, Keyboard.poll, h]
  | some e => simp [look, Keyboard.poll, h, hear, Scheduler.receiveAll_append]

/-- A look keeps keyboard and keypad in step. -/
theorem Shows.look (h : w.Shows held false) (l : Look) :
    (w.look l).Shows (l.after held) l.quits := by
  have hkept := h.expire l.time
  rw [look_eq h.closed]
  obtain ⟨time, event⟩ := l
  cases event with
  | none => exact hkept
  | some e =>
    show (hear (Keyboard.heed time e _) _).Shows (Look.after held ⟨time, some e⟩) e.quits
    unfold Keyboard.heed Look.after Look.moved?
    by_cases hquits : e.quits = true
    · simp only [hquits]
      exact ⟨hkept.pressedAt, hkept.pressed?, rfl, rfl⟩
    · simp only [Bool.eq_false_iff.2 hquits]
      cases e.code.key? with
      | none => exact hkept
      | some key =>
        cases e.motion with
        | press | again | release => exact ⟨rfl, rfl, hkept.closed, hkept.stopped⟩

/-- Once the end is requested, nothing is looked at any more. -/
theorem lookAll_of_closed (h : w.keyboard.closed = true) (looks : List Look) :
    w.lookAll looks = w := by
  induction looks with
  | nil => rfl
  | cons l rest ih =>
    have hlook : w.look l = w := by
      rw [Watch.look, Keyboard.poll, if_pos h]
      rfl
    rw [lookAll, List.foldl_cons, hlook]
    exact ih

/-- Keyboard and keypad are in step after any looks. -/
theorem Shows.lookAll (h : w.Shows held false) (looks : List Look) :
    (w.lookAll looks).Shows ((Look.taken looks).foldl Look.after held) (looks.any Look.quits) := by
  induction looks generalizing w held with
  | nil => exact h
  | cons l rest ih =>
    have hlook := h.look l
    rw [Watch.lookAll, List.foldl_cons, List.any_cons, Look.taken]
    cases hquits : l.quits with
    | true =>
      rw [hquits] at hlook
      have hclosed := lookAll_of_closed hlook.closed rest
      rw [Watch.lookAll] at hclosed
      rw [hclosed]
      exact hlook
    | false =>
      rw [hquits] at hlook
      exact ih hlook

/-- A key without a place in the layout is as good as none. -/
theorem look_of_unmapped {e : KeyEvent} (hquits : e.quits = false)
    (hcode : ∀ c, e.code = .char c → c ∉ keyLayout) (time : Nat) (w : Watch) :
    w.look ⟨time, some e⟩ = w.look ⟨time, none⟩ := by
  have hkey : e.code.key? = none := by
    cases hc : e.code with
    | char c =>
      rw [KeyCode.key?, keyOfChar?, List.idxOf?_eq_none_iff.2 (hcode c hc)]
      rfl
    | escape => rfl
    | other => rfl
  have hheed : ∀ k : Keyboard, k.heed time e = (k, []) := by
    intro k
    rw [Keyboard.heed, hquits, hkey]
    rfl
  rw [Watch.look, Watch.look, Keyboard.poll, Keyboard.poll]
  split
  · rfl
  · simp only [hheed, List.append_nil]

/-- A session looks at its keyboard once for every event and once more. -/
theorem lookAll_events (now : Nat) (events : List KeyEvent) (w : Watch) :
    w.lookAll (events.map (fun e => ⟨now, some e⟩) ++ [⟨now, none⟩]) =
      w.hear (w.keyboard.pollAll now events) := by
  induction events generalizing w with
  | nil => rfl
  | cons e rest ih =>
    rw [List.map_cons, List.cons_append, Watch.lookAll, List.foldl_cons]
    refine (ih (w.look ⟨now, some e⟩)).trans ?_
    rw [Keyboard.pollAll, hear, hear, Scheduler.receiveAll_append]
    rfl

/-- **No key is held for ever.**  Let a program look at a new keyboard whatever it finds at whatever
times.  The keypad has a key down just if the keyboard keeps a time; then the key is the one struck
last and the time that of the look that found it.  The key struck last is down just as long as no
look is more than a hundred milliseconds later and no key is lifted.  A key without a place in the
layout changes nothing.  After a request to quit nothing more is taken in, and the scheduler is
stopped just if there was one. -/
theorem no_key_stuck (m : Machine) (c : Config) (looks : List Look) :
    let w := (start m c).lookAll looks
    w.keypad.isPressed = w.keyboard.pressedAt.isSome ∧
      (∀ time, w.keyboard.pressedAt = some time →
        ∃ before l later key, Look.taken looks = before ++ l :: later ∧ l.Strikes key ∧
          (∀ l' ∈ later, ∀ key', ¬ l'.Strikes key') ∧ l.time = time ∧
          w.keypad.pressed? = some (key.setWidth 8)) ∧
      (∀ before l later key, Look.taken looks = before ++ l :: later → l.Strikes key →
        (∀ l' ∈ later, ∀ key', ¬ l'.Strikes key') →
          (w.keypad.isPressed = true ↔
            ∀ l' ∈ later, l'.time ≤ l.time + 100_000_000 ∧ ∀ key', ¬ l'.Lifts key')) ∧
      (∀ (w : Watch) time e, e.quits = false → (∀ c, e.code = .char c → c ∉ keyLayout) →
        w.look ⟨time, some e⟩ = w.look ⟨time, none⟩) ∧
      (∀ before l later, looks = before ++ l :: later → l.quits = true →
        w = (start m c).lookAll (before ++ [l])) ∧
      (w.scheduler.stopped = true ↔ ∃ l ∈ looks, l.quits = true) := by
  intro w
  have hshows : w.Shows (Look.heldAfter (Look.taken looks)) (looks.any Look.quits) :=
    (shows_start m c).lookAll looks
  refine ⟨?_, fun time htime => ?_, fun before l later key hlooks hl hlast => ?_,
    fun w time e hquits hcode => look_of_unmapped hquits hcode time w,
    fun before l later hlooks hquits => ?_, ?_⟩
  · rw [← Keypad.isSome_pressed?, hshows.pressed?, hshows.pressedAt, Option.isSome_map,
      Option.isSome_map]
  · rw [hshows.pressedAt] at htime
    obtain ⟨⟨_, key⟩, hheld, rfl⟩ := Option.map_eq_some_iff.1 htime
    obtain ⟨before, l, later, hlooks, hl, hstrikes, hkeeps⟩ := Look.heldAfter_eq_some_iff.1 hheld
    refine ⟨before, l, later, key, hlooks, hstrikes, fun l' hl' key' => ?_, hl, ?_⟩
    · rintro (hmoves | hmoves)
      · exact (hkeeps l' hl').2 key' .press hmoves
      · exact (hkeeps l' hl').2 key' .again hmoves
    · rw [hshows.pressed?, hheld]
      rfl
  · rw [← Keypad.isSome_pressed?, hshows.pressed?, Option.isSome_map, Option.isSome_iff_exists,
      hlooks]
    simp only [Look.heldAfter_of_last hl hlast, exists_and_right, exists_eq', true_and]
  · have hended := ((shows_start m c).lookAll (before ++ [l])).closed
    rw [List.any_append, List.any_cons, hquits, Bool.true_or, Bool.or_true] at hended
    have hsplit : before ++ l :: later = (before ++ [l]) ++ later := by simp
    show (start m c).lookAll looks = _
    rw [hlooks, hsplit, Watch.lookAll, List.foldl_append]
    exact lookAll_of_closed hended later
  · rw [hshows.stopped, List.any_eq_true]

/-- **When a held key is let go.**  Key `key` was struck last, a hundred milliseconds ago or less,
and was not lifted since.  Then it is down just if no other key was lifted either. -/
theorem held_unless_lifted (m : Machine) (c : Config) {looks before later : List Look} {l : Look}
    {key : Nibble} (hlooks : Look.taken looks = before ++ l :: later) (hl : l.Strikes key)
    (hlast : ∀ l' ∈ later, ∀ key', ¬ l'.Strikes key')
    (hrecent : ∀ l' ∈ later, l'.time ≤ l.time + 100_000_000)
    (hown : ∀ l' ∈ later, ¬ l'.Lifts key) :
    ((start m c).lookAll looks).keypad.pressed? = some (key.setWidth 8) ↔
      ∀ l' ∈ later, ∀ other, other ≠ key → ¬ l'.Lifts other := by
  rw [((shows_start m c).lookAll looks).pressed?, hlooks]
  constructor
  · intro hdown l' hl' other _
    obtain ⟨struck, hheld, -⟩ := Option.map_eq_some_iff.1 hdown
    exact (((Look.heldAfter_of_last hl hlast struck).1 hheld).2 l' hl').2 other
  · intro hothers
    have hheld : Look.heldAfter (before ++ l :: later) = some (l.time, key) := by
      refine (Look.heldAfter_of_last hl hlast _).2 ⟨rfl, fun l' hl' => ⟨hrecent l' hl', ?_⟩⟩
      intro key' hlifts
      by_cases hkey : key' = key
      · subst hkey
        exact hown l' hl' hlifts
      · exact hothers l' hl' key' hkey hlifts
    exact congrArg (Option.map fun h => h.2.setWidth 8) hheld

/-- Key 2 is pressed while key 1 is down; then a key without a place in the layout is let go, and
the last look is a hundred milliseconds later. -/
theorem held_unless_lifted_rollover :
    let one : Look := ⟨15_000_000, some ⟨.char '1', false, .press⟩⟩
    let two : Look := ⟨16_000_000, some ⟨.char '2', false, .press⟩⟩
    let later : List Look := [⟨18_000_000, some ⟨.char 'p', false, .release⟩⟩, ⟨116_000_000, none⟩]
    two.Strikes 2 ∧ (∀ l' ∈ later, l'.time ≤ two.time + 100_000_000) ∧
      (∀ l' ∈ later, ¬ l'.Lifts 2) ∧
      ((start .new {}).lookAll (one :: two :: later)).keypad.pressed? = some 2 := by
  intro one two later
  have htaken : Look.taken (one :: two :: later) = [one] ++ two :: later := by decide
  have htwo : two.Strikes 2 := by decide
  have hrecent : ∀ l' ∈ later, l'.time ≤ two.time + 100_000_000 := by decide
  have hown : ∀ l' ∈ later, ¬ l'.Lifts 2 := by decide
  have hheld := held_unless_lifted .new {} htaken htwo (by decide) hrecent hown
  exact ⟨htwo, hrecent, hown, hheld.2 (by decide)⟩

/-- Key 1 and then key 2 is pressed, and key 1 is let go: key 2 was struck last, two milliseconds
ago, and was not lifted, and is not down. -/
theorem rollover_lets_go :
    ¬ ∀ (m : Machine) (c : Config) (looks before later : List Look) (l : Look) (key : Nibble),
      Look.taken looks = before ++ l :: later → l.Strikes key →
      (∀ l' ∈ later, ∀ key', ¬ l'.Strikes key') →
      (∀ l' ∈ later, l'.time ≤ l.time + 100_000_000) → (∀ l' ∈ later, ¬ l'.Lifts key) →
        ((start m c).lookAll looks).keypad.pressed? = some (key.setWidth 8) := by
  intro h
  let one : Look := ⟨15_000_000, some ⟨.char '1', false, .press⟩⟩
  let two : Look := ⟨16_000_000, some ⟨.char '2', false, .press⟩⟩
  let lift : Look := ⟨18_000_000, some ⟨.char '1', false, .release⟩⟩
  have hdown := h .new {} [one, two, lift] [one] [lift] two 2 (by decide) (by decide) (by decide)
    (by decide) (by decide)
  have hup : ((start .new {}).lookAll [one, two, lift]).keypad.pressed? = none :=
    ((shows_start .new {}).lookAll [one, two, lift]).pressed?
  rw [hup] at hdown
  cases hdown

end Watch

end ChipEight
