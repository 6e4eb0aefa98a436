import ChipEight.Proofs.Keypad.Unseen
import ChipEight.Proofs.Machine.Timers
import ChipEight.Proofs.Machine.WriteSet

/-!
# Waiting for a key

1. A machine that waits for a key while none is down takes the program counter back to where it was,
   so that a tick only lowers its timers (`tick_of_key_up`), and any number of ticks do
   (`after_ticks`).
2. As long as its instruction is not in the keypad itself, a key that is up again before the next
   tick leaves nothing behind but its number (`Waits.after`).
3. The tick that finds a key down takes it and goes on (`tick_of_key_down`).

Main statement: `key_wait_polls`.
-/

namespace ChipEight

namespace Bus

theorem read_plug_of_ne {a : Word} (h : a ≠ 0x150 ∧ a ≠ 0x151) (k : Keypad) (b : Bus) :
    (b.plug k).read a = b.read a := by
  have hunseen : Access.onKeypad ⟨a, 0⟩ = false := by
    simpa [Access.onKeypad, Access.address_zero] using h
  have hread := read_plug hunseen k b
  rwa [Access.address_zero] at hread

end Bus

namespace Machine

variable {m : Machine} {x : Nibble} {n : Nat} {held : Option Nibble} {ops : List Operation}

/-- The two machines are the same but for these parts. -/
def SameBut (parts : List Part) (m m' : Machine) : Prop := ∀ p, p ∉ parts → p.Agree m m'

/-- Neither of the bytes at the program counter is in the keypad. -/
def FetchesOffKeypad (m : Machine) : Prop :=
  ∀ a, a = m.pc ∨ a = m.pc + 1 → a ≠ 0x150 ∧ a ≠ 0x151

/-- None of the operations meets a fault. -/
def Succeeds (m : Machine) : List Operation → Prop
  | [] => True
  | op :: rest => (m.respond op).fault = none ∧ (m.respond op).value.Succeeds rest

/-- `n` ticks among key events, none of them while a key is down; `held` is the key that is down in
the end, if one is. -/
inductive Waits : Nat → Option Nibble → List Operation → Prop where
  | start : Waits 0 none []
  | tick {n : Nat} {ops : List Operation} (noise : Byte) (h : Waits n none ops) :
    Waits (n + 1) none (ops ++ [.tick noise])
  | press {n : Nat} {held : Option Nibble} {ops : List Operation} (key : Nibble)
    (h : Waits n held ops) : Waits n (some key) (ops ++ [.press key])
  | release {n : Nat} {held : Option Nibble} {ops : List Operation} (h : Waits n held ops) :
    Waits n none (ops ++ [.release])

theorem succeeds_append (m : Machine) (ops ops' : List Operation) :
    m.Succeeds (ops ++ ops') ↔ m.Succeeds ops ∧ (m.after ops).Succeeds ops' := by
  induction ops generalizing m with
  | nil => exact ⟨fun h => ⟨trivial, h⟩, fun h => h.2⟩
  | cons op rest ih =>
    show _ ∧ (m.respond op).value.Succeeds (rest ++ ops') ↔ _
    rw [ih, ← and_assoc]
    rfl

/-! ## Timers that run down -/

/-- The machine with both timers lowered `n` times. -/
def runDown (m : Machine) : Nat → Machine
  | 0 => m
  | n + 1 => (m.runDown n).lowerTimers

theorem runDown_lowerTimers (m : Machine) (n : Nat) :
    m.lowerTimers.runDown n = (m.runDown n).lowerTimers := by
  induction n with
  | zero => rfl
  | succ n ih => exact congrArg lowerTimers ih

theorem lowerTimers_confined (p : Part) (m : Machine) :
    p ∈ [.delay, .sound] ∨ p.Agree m m.lowerTimers := by
  cases p with
  | delay => exact Or.inl List.mem_cons_self
  | sound => exact Or.inl (List.mem_cons_of_mem _ List.mem_cons_self)
  | pc | index | stack | register | memory | display | keypad => exact Or.inr rfl

theorem sameBut_runDown (m : Machine) (n : Nat) : m.SameBut [.delay, .sound] (m.runDown n) := by
  intro p hp
  induction n with
  | zero => exact Part.Agree.refl m p
  | succ n ih => exact ih.trans ((lowerTimers_confined p _).resolve_left hp)

theorem toNat_timer_runDown (t : Timer) (m : Machine) (n : Nat) :
    ((m.runDown n).timer t).toNat = (m.timer t).toNat - n := by
  induction n with
  | zero => rfl
  | succ n ih =>
    rw [runDown, timer_lowerTimers, toNat_lowered, ih]
    omega

theorem next_runDown (m : Machine) (n : Nat) : (m.runDown n).next = m.next := by
  induction n with
  | zero => rfl
  | succ n ih => exact ih

/-! ## Single ticks -/

/-- The rewind undoes the advance. -/
theorem tick_of_key_up (hnext : m.next = .ok (.awaitKey x))
    (hup : m.bus.keypad.pressed? = none) (noise : Byte) :
    m.tick noise = .success m.lowerTimers := by
  have hwait : (m.goTo (m.pc + 2)).awaitKey x = m := by
    unfold awaitKey
    rw [show (m.goTo (m.pc + 2)).bus.keypad.pressed? = none from hup]
    show m.goTo (m.pc + 2 - 2) = m
    rw [BitVec.add_sub_cancel]
    rfl
  unfold tick
  rw [step_of_next hnext]
  show Outcome.success ((m.goTo (m.pc + 2)).awaitKey x).lowerTimers = _
  rw [hwait]

theorem tick_of_key_down {key : Byte} (hnext : m.next = .ok (.awaitKey x))
    (hdown : m.bus.keypad.pressed? = some key) (noise : Byte) :
    m.tick noise = .success ((m.goTo (m.pc + 2)).setReg x key).lowerTimers := by
  have hwait : (m.goTo (m.pc + 2)).awaitKey x = (m.goTo (m.pc + 2)).setReg x key := by
    unfold awaitKey
    rw [show (m.goTo (m.pc + 2)).bus.keypad.pressed? = some key from hdown]
  unfold tick
  rw [step_of_next hnext]
  show Outcome.success ((m.goTo (m.pc + 2)).awaitKey x).lowerTimers = _
  rw [hwait]

/-! ## Rows of ticks -/

theorem after_ticks (hnext : m.next = .ok (.awaitKey x)) (hup : m.bus.keypad.pressed? = none)
    (noises : List Byte) :
    m.Succeeds (noises.map .tick) ∧ m.after (noises.map .tick) = m.runDown noises.length := by
  induction noises generalizing m with
  | nil => exact ⟨trivial, rfl⟩
  | cons noise rest ih =>
    have htick := tick_of_key_up hnext hup noise
    have hvalue : (m.respond (.tick noise)).value = m.lowerTimers := congrArg Outcome.value htick
    have hfault : (m.respond (.tick noise)).fault = none := congrArg Outcome.fault htick
    obtain ⟨hsucceeds, hafter⟩ := ih (m := m.lowerTimers) hnext hup
    refine ⟨⟨hfault, ?_⟩, ?_⟩
    · rw [hvalue]
      exact hsucceeds
    · rw [List.map_cons, after_cons, hvalue, hafter, runDown_lowerTimers]
      rfl

theorem next_plug (hoff : m.FetchesOffKeypad) (k : Keypad) : (m.plug k).next = m.next := by
  have hfetch : (m.plug k).fetch = m.fetch := by
    show (m.bus.plug k).readWord m.pc = m.bus.readWord m.pc
    unfold Bus.readWord
    rw [Bus.read_plug_of_ne (hoff _ (Or.inl rfl)), Bus.read_plug_of_ne (hoff _ (Or.inr rfl))]
  unfold next
  rw [hfetch]

theorem next_after_waits {m' : Machine} {k : Keypad} (hoff : m.FetchesOffKeypad)
    (hafter : m' = (m.runDown n).plug k) (hnext : m.next = .ok (.awaitKey x)) :
    m'.next = .ok (.awaitKey x) := by
  have hpc : (m.runDown n).pc = m.pc := sameBut_runDown m n .pc (by decide)
  have hoff' : (m.runDown n).FetchesOffKeypad := by
    unfold FetchesOffKeypad
    rwa [hpc]
  rw [hafter, next_plug hoff', next_runDown, hnext]

theorem Waits.after (hops : Waits n held ops) (hnext : m.next = .ok (.awaitKey x))
    (hup : m.bus.keypad.pressed? = none) (hoff : m.FetchesOffKeypad) :
    m.Succeeds ops ∧ ∃ k : Keypad, m.after ops = (m.runDown n).plug k ∧
      k.pressed? = held.map (·.setWidth 8) := by
  induction hops with
  | start => exact ⟨trivial, m.bus.keypad, rfl, hup⟩
  | @tick n ops noise hops ih =>
    obtain ⟨hsucceeds, k, hafter, hk⟩ := ih
    have hnext' := next_after_waits hoff hafter hnext
    have htick : (m.after ops).tick noise = .success (m.after ops).lowerTimers :=
      tick_of_key_up hnext' (by rw [hafter]; exact hk) noise
    -- a poll leaves the keypad to the key events
    refine ⟨(succeeds_append ..).2 ⟨hsucceeds, congrArg Outcome.fault htick, trivial⟩, k, ?_, hk⟩
    rw [after_append]
    show ((m.after ops).tick noise).value = _
    rw [htick, hafter]
    rfl
  | press key hops ih =>
    obtain ⟨hsucceeds, k, hafter, hk⟩ := ih
    refine ⟨(succeeds_append ..).2 ⟨hsucceeds, rfl, trivial⟩, k.press key, ?_, rfl⟩
    rw [after_append, hafter]
    rfl
  | release hops ih =>
    obtain ⟨hsucceeds, k, hafter, hk⟩ := ih
    refine ⟨(succeeds_append ..).2 ⟨hsucceeds, rfl, trivial⟩, k.release, ?_, rfl⟩
    rw [after_append, hafter]
    rfl

theorem plug_confined (p : Part) (k : Keypad) (m : Machine) :
    p = .keypad ∨ p.Agree m (m.plug k) := by
  cases p with
  | keypad => exact Or.inl rfl
  | pc | index | delay | sound | stack | register | memory | display => exact Or.inr rfl

theorem sameBut_runDown_plug (m : Machine) (n : Nat) (k : Keypad) :
    m.SameBut [.delay, .sound, .keypad] ((m.runDown n).plug k) := by
  intro p hp
  have htimers : p ∉ [.delay, .sound] := fun h => hp (List.mem_append_left [Part.keypad] h)
  have hkeypad : p ≠ .keypad := by
    rintro rfl
    exact hp (by decide)
  exact (sameBut_runDown m n p htimers).trans ((plug_confined p k _).resolve_left hkeypad)

/-! ## The tick that finds a key -/

/-- A tick of `m` that puts the key into register `x` and goes on behind the instruction. -/
structure TakesKey (x key : Nibble) (m : Machine) (o : Outcome Machine) : Prop where
  fault : o.fault = none
  reg : o.value.reg x = key.setWidth 8
  pc : o.value.pc = m.pc + 2
  /-- The key is still down. -/
  down : o.value.bus.keypad.pressed? = some (key.setWidth 8)
  timers (t : Timer) : (o.value.timer t).toNat = (m.timer t).toNat - 1
  others : m.SameBut [.register x, .pc, .delay, .sound] o.value

theorem takesKey_tick {key : Nibble} (hnext : m.next = .ok (.awaitKey x))
    (hdown : m.bus.keypad.pressed? = some (key.setWidth 8)) (noise : Byte) :
    m.TakesKey x key (m.tick noise) := by
  rw [tick_of_key_down hnext hdown]
  refine ⟨rfl, reg_setReg_self x _ (m.goTo (m.pc + 2)), rfl, hdown, fun t => ?_, fun p hp => ?_⟩
  · rw [Outcome.value_success, timer_lowerTimers, toNat_lowered]
    rfl
  · have hregister : p ≠ .register x := by
      rintro rfl
      exact hp List.mem_cons_self
    have hpc : p ≠ .pc := by
      rintro rfl
      exact hp (List.mem_cons_of_mem _ List.mem_cons_self)
    have htimers : p ∉ [.delay, .sound] := fun h =>
      hp (List.mem_append_right [Part.register x, Part.pc] h)
    have hgoTo := (goTo_confined m p (m.pc + 2)).resolve_left hpc
    have hsetReg :=
      (setReg_confined (m.goTo (m.pc + 2)) p x (key.setWidth 8)).resolve_left hregister
    exact (hgoTo.trans hsetReg).trans ((lowerTimers_confined p _).resolve_left htimers)

/-- **Waiting is polling.**  A machine waits for a key and none is down.  Then any number of ticks
succeed and change nothing but the timers, which run down.  If the instruction is not in the
keypad's bytes, keys that are up again before the next tick make no difference, and the first tick
that finds a key down takes it and changes nothing else but the counter and the timers. -/
theorem key_wait_polls (hnext : m.next = .ok (.awaitKey x))
    (hup : m.bus.keypad.pressed? = none) :
    (∀ noises : List Byte,
      let ops := noises.map Operation.tick
      let m' := m.after ops
      m.Succeeds ops ∧ m.SameBut [.delay, .sound] m' ∧
        ∀ t, (m'.timer t).toNat = (m.timer t).toNat - noises.length) ∧
      (m.FetchesOffKeypad → ∀ n held ops, Waits n held ops →
        let m' := m.after ops
        m.Succeeds ops ∧ m.SameBut [.delay, .sound, .keypad] m' ∧
          (∀ t, (m'.timer t).toNat = (m.timer t).toNat - n) ∧
          m'.bus.keypad.pressed? = held.map (·.setWidth 8) ∧
          ∀ key, held = some key → ∀ noise, m'.TakesKey x key (m'.tick noise)) := by
  constructor
  · intro noises ops m'
    obtain ⟨hsucceeds, hafter⟩ := after_ticks hnext hup noises
    have hm' : m' = m.runDown noises.length := hafter
    rw [hm']
    exact ⟨hsucceeds, sameBut_runDown m _, fun t => toNat_timer_runDown t m _⟩
  · intro hoff n held ops hops m'
    obtain ⟨hsucceeds, k, hafter, hk⟩ := hops.after hnext hup hoff
    have hm' : m' = (m.runDown n).plug k := hafter
    have hpressed : m'.bus.keypad.pressed? = held.map (·.setWidth 8) := by
      rw [hm']
      exact hk
    refine ⟨hsucceeds, hm' ▸ sameBut_runDown_plug m n k, fun t => ?_, hpressed, ?_⟩
    · rw [hm']
      exact toNat_timer_runDown t m n
    · rintro key rfl noise
      exact takesKey_tick (next_after_waits hoff hm' hnext) hpressed noise

/-- Key 7 is up again before the second tick and key 11 is down at the third. -/
theorem key_wait_polls_two_keys :
    let blank : Bus := ⟨.blank 4096, .dark, .idle⟩
    let m := { new.withBus (blank.store 0x200 [0xF4, 0x0A]).value with delay := 2, sound := 1 }
    let ops := [.tick 0, .press 7, .release, .tick 1, .press 0xB]
    let m' := m.after ops
    m.next = .ok (.awaitKey 4) ∧ m.bus.keypad.pressed? = none ∧ Waits 2 (some 0xB) ops ∧
      m'.TakesKey 4 0xB (m'.tick 2) ∧ m'.pc = 0x200 ∧ m'.delay = 0 ∧ m'.sound = 0 := by
  intro blank m ops m'
  have hnext : m.next = .ok (.awaitKey 4) := next_of_toOption (by decide +kernel)
  have hup : m.bus.keypad.pressed? = none := by decide +kernel
  have hops : Waits 2 (some 0xB) ops := .press 0xB (.tick 1 (.release (.press 7 (.tick 0 .start))))
  have hoff : m.FetchesOffKeypad := by
    rintro a (rfl | rfl) <;> decide +kernel
  have hwait := (key_wait_polls hnext hup).2 hoff 2 (some 0xB) ops hops
  exact ⟨hnext, hup, hops, hwait.2.2.2.2 0xB rfl 2, by decide +kernel⟩

end Machine

end ChipEight
