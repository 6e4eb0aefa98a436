import ChipEight.Arcade
import ChipEight.Proofs.Bus.View
import ChipEight.Proofs.Machine.Accesses
import ChipEight.Proofs.Machine.Frame
import ChipEight.Proofs.Machine.Operation
import ChipEight.Proofs.Repetition

/-!
# Key events that nobody looks at

A tick learns of the keypad in three ways: its instruction asks for a key, or the word it fetches or
the row it reads meets one of the keypad's bytes.  A tick in which none of these happens does the
same whatever the keypad is, and what it stores into the keypad stays there.

1. Reading away from the keypad's bytes reads the same (`tracedReadWord_plug`, `tracedLoad_plug`).
2. Writing, anywhere, is refused or not by the address, and keeps buses alike that are alike
   without their keypads (`storeFrom_congr`).
3. So ticks keep such machines alike (`tick_congr_unplugged`), and so do key events between them
   (`key_events_unseen`).
-/

namespace ChipEight

/-- The access meets one of the keypad's bytes. -/
def Access.onKeypad (a : Access) : Bool := a.address == 0x150 || a.address == 0x151

namespace Bus

variable {b b' : Bus}

/-- The bus with the keypad pulled out. -/
def unplugged (b : Bus) : Bus := { b with keypad := .idle }

/-- The bus with another keypad. -/
def plug (k : Keypad) (b : Bus) : Bus := { b with keypad := k }

/-! ## Reading -/

theorem cell_plug {a : Fin 4096} (hflag : Location.of a ≠ .keyFlag)
    (hkey : Location.of a ≠ .keyNumber) (k : Keypad) (b : Bus) : (b.plug k).cell a = b.cell a := by
  unfold cell
  cases ha : Location.of a with
  | memory | picture => rfl
  | keyFlag => exact absurd ha hflag
  | keyNumber => exact absurd ha hkey

theorem read_plug {a : Access} (h : a.onKeypad = false) (k : Keypad) (b : Bus) :
    (b.plug k).read a.address = b.read a.address := by
  obtain ⟨hflag, hkey⟩ : a.address ≠ 0x150 ∧ a.address ≠ 0x151 := by
    simpa [Access.onKeypad] using h
  by_cases hin : a.address.toNat < 4096
  · have hflag' : Location.of ⟨a.address.toNat, hin⟩ ≠ .keyFlag := by
      intro e
      have hval : a.address.toNat = 0x150 := congrArg Fin.val (Location.eq_flagAddress_of_of_eq e)
      exact hflag (BitVec.eq_of_toNat_eq hval)
    have hkey' : Location.of ⟨a.address.toNat, hin⟩ ≠ .keyNumber := by
      intro e
      have hval : a.address.toNat = 0x151 := congrArg Fin.val (Location.eq_keyAddress_of_of_eq e)
      exact hkey (BitVec.eq_of_toNat_eq hval)
    rw [read_eq_ok _ _ hin, read_eq_ok _ _ hin, cell_plug hflag' hkey']
  · rw [read_eq_error _ _ hin, read_eq_error _ _ hin]

theorem tracedReadWord_plug {base : Word}
    (h : ∀ a ∈ (b.tracedReadWord base).accesses, a.onKeypad = false) (k : Keypad) :
    (b.plug k).tracedReadWord base = b.tracedReadWord base := by
  have hhigh : Access.onKeypad ⟨base, 0⟩ = false :=
    h _ (List.mem_append_left _ (List.mem_singleton.2 rfl))
  unfold tracedReadWord tracedRead at h ⊢
  rw [read_plug hhigh]
  cases hread : b.read (Access.address ⟨base, 0⟩) with
  | error f => rfl
  | ok high =>
    have hlow : Access.onKeypad ⟨base, 1⟩ = false := by
      refine h _ (List.mem_append_right _ ?_)
      rw [hread]
      exact List.mem_append_left _ (List.mem_singleton.2 rfl)
    simp only [read_plug hlow]

theorem tracedLoad_plug {base : Word} {offset count : Nat}
    (h : ∀ a ∈ (b.tracedLoad base offset count).accesses, a.onKeypad = false) (k : Keypad) :
    (b.plug k).tracedLoad base offset count = b.tracedLoad base offset count := by
  induction count generalizing offset with
  | zero => rfl
  | succ count ih =>
    have hfirst : Access.onKeypad ⟨base, offset⟩ = false :=
      h _ (List.mem_append_left _ (List.mem_singleton.2 rfl))
    unfold tracedLoad tracedRead at h ⊢
    rw [read_plug hfirst]
    cases hread : b.read (Access.address ⟨base, offset⟩) with
    | error f => rfl
    | ok byte =>
      have hrest : ∀ a ∈ (b.tracedLoad base (offset + 1) count).accesses, a.onKeypad = false := by
        intro a ha
        refine h a (List.mem_append_right _ ?_)
        rw [hread]
        exact List.mem_append_left _ ha
      simp only [ih hrest]

/-! ## Writing -/

theorem plug_of_unplugged (h : b.unplugged = b'.unplugged) : b' = b.plug b'.keypad := by
  unfold unplugged at h
  obtain ⟨hmemory, hdisplay, -⟩ := Bus.mk.inj h
  exact Bus.ext hmemory.symm hdisplay.symm rfl

theorem setCell_plug (a : Fin 4096) (byte : Byte) (k : Keypad) (b : Bus) :
    ((b.plug k).setCell a byte).unplugged = (b.setCell a byte).unplugged := by
  unfold setCell
  cases Location.of a <;> rfl

/-- The bytes may go into the keypad itself: whether they are refused is a matter of addresses. -/
theorem storeFrom_congr (h : b.unplugged = b'.unplugged) (done : Nat) (address : Word)
    (bytes : List Byte) :
    (b.storeFrom done address bytes).toOutcome.map unplugged =
      (b'.storeFrom done address bytes).toOutcome.map unplugged := by
  induction bytes generalizing done address b b' with
  | nil => exact congrArg Outcome.success h
  | cons byte rest ih =>
    rw [storeFrom, storeFrom]
    by_cases hin : address.toNat < 4096
    · rw [write_eq_ok _ _ _ hin, write_eq_ok _ _ _ hin]
      refine ih ?_ _ _
      rw [plug_of_unplugged h]
      exact (setCell_plug _ byte _ b).symm
    · rw [write_eq_error _ _ _ hin, write_eq_error _ _ _ hin]
      exact congrArg (Outcome.failure · _) h

end Bus

namespace Instruction

/-- The instruction asks the keypad for a key. -/
def asksForKey : Instruction → Bool
  | skip (.keyDown _) => true
  | skip (.keyUp _) => true
  | awaitKey _ => true
  | _ => false

/-- The accesses of the row that the instruction reads at the index. -/
def rowRead (m : Machine) : Instruction → List Access
  | draw _ _ height => (m.bus.tracedLoad m.index 0 height.toNat).accesses
  | loadRegisters x => (m.bus.tracedLoad m.index 0 (x.toNat + 1)).accesses
  | _ => []

end Instruction

namespace Machine

variable {m m' : Machine} {noise : Byte}

/-- The machine with the keypad pulled out. -/
def unplugged (m : Machine) : Machine := m.withBus m.bus.unplugged

theorem unplugged_plug (k : Keypad) (m : Machine) : (m.plug k).unplugged = m.unplugged := rfl

/-- The accesses with which the coming tick reads: its word, and the row of the instruction. -/
def reads (m : Machine) : List Access :=
  (m.bus.tracedReadWord m.pc).accesses ++ m.next.toOption.elim [] (Instruction.rowRead m)

/-- The coming tick looks at the keypad: its instruction asks for a key, or what it reads meets the
keypad's bytes. -/
def looksAtKeypad (m : Machine) : Bool :=
  m.next.toOption.any Instruction.asksForKey || m.reads.any Access.onKeypad

/-! ## Machines alike without their keypads -/

theorem plug_of_unplugged (h : m.unplugged = m'.unplugged) : m' = m.plug m'.bus.keypad := by
  have hbus : m'.bus = m.bus.plug m'.bus.keypad :=
    Bus.plug_of_unplugged (congrArg Machine.bus h)
  obtain ⟨bus, registers, pc, index, stack, delay, sound⟩ := m
  obtain ⟨bus', registers', pc', index', stack', delay', sound'⟩ := m'
  obtain ⟨-, rfl, rfl, rfl, rfl, rfl, rfl⟩ := Machine.mk.inj h
  exact congrArg (fun b : Bus => Machine.mk b registers pc index stack delay sound) hbus

/-! ## Instructions -/

theorem store_plug (bytes : List Byte) (k : Keypad) (m : Machine) :
    ((m.plug k).store bytes).map unplugged = (m.store bytes).map unplugged := by
  have hbus : (m.bus.plug k).unplugged = m.bus.unplugged := rfl
  exact congrArg (Outcome.map m.withBus) (Bus.storeFrom_congr hbus 0 m.index bytes)

theorem load_plug {count : Nat}
    (h : ∀ a ∈ (m.bus.tracedLoad m.index 0 count).accesses, a.onKeypad = false) (k : Keypad) :
    (m.bus.plug k).load m.index count = m.bus.load m.index count := by
  have hload := congrArg Traced.result (Bus.tracedLoad_plug h k)
  rwa [Bus.result_tracedLoad, Bus.result_tracedLoad, Access.address_zero] at hload

theorem perform_plug {i : Instruction} (hasks : i.asksForKey = false)
    (hreads : ∀ a ∈ i.rowRead m, a.onKeypad = false) (k : Keypad) :
    ((m.plug k).perform noise i).map unplugged = (m.perform noise i).map unplugged := by
  cases huses : i.usesBus with
  | false =>
    show ((m.withBus (m.bus.plug k)).perform noise i).map unplugged = _
    rw [perform_withBus huses noise (Bus.plug k)]
    rfl
  | true =>
    cases i with
    | clear => rfl
    | draw x y height =>
      simp only [perform, draw, Bus.draw, Bus.loadAll]
      rw [show (m.plug k).bus.load (m.plug k).index height.toNat = m.bus.load m.index height.toNat
        from load_plug hreads k]
      cases (m.bus.load m.index height.toNat).fault <;> rfl
    | storeDecimal x => exact store_plug _ k m
    | storeRegisters x => exact store_plug _ k m
    | loadRegisters x =>
      simp only [perform, loadRegisters]
      rw [show (m.plug k).bus.load (m.plug k).index (x.toNat + 1) = m.bus.load m.index (x.toNat + 1)
        from load_plug hreads k]
      rfl
    | skip test =>
      cases test with
      | keyDown | keyUp => cases hasks
      | equalsByte | differsByte | equals | differs => cases huses
    | awaitKey x => cases hasks
    | ret | jump | jumpOffset | call | load | addByte | combine | point | advance | random
    | readDelay | setDelay | setSound | pointGlyph => cases huses

/-! ## Ticks -/

theorem step_plug (h : m.looksAtKeypad = false) (noise : Byte) (k : Keypad) :
    ((m.plug k).step noise).map unplugged = (m.step noise).map unplugged := by
  obtain ⟨hasks, hreads⟩ := Bool.or_eq_false_iff.1 h
  rw [List.any_eq_false] at hreads
  have hfetch : (m.plug k).fetch = m.fetch := by
    have htraced := Bus.tracedReadWord_plug
      (fun a ha => Bool.eq_false_iff.2 (hreads a (List.mem_append_left _ ha))) k
    have hword := congrArg Traced.result htraced
    rwa [Bus.result_tracedReadWord, Bus.result_tracedReadWord] at hword
  unfold step
  rw [hfetch]
  cases hword : m.fetch with
  | error f => rfl
  | ok word =>
    simp only
    cases hdecode : Instruction.decode word with
    | error f => rfl
    | ok i =>
      have hnext : m.next = .ok i := by
        unfold next
        rw [hword]
        exact hdecode
      unfold reads at hreads
      rw [hnext] at hasks hreads
      exact perform_plug (m := m.goTo (m.pc + 2)) hasks
        (fun a ha => Bool.eq_false_iff.2 (hreads a (List.mem_append_right _ ha))) k

/-- A tick that does not look at the keypad answers the same and leaves the same, whatever the
keypad is. -/
theorem tick_congr_unplugged (hunseen : m.looksAtKeypad = false)
    (h : m.unplugged = m'.unplugged) (noise : Byte) :
    (m.tick noise).map unplugged = (m'.tick noise).map unplugged := by
  rw [plug_of_unplugged h]
  have hstep := step_plug hunseen noise m'.bus.keypad
  have hfault := Outcome.fault_of_map_eq hstep
  have hvalue := Outcome.value_of_map_eq hstep
  unfold tick Outcome.andThen
  rw [hfault]
  cases (m.step noise).fault with
  | none => exact congrArg (fun m => Outcome.success (lowerTimers m)) hvalue.symm
  | some f => exact hstep.symm

/-! ## Runs -/

/-- What the ticks among operations answer, in order. -/
def tickFaults (m : Machine) : List Operation → List (Option Fault)
  | [] => []
  | op :: rest =>
    let answered := (m.respond op).value.tickFaults rest
    match op with
    | .tick noise => (m.tick noise).fault :: answered
    | _ => answered

/-- `n` ticks, with any key events before, between and after them. -/
inductive Ticking (noise : Byte) : Nat → List Operation → Prop where
  | done : Ticking noise 0 []
  | tick {n : Nat} {ops : List Operation} (h : Ticking noise n ops) :
    Ticking noise (n + 1) (.tick noise :: ops)
  | press {n : Nat} {ops : List Operation} (key : Nibble) (h : Ticking noise n ops) :
    Ticking noise n (.press key :: ops)
  | release {n : Nat} {ops : List Operation} (h : Ticking noise n ops) :
    Ticking noise n (.release :: ops)

theorem ticking_replicate (noise : Byte) (n : Nat) :
    Ticking noise n (List.replicate n (.tick noise)) := by
  induction n with
  | zero => exact .done
  | succ n ih => exact .tick ih

/-- The machine after `n` ticks, whatever they answered. -/
def ticked (noise : Byte) (m : Machine) (n : Nat) : Machine :=
  m.after (List.replicate n (.tick noise))

/-- As long as the ticks of `m` do not look at the keypad, a machine that is the same without its
keypad does the same, whatever keys are pressed meanwhile. -/
theorem Ticking.congr {n : Nat} {ops : List Operation} (hops : Ticking noise n ops)
    (hunseen : ∀ j < n, (m.ticked noise j).looksAtKeypad = false)
    (h : m.unplugged = m'.unplugged) :
    m'.tickFaults ops = m.tickFaults (List.replicate n (.tick noise)) ∧
      (m'.after ops).unplugged = (m.ticked noise n).unplugged := by
  induction hops generalizing m m' with
  | done => exact ⟨rfl, h.symm⟩
  | @tick n ops hops ih =>
    have hfirst : m.looksAtKeypad = false := hunseen 0 (Nat.succ_pos n)
    have htick := tick_congr_unplugged hfirst h noise
    have hnext : (m.tick noise).value.unplugged = (m'.tick noise).value.unplugged :=
      Outcome.value_of_map_eq htick
    obtain ⟨hfaults, hafter⟩ := ih (fun j hj => hunseen (j + 1) (Nat.succ_lt_succ hj)) hnext
    refine ⟨?_, hafter⟩
    show (m'.tick noise).fault :: (m'.tick noise).value.tickFaults ops = (m.tick noise).fault :: _
    rw [Outcome.fault_of_map_eq htick, hfaults]
  | press key hops ih =>
    have hpressed : m.unplugged = (m'.press key).unplugged := h
    exact ih hunseen hpressed
  | release hops ih =>
    have hreleased : m.unplugged = m'.release.unplugged := h
    exact ih hunseen hreleased

/-- **Key events that nobody looks at make no difference.**  Two machines are the same but for their
keypads, and no tick of the first one, of `n` without key events, looks at the keypad.  Then `n`
ticks of the one and of the other, with whatever key events at whatever moments, answer the same
faults one by one and leave machines that are the same but for their keypads. -/
theorem key_events_unseen (noise : Byte) (n : Nat) (m m' : Machine)
    (h : m.unplugged = m'.unplugged)
    (hunseen : ∀ j < n, (m.ticked noise j).looksAtKeypad = false)
    {ops ops' : List Operation} (hops : Ticking noise n ops) (hops' : Ticking noise n ops') :
    m.tickFaults ops = m'.tickFaults ops' ∧
      (m.after ops).unplugged = (m'.after ops').unplugged := by
  obtain ⟨hfaults, hafter⟩ := hops.congr hunseen (rfl : m.unplugged = m.unplugged)
  obtain ⟨hfaults', hafter'⟩ := hops'.congr hunseen h
  exact ⟨hfaults.trans hfaults'.symm, hafter.trans hafter'.symm⟩

/-- Two registers are stored into the keypad, and then comes a word that is no instruction. -/
theorem key_events_unseen_store :
    let blank : Bus := ⟨.blank 4096, .dark, .idle⟩
    let m := new.withBus (blank.store 0x200 [0xA1, 0x50, 0xF1, 0x55, 0xFF, 0xFF]).value
    let m' := m.plug ⟨0xFF, 3⟩
    let ops := List.replicate 3 (Operation.tick 0)
    let ops' := [.press 5, .tick 0, .release, .press 0xA, .tick 0, .tick 0, .release]
    m.tickFaults ops = [none, none, some (.unknownInstruction 0xFFFF)] ∧
      m.tickFaults ops = m'.tickFaults ops' ∧
      (m.after ops).unplugged = (m'.after ops').unplugged := by
  intro blank m m' ops ops'
  have hunseen : ∀ j < 3, (m.ticked 0 j).looksAtKeypad = false := by decide +kernel
  have hops' : Ticking 0 3 ops' :=
    .press 5 (.tick (.release (.press 0xA (.tick (.tick (.release .done))))))
  have hsame : m.unplugged = m'.unplugged := (unplugged_plug ⟨0xFF, 3⟩ m).symm
  exact ⟨by decide +kernel,
    key_events_unseen 0 3 m m' hsame hunseen (ticking_replicate 0 3) hops'⟩

end Machine

end ChipEight
