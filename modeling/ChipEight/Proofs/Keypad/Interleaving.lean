import ChipEight.Proofs.Bus.Rows
import ChipEight.Proofs.Keypad.Unseen
import ChipEight.Proofs.Machine.Calls

/-!
# Machines that take turns

The machines of an arcade tick in whatever order, one at a time and without key events.  A turn says
which machine ticks and what its random byte is; `deal` gives the `k`-th tick of every machine the
same random byte in every order.

1. A tick changes the keypad only if its instruction stores a row of bytes that meets the keypad's
   (`Machine.keypad_tick`).
2. So a turn in which this does not happen is a tick of one machine and nothing to the others
   (`tick_quiet`).
3. By induction on the turns, every machine does what it does alone (`play_quiet`), and whether a
   row ever meets the keypad is a matter of what the machines do alone (`meddles_eq_false_iff`).
-/

namespace ChipEight

namespace Machine

variable {m : Machine} {i : Instruction}

/-! ## The keypad in a tick -/

/-- The instruction at the program counter stores a row of bytes that meets the keypad's. -/
def storesOnKeypad (m : Machine) : Bool :=
  m.next.toOption.any fun i => (i.stored? m).any fun bytes =>
    m.index.toNat < 0x152 && 0x150 < m.index.toNat + bytes.length

theorem keypad_perform (noise : Byte)
    (h : ∀ bytes, i.stored? m = some bytes →
      m.index.toNat + bytes.length ≤ 0x150 ∨ 0x152 ≤ m.index.toNat) :
    (m.perform noise i).value.bus.keypad = m.bus.keypad := by
  rcases bus_perform noise i m with hbus | ⟨-, hbus⟩ | ⟨x, y, height, r, -, hdraw, hbus⟩ |
    ⟨bytes, hstored, hbus⟩
  · rw [hbus]
  · rw [hbus]; rfl
  · obtain ⟨rows, -, rfl⟩ := Bus.draw_eq_ok hdraw
    rw [hbus]
  · rw [hbus]
    exact Bus.keypad_store _ _ _ (h bytes hstored)

theorem keypad_step (h : m.storesOnKeypad = false) (noise : Byte) :
    (m.step noise).value.bus.keypad = m.bus.keypad := by
  cases hnext : m.next with
  | error f =>
    rcases step_cases noise m with ⟨f', -, hs⟩ | ⟨w, -, -, hs⟩ | ⟨w, i, hfetch, hdecode, -⟩
    · rw [hs]; rfl
    · rw [hs]; rfl
    · simp only [next, hfetch, hdecode] at hnext
      cases hnext
  | ok i =>
    rw [step_of_next hnext noise]
    refine keypad_perform (m := m.goTo (m.pc + 2)) noise fun bytes hbytes => ?_
    have hstored : i.stored? m = some bytes := by
      cases i <;> exact hbytes
    simp only [storesOnKeypad, hnext, Except.toOption, Option.any_some, hstored,
      Bool.and_eq_false_iff, decide_eq_false_iff_not] at h
    show m.index.toNat + bytes.length ≤ 0x150 ∨ 0x152 ≤ m.index.toNat
    omega

/-- Only a stored row changes the keypad, whether the tick succeeds or fails half-way. -/
theorem keypad_tick (h : m.storesOnKeypad = false) (noise : Byte) :
    (m.tick noise).value.bus.keypad = m.bus.keypad :=
  tick_induction (P := fun m' => m'.bus.keypad = m.bus.keypad) (keypad_step h noise)
    fun _ hkept => hkept

/-- Some tick among those with these random bytes stores on the keypad. -/
def meddles (m : Machine) : List Byte → Bool
  | [] => false
  | noise :: rest => m.storesOnKeypad || (m.tick noise).value.meddles rest

theorem meddles_cons_eq_false_iff {noise : Byte} {rest : List Byte} :
    m.meddles (noise :: rest) = false ↔
      m.storesOnKeypad = false ∧ (m.tick noise).value.meddles rest = false := by
  rw [meddles, Bool.or_eq_false_iff]

end Machine

/-- One tick of one machine of an arcade. -/
structure Turn where
  /-- The place of the machine. -/
  place : Nat
  /-- The random byte. -/
  noise : Byte
deriving Repr, DecidableEq

/-- The turns in an order of places; `noise i k` is the random byte of tick `k` of machine `i`. -/
def deal (noise : Nat → Nat → Byte) : List Nat → List Turn
  | [] => []
  | i :: rest =>
    ⟨i, noise i 0⟩ :: deal (fun j k => if j = i then noise j (k + 1) else noise j k) rest

/-- The random bytes of the ticks of machine `i`. -/
def ownNoise (i : Nat) (turns : List Turn) : List Byte :=
  turns.filterMap fun t => if t.place = i then some t.noise else none

@[simp] theorem ownNoise_cons_self (t : Turn) (turns : List Turn) :
    ownNoise t.place (t :: turns) = t.noise :: ownNoise t.place turns := by
  simp [ownNoise]

@[simp] theorem ownNoise_cons_of_ne {i : Nat} {t : Turn} (h : i ≠ t.place) (turns : List Turn) :
    ownNoise i (t :: turns) = ownNoise i turns := by
  simp [ownNoise, h.symm]

/-- In whatever order, a machine that ticks as often gets the same random bytes. -/
theorem ownNoise_deal (noise : Nat → Nat → Byte) (i : Nat) (order : List Nat) :
    ownNoise i (deal noise order) = (List.range (order.count i)).map (noise i) := by
  induction order generalizing noise with
  | nil => rfl
  | cons j rest ih =>
    by_cases h : j = i
    · subst h
      rw [deal, ownNoise_cons_self ⟨j, noise j 0⟩, ih, List.count_cons_self,
        List.range_succ_eq_map, List.map_cons, List.map_map]
      simp [Function.comp_def]
    · rw [deal, ownNoise_cons_of_ne (Ne.symm h), ih, List.count_cons_of_ne h]
      simp [Ne.symm h]

namespace Arcade

variable {a : Arcade} {i : Nat} {m : Machine}

/-- The arcade after turns, one after the other, whatever faults they met. -/
def play (turns : List Turn) (a : Arcade) : Arcade :=
  turns.foldl (fun a t => (a.tick t.noise t.place).value) a

/-- What the ticks of machine `i` answer, in order. -/
def answers (i : Nat) (a : Arcade) : List Turn → List (Option Fault)
  | [] => []
  | t :: rest =>
    let o := a.tick t.noise t.place
    if t.place = i then o.fault :: o.value.answers i rest else o.value.answers i rest

/-- Some turn runs an instruction that stores on the keypad. -/
def meddles (a : Arcade) : List Turn → Bool
  | [] => false
  | t :: rest =>
    (a.machine? t.place).any Machine.storesOnKeypad || (a.tick t.noise t.place).value.meddles rest

/-! ## One turn -/

theorem keypad_of_machine? (h : a.machine? i = some m) : m.bus.keypad = a.keypad := by
  obtain ⟨m', -, rfl⟩ := Option.map_eq_some_iff.1 h
  rfl

theorem lt_of_machine? (h : a.machine? i = some m) : i < a.machines.length := by
  obtain ⟨m', hm', -⟩ := Option.map_eq_some_iff.1 h
  exact (List.getElem?_eq_some_iff.1 hm').1

theorem machine?_put_of_ne {j : Nat} (h : j ≠ i) (hkeypad : m.bus.keypad = a.keypad) :
    (a.put i m).machine? j = a.machine? j := by
  unfold machine? put
  rw [List.getElem?_set_ne h.symm, hkeypad]

theorem tick_of_machine? (h : a.machine? i = some m) (noise : Byte) :
    a.tick noise i = (m.tick noise).map fun ran => a.put i ran := by
  unfold tick
  rw [h]

theorem tick_of_none (h : a.machine? i = none) (noise : Byte) :
    a.tick noise i = .success a := by
  unfold tick
  rw [h]

/-- A turn that does not store on the keypad is a tick of its machine and nothing to the others. -/
theorem tick_quiet (hquiet : (a.machine? i).any Machine.storesOnKeypad = false) (noise : Byte) :
    (a.tick noise i).value.keypad = a.keypad ∧
      (∀ m, a.machine? i = some m → (a.tick noise i).fault = (m.tick noise).fault ∧
        (a.tick noise i).value.machine? i = some (m.tick noise).value) ∧
      ∀ j, j ≠ i → (a.tick noise i).value.machine? j = a.machine? j := by
  cases hm : a.machine? i with
  | none =>
    rw [tick_of_none hm]
    refine ⟨rfl, ?_, fun j _ => rfl⟩
    rintro m ⟨⟩
  | some m =>
    rw [hm, Option.any_some] at hquiet
    have hkeypad : (m.tick noise).value.bus.keypad = a.keypad :=
      (Machine.keypad_tick hquiet noise).trans (keypad_of_machine? hm)
    rw [tick_of_machine? hm]
    refine ⟨hkeypad, fun m' h => ?_, fun j hj => machine?_put_of_ne hj hkeypad⟩
    obtain rfl := Option.some.inj h
    exact ⟨rfl, machine?_put_self _ a (lt_of_machine? hm)⟩

/-! ## Many turns -/

/-- The induction on the turns: a turn of machine `i` is the first tick of what `i` does alone, and
a turn of another machine leaves `i` and the keypad as they are. -/
theorem play_quiet {turns : List Turn} (hquiet : a.meddles turns = false) :
    (a.play turns).keypad = a.keypad ∧
      ∀ i m, a.machine? i = some m →
        (a.play turns).machine? i = some (m.after ((ownNoise i turns).map .tick)) ∧
          a.answers i turns = m.tickFaults ((ownNoise i turns).map .tick) := by
  induction turns generalizing a with
  | nil => exact ⟨rfl, fun i m hm => ⟨hm, rfl⟩⟩
  | cons t rest ih =>
    obtain ⟨hfirst, hrest⟩ := Bool.or_eq_false_iff.1 hquiet
    obtain ⟨hkeypad, hself, hothers⟩ := tick_quiet hfirst t.noise
    obtain ⟨hkept, halone⟩ := ih hrest
    refine ⟨hkept.trans hkeypad, fun i m hm => ?_⟩
    rw [answers]
    by_cases hi : i = t.place
    · subst hi
      obtain ⟨hfault, hticked⟩ := hself m hm
      obtain ⟨hstate, hanswers⟩ := halone t.place _ hticked
      rw [ownNoise_cons_self, if_pos rfl]
      exact ⟨hstate, by rw [hanswers, hfault]; rfl⟩
    · obtain ⟨hstate, hanswers⟩ := halone i m ((hothers i hi).trans hm)
      rw [ownNoise_cons_of_ne hi, if_neg (Ne.symm hi)]
      exact ⟨hstate, hanswers⟩

/-- No turn stores on the keypad just if no machine does when it ticks alone. -/
theorem meddles_eq_false_iff {turns : List Turn} :
    a.meddles turns = false ↔
      ∀ i m, a.machine? i = some m → m.meddles (ownNoise i turns) = false := by
  induction turns generalizing a with
  | nil => exact ⟨fun _ _ _ _ => rfl, fun _ => rfl⟩
  | cons t rest ih =>
    rw [meddles, Bool.or_eq_false_iff, ih]
    constructor
    · rintro ⟨hfirst, hrest⟩ i m hm
      obtain ⟨-, hself, hothers⟩ := tick_quiet hfirst t.noise
      by_cases hi : i = t.place
      · subst hi
        rw [hm, Option.any_some] at hfirst
        rw [ownNoise_cons_self, Machine.meddles_cons_eq_false_iff]
        exact ⟨hfirst, hrest _ _ (hself m hm).2⟩
      · rw [ownNoise_cons_of_ne hi]
        exact hrest i m ((hothers i hi).trans hm)
    · intro h
      have hown : ∀ m, a.machine? t.place = some m → m.storesOnKeypad = false ∧
          (m.tick t.noise).value.meddles (ownNoise t.place rest) = false := by
        intro m hm
        rw [← Machine.meddles_cons_eq_false_iff, ← ownNoise_cons_self]
        exact h _ m hm
      cases hm : a.machine? t.place with
      | none =>
        rw [tick_of_none hm]
        refine ⟨rfl, fun i m hm' => ?_⟩
        have hi : i ≠ t.place := by
          rintro rfl
          cases hm.symm.trans hm'
        have halone := h i m hm'
        rwa [ownNoise_cons_of_ne hi] at halone
      | some ticking =>
        have hfirst : (a.machine? t.place).any Machine.storesOnKeypad = false := by
          rw [hm]
          exact (hown ticking hm).1
        obtain ⟨-, hself, hothers⟩ := tick_quiet hfirst t.noise
        refine ⟨hm ▸ hfirst, fun i m hm' => ?_⟩
        by_cases hi : i = t.place
        · subst hi
          rw [(hself ticking hm).2] at hm'
          exact Option.some.inj hm' ▸ (hown ticking hm).2
        · have halone := h i m ((hothers i hi).symm.trans hm')
          rwa [ownNoise_cons_of_ne hi] at halone

/-- **Machines on one keypad do not influence each other.**  The machines of an arcade tick in some
order, without key events, and no instruction that runs stores a row of bytes that meets the
keypad's.  Then the keypad keeps its contents, and every machine ends as it ends, and answers what
it answers, when it runs as many ticks alone with that keypad.  So every other order in which the
machines tick as often leads to the same. -/
theorem turns_do_not_interfere (noise : Nat → Nat → Byte) (a : Arcade) (order : List Nat)
    (hquiet : a.meddles (deal noise order) = false) :
    (a.play (deal noise order)).keypad = a.keypad ∧
      (∀ i m, a.machine? i = some m →
        let ticks := (List.range (order.count i)).map fun k => Operation.tick (noise i k)
        (a.play (deal noise order)).machine? i = some (m.after ticks) ∧
          a.answers i (deal noise order) = m.tickFaults ticks) ∧
      ∀ order' : List Nat, (∀ i, order'.count i = order.count i) →
        (a.play (deal noise order')).keypad = a.keypad ∧
          ∀ i m, a.machine? i = some m →
            (a.play (deal noise order')).machine? i = (a.play (deal noise order)).machine? i ∧
              a.answers i (deal noise order') = a.answers i (deal noise order) := by
  obtain ⟨hkeypad, halone⟩ := play_quiet hquiet
  refine ⟨hkeypad, fun i m hm => ?_, fun order' hcount => ?_⟩
  · have hticks : (ownNoise i (deal noise order)).map Operation.tick =
        (List.range (order.count i)).map fun k => Operation.tick (noise i k) := by
      rw [ownNoise_deal, List.map_map]
      rfl
    rw [← hticks]
    exact halone i m hm
  · have hown : ∀ i, ownNoise i (deal noise order') = ownNoise i (deal noise order) := by
      intro i
      rw [ownNoise_deal, ownNoise_deal, hcount i]
    have hquiet' : a.meddles (deal noise order') = false := by
      refine meddles_eq_false_iff.2 fun i m hm => ?_
      rw [hown i]
      exact meddles_eq_false_iff.1 hquiet i m hm
    obtain ⟨hkeypad', halone'⟩ := play_quiet hquiet'
    refine ⟨hkeypad', fun i m hm => ?_⟩
    obtain ⟨hstate, hanswers⟩ := halone i m hm
    obtain ⟨hstate', hanswers'⟩ := halone' i m hm
    rw [hown i] at hstate' hanswers'
    exact ⟨hstate'.trans hstate.symm, hanswers'.trans hanswers.symm⟩

/-- One machine stores two registers right behind the keypad and then fails; the other one takes the
key that is down. -/
theorem turns_do_not_interfere_behind_keypad :
    let blank : Bus := ⟨.blank 4096, .dark, .idle⟩
    let storing := Machine.new.withBus (blank.store 0x200 [0xA1, 0x52, 0xF1, 0x55]).value
    let taking := Machine.new.withBus (blank.store 0x200 [0xF3, 0x0A, 0xC4, 0xFF]).value
    let a : Arcade := ⟨⟨0xFF, 7⟩, [storing, taking]⟩
    let turns := deal (fun i k => BitVec.ofNat 8 (16 * i + k)) [0, 1, 1, 0, 0]
    let turns' := deal (fun i k => BitVec.ofNat 8 (16 * i + k)) [1, 0, 0, 1, 0]
    a.meddles turns = false ∧
      a.answers 0 turns = [none, none, some (.unknownInstruction 0)] ∧
      (a.play turns).keypad = ⟨0xFF, 7⟩ ∧
      ∀ i m, a.machine? i = some m →
        (a.play turns').machine? i = (a.play turns).machine? i ∧
          a.answers i turns' = a.answers i turns := by
  intro blank storing taking a turns turns'
  have hquiet : a.meddles turns = false := by decide +kernel
  have hcount : ∀ i, [1, 0, 0, 1, 0].count i = [0, 1, 1, 0, 0].count i :=
    fun i => List.Perm.count_eq (by decide) i
  obtain ⟨hkeypad, -, hagree⟩ := turns_do_not_interfere _ a [0, 1, 1, 0, 0] hquiet
  exact ⟨hquiet, by decide +kernel, hkeypad, (hagree [1, 0, 0, 1, 0] hcount).2⟩

end Arcade

end ChipEight
