import ChipEight.Arcade
import ChipEight.Proofs.Bus.Rows
import ChipEight.Proofs.Machine.Operation

/-!
# The keypad under many hands

The two bytes of a keypad can be kept in one word, the flag above the key, which every writer
changes by masks (`Latch`).  Handles of the keypad and the machines that share it reach it in any
order, one `Touch` at a time.

1. Every touch changes the word as its masks do and takes each byte from its operand or from the
   keypad before it (`keypad_act`).
2. So the key is that of the latest press or write, the flag that of the latest press, release or
   write, and everybody sees both (`everybody_sees_latest`).
-/

namespace ChipEight

/-! ## The word -/

/-- The two bytes of a keypad in one word, the flag above the key. -/
abbrev Latch := Word

namespace Latch

def flag (w : Latch) : Byte := (w >>> 8).setWidth 8

def key (w : Latch) : Byte := w.setWidth 8

/-- Replaces both bytes at once. -/
def press (key : Nibble) (_ : Latch) : Latch := Keypad.down.setWidth 16 <<< 8 ||| key.setWidth 16

/-- Masks the flag away. -/
def release (w : Latch) : Latch := w &&& 0x00FF

def putFlag (byte : Byte) (w : Latch) : Latch := byte.setWidth 16 <<< 8 ||| (w &&& 0x00FF)

def putKey (byte : Byte) (w : Latch) : Latch := (w &&& 0xFF00) ||| byte.setWidth 16

theorem getLsbD_lowMask : ∀ i < 16, (0x00FF : Word).getLsbD i = decide (i < 8) := by decide

theorem getLsbD_highMask : ∀ i < 16, (0xFF00 : Word).getLsbD i = decide (8 ≤ i) := by decide

end Latch

namespace Word

variable (high low byte : Byte)

theorem flag_ofBytes : Latch.flag (ofBytes high low) = high := by
  apply BitVec.eq_of_getLsbD_eq
  intro i hi
  simp only [Latch.flag, ofBytes, BitVec.getLsbD_setWidth, BitVec.getLsbD_ushiftRight,
    BitVec.getLsbD_append]
  simp [hi]

theorem key_ofBytes : Latch.key (ofBytes high low) = low := by
  apply BitVec.eq_of_getLsbD_eq
  intro i hi
  simp only [Latch.key, ofBytes, BitVec.getLsbD_setWidth, BitVec.getLsbD_append]
  simp [hi]

theorem putFlag_ofBytes : Latch.putFlag byte (ofBytes high low) = ofBytes byte low := by
  apply BitVec.eq_of_getLsbD_eq
  intro i hi
  simp only [Latch.putFlag, ofBytes, BitVec.getLsbD_or, BitVec.getLsbD_and,
    BitVec.getLsbD_shiftLeft, BitVec.getLsbD_setWidth, BitVec.getLsbD_append,
    Latch.getLsbD_lowMask i hi]
  rcases Nat.lt_or_ge i 8 with h | h
  · simp [h]
  · simp [hi, Nat.not_lt.2 h, show i - 8 < 16 by omega]

theorem putKey_ofBytes : Latch.putKey byte (ofBytes high low) = ofBytes high byte := by
  apply BitVec.eq_of_getLsbD_eq
  intro i hi
  simp only [Latch.putKey, ofBytes, BitVec.getLsbD_or, BitVec.getLsbD_and,
    BitVec.getLsbD_setWidth, BitVec.getLsbD_append, Latch.getLsbD_highMask i hi]
  rcases Nat.lt_or_ge i 8 with h | h
  · simp [h, hi, Nat.not_le.2 h]
  · simp [h, hi, Nat.not_lt.2 h]

theorem release_ofBytes : Latch.release (ofBytes high low) = ofBytes 0 low := by
  rw [← putFlag_ofBytes high low 0]
  exact (BitVec.zero_or).symm

end Word

namespace Keypad

/-- The keypad as one word. -/
def latch (k : Keypad) : Latch := Word.ofBytes k.flag k.key

theorem latch_press (key : Nibble) (k : Keypad) :
    (k.press key).latch = Latch.press key k.latch := by
  have hall : ∀ key : Nibble, Word.ofBytes down (key.setWidth 8) =
      down.setWidth 16 <<< 8 ||| key.setWidth 16 := by decide
  exact hall key

end Keypad

namespace Machine

/-- A write reaches the keypad at its two addresses only, and there only the byte it names. -/
theorem keypad_respond_write (address : Word) (byte : Byte) (m : Machine) :
    (m.respond (.write address byte)).value.bus.keypad =
      ⟨if address = 0x150 then byte else m.bus.keypad.flag,
        if address = 0x151 then byte else m.bus.keypad.key⟩ := by
  by_cases hflag : address = 0x150
  · subst hflag; rfl
  by_cases hkey : address = 0x151
  · subst hkey; rfl
  rw [if_neg hflag, if_neg hkey]
  unfold Machine.respond
  by_cases hin : address.toNat < 4096
  · have hne : address.toNat ≠ 0x150 ∧ address.toNat ≠ 0x151 :=
      ⟨fun e => hflag (BitVec.eq_of_toNat_eq e), fun e => hkey (BitVec.eq_of_toNat_eq e)⟩
    simp only [Bus.write_eq_ok address byte m.bus hin]
    exact Bus.keypad_setCell_of_not_mem byte m.bus (by simp only; omega)
  · simp only [Bus.write_eq_error address byte m.bus hin]
    rfl

end Machine

/-! ## Touches -/

/-- Through what a keypad is reached: a handle of it, or one of the `n` machines that share it. -/
inductive Hand (n : Nat) where
  | handle
  | machine (i : Fin n)
deriving Repr, DecidableEq

/-- One access to a shared keypad. -/
inductive Touch (n : Nat) where
  | press (hand : Hand n) (key : Nibble)
  | release (hand : Hand n)
  | write (i : Fin n) (address : Word) (byte : Byte)
deriving Repr, DecidableEq

namespace Touch

variable {n : Nat}

/-- The flag that the touch puts on the keypad. -/
def flag? : Touch n → Option Byte
  | press .. => some 0xFF
  | release _ => some 0
  | write _ address byte => if address = 0x150 then some byte else none

/-- The key that the touch puts on the keypad. -/
def key? : Touch n → Option Byte
  | press _ key => some (key.setWidth 8)
  | release _ => none
  | write _ address byte => if address = 0x151 then some byte else none

/-- What the touch does to the word. -/
def onLatch : Touch n → Latch → Latch
  | press _ key => Latch.press key
  | release _ => Latch.release
  | write _ address byte =>
    if address = 0x150 then Latch.putFlag byte
    else if address = 0x151 then Latch.putKey byte
    else id

/-- What the latest touch that puts anything there puts there. -/
def latest (put? : Touch n → Option Byte) (touches : List (Touch n)) : Option Byte :=
  (touches.filterMap put?).getLast?

theorem latest_cons (put? : Touch n → Option Byte) (t : Touch n) (rest : List (Touch n)) :
    latest put? (t :: rest) = (latest put? rest).or (put? t) := by
  unfold latest
  cases h : put? t with
  | none => rw [List.filterMap_cons_none h, Option.or_none]
  | some byte =>
    rw [List.filterMap_cons_some h, List.getLast?_cons]
    cases (rest.filterMap put?).getLast? <;> rfl

/-- Nothing is put there after the latest touch that puts anything there. -/
theorem exists_of_latest {put? : Touch n → Option Byte} {touches : List (Touch n)} {byte : Byte}
    (h : latest put? touches = some byte) :
    ∃ before t after, touches = before ++ t :: after ∧ put? t = some byte ∧
      ∀ t' ∈ after, put? t' = none := by
  obtain ⟨bytes, hbytes⟩ := List.getLast?_eq_some_iff.1 h
  obtain ⟨before, rest, rfl, -, hrest⟩ := List.filterMap_eq_append_iff.1 hbytes
  obtain ⟨quiet, t, after, rfl, -, ht, hafter⟩ := List.filterMap_eq_cons_iff.1 hrest
  refine ⟨before ++ quiet, t, after, by simp, ht, ?_⟩
  exact List.filterMap_eq_nil_iff.1 hafter

theorem latest_append_cons {put? : Touch n → Option Byte} {before after : List (Touch n)}
    {t : Touch n} {byte : Byte} (ht : put? t = some byte) (hafter : ∀ t' ∈ after, put? t' = none) :
    latest put? (before ++ t :: after) = some byte := by
  unfold latest
  rw [List.filterMap_append, List.filterMap_cons_some ht, List.filterMap_eq_nil_iff.2 hafter,
    List.getLast?_concat]

/-- The touch is a write of a machine to one of the two bytes. -/
def WritesKeypad : Touch n → Prop
  | press .. => False
  | release _ => False
  | write _ address _ => address = 0x150 ∨ address = 0x151

/-- Unless a machine writes to the keypad, the flag tells whether the latest event was a press. -/
theorem flag_of_not_writes {touches : List (Touch n)} (hquiet : ∀ t ∈ touches, ¬ t.WritesKeypad) :
    (latest flag? touches).getD 0 = 0 ∨
      (latest flag? touches).getD 0 = 0xFF ∧
        ∃ before hand k after, touches = before ++ .press hand k :: after ∧
          (∀ t ∈ after, t.flag? = none) ∧ latest key? touches = some (k.setWidth 8) := by
  cases h : latest flag? touches with
  | none => exact Or.inl rfl
  | some byte =>
    obtain ⟨before, t, after, rfl, ht, hafter⟩ := exists_of_latest h
    cases t with
    | press hand k =>
      have hkey : ∀ t' ∈ after, t'.key? = none := by
        intro t' ht'
        cases t' with
        | press hand' k' => cases hafter _ ht'
        | release hand' => rfl
        | write i address byte' =>
          have hwrites := hquiet (.write i address byte') (by simp [ht'])
          exact if_neg fun e => hwrites (Or.inr e)
      exact Or.inr ⟨(Option.some.inj ht).symm, before, hand, k, after, rfl, hafter,
        latest_append_cons rfl hkey⟩
    | release hand => exact Or.inl (Option.some.inj ht).symm
    | write i address byte' =>
      have hwrites := hquiet (.write i address byte') (by simp)
      rw [flag?, if_neg fun e => hwrites (Or.inl e)] at ht
      cases ht

end Touch

namespace Arcade

variable {n : Nat}

/-- Machine `i` does something with the shared keypad plugged in. -/
def operate (i : Nat) (change : Machine → Machine) (a : Arcade) : Arcade :=
  match a.machine? i with
  | some m => a.put i (change m)
  | none => a

def touch (a : Arcade) : Touch n → Arcade
  | .press .handle key => a.press key
  | .press (.machine i) key => a.operate i (Machine.press key)
  | .release .handle => a.release
  | .release (.machine i) => a.operate i Machine.release
  | .write i address byte => a.operate i fun m => (m.respond (.write address byte)).value

/-- The arcade after touches, one after the other. -/
def touchAll (a : Arcade) (touches : List (Touch n)) : Arcade := touches.foldl touch a

theorem exists_machine (a : Arcade) {i : Nat} (h : i < a.machines.length) :
    ∃ m, a.machine? i = some m ∧ m.bus.keypad = a.keypad := by
  refine ⟨Machine.plug a.keypad a.machines[i], ?_, rfl⟩
  rw [machine?, List.getElem?_eq_getElem h]
  rfl

theorem keypad_operate {a : Arcade} {i : Nat} (h : i < a.machines.length)
    {change : Machine → Machine} {f : Keypad → Keypad}
    (hchange : ∀ m : Machine, (change m).bus.keypad = f m.bus.keypad) :
    (a.operate i change).keypad = f a.keypad := by
  obtain ⟨m, hm, hkeypad⟩ := a.exists_machine h
  rw [operate, hm, ← hkeypad]
  exact hchange m

theorem length_operate (a : Arcade) (i : Nat) (change : Machine → Machine) :
    (a.operate i change).machines.length = a.machines.length := by
  unfold operate
  split
  · exact List.length_set
  · rfl

theorem length_touch (a : Arcade) (t : Touch n) :
    (a.touch t).machines.length = a.machines.length := by
  cases t with
  | press hand key =>
    cases hand with
    | handle => rfl
    | machine i => exact a.length_operate i _
  | release hand =>
    cases hand with
    | handle => rfl
    | machine i => exact a.length_operate i _
  | write i address byte => exact a.length_operate i _

/-- A touch puts its own bytes on the keypad and keeps the others. -/
theorem keypad_touch {a : Arcade} (h : a.machines.length = n) (t : Touch n) :
    (a.touch t).keypad = ⟨t.flag?.getD a.keypad.flag, t.key?.getD a.keypad.key⟩ := by
  cases t with
  | press hand key =>
    cases hand with
    | handle => rfl
    | machine i => exact keypad_operate (h ▸ i.isLt) (f := Keypad.press key) fun _ => rfl
  | release hand =>
    cases hand with
    | handle => rfl
    | machine i => exact keypad_operate (h ▸ i.isLt) (f := Keypad.release) fun _ => rfl
  | write i address byte =>
    refine (keypad_operate (h ▸ i.isLt) (f := fun k => ⟨if address = 0x150 then byte else k.flag,
      if address = 0x151 then byte else k.key⟩)
        (Machine.keypad_respond_write address byte)).trans ?_
    rw [Touch.flag?, Touch.key?, apply_ite (Option.getD · a.keypad.flag),
      apply_ite (Option.getD · a.keypad.key)]
    rfl

theorem latch_touch {a : Arcade} (h : a.machines.length = n) (t : Touch n) :
    (a.touch t).keypad.latch = t.onLatch a.keypad.latch := by
  rw [keypad_touch h t]
  cases t with
  | press hand key => exact Keypad.latch_press key a.keypad
  | release hand => exact (Word.release_ofBytes a.keypad.flag a.keypad.key).symm
  | write i address byte =>
    unfold Touch.onLatch
    by_cases hflag : address = 0x150
    · subst hflag
      exact (Word.putFlag_ofBytes a.keypad.flag a.keypad.key byte).symm
    by_cases hkey : address = 0x151
    · subst hkey
      exact (Word.putKey_ofBytes a.keypad.flag a.keypad.key byte).symm
    simp only [Touch.flag?, Touch.key?, if_neg hflag, if_neg hkey, Option.getD_none]
    rfl

/-- Each byte of the keypad comes from the latest touch that puts one there. -/
theorem keypad_touchAll {a : Arcade} (h : a.machines.length = n) (touches : List (Touch n)) :
    (a.touchAll touches).machines.length = n ∧
      (a.touchAll touches).keypad =
        ⟨(Touch.latest Touch.flag? touches).getD a.keypad.flag,
          (Touch.latest Touch.key? touches).getD a.keypad.key⟩ ∧
      touches.foldl (fun w t => t.onLatch w) a.keypad.latch =
        (a.touchAll touches).keypad.latch := by
  induction touches generalizing a with
  | nil => exact ⟨h, rfl, rfl⟩
  | cons t rest ih =>
    obtain ⟨hlength, hkeypad, hlatch⟩ := ih ((a.length_touch t).trans h)
    refine ⟨hlength, hkeypad.trans ?_, ?_⟩
    · rw [keypad_touch h t, Touch.latest_cons, Touch.latest_cons, Option.getD_or, Option.getD_or]
    · rw [List.foldl_cons, ← latch_touch h t]
      exact hlatch

/-- **A keypad with many writers.**  Whatever was done to a new keypad through its handles and
through the machines that share it, one touch after the other: its word is what the masks of the
touches make of zero, the key is that of the latest press or write and the flag that of the latest
press, release or write, and every handle and every machine sees these two bytes.  If no machine
wrote to the keypad, the flag is one of two, and a key that is down is the one pressed last. -/
theorem everybody_sees_latest (machines : Vector Machine n) (touches : List (Touch n)) :
    let a := (Arcade.mk .idle machines.toList).touchAll touches
    let w := touches.foldl (fun w t => t.onLatch w) (0 : Latch)
    let flag := (Touch.latest Touch.flag? touches).getD 0
    let key := (Touch.latest Touch.key? touches).getD 0
    (Latch.flag w = flag ∧ Latch.key w = key) ∧
      (a.keypad.flag = flag ∧ a.keypad.key = key) ∧
      (∀ i : Fin n, ∃ m, a.machine? i = some m ∧ m.bus.keypad = a.keypad ∧
        m.bus.read 0x150 = .ok flag ∧ m.bus.read 0x151 = .ok key) ∧
      (∀ v, a.keypad.pressed? = some v ↔ flag = 0xFF ∧ key = v) ∧
      (a.keypad.isPressed = true ↔ flag = 0xFF) ∧
      (∀ v, a.keypad.holds v = true ↔ flag = 0xFF ∧ key = v) ∧
      ((∀ t ∈ touches, ¬ t.WritesKeypad) →
        (flag = 0 ∨ flag = 0xFF) ∧
          ∀ v, a.keypad.pressed? = some v →
            ∃ before hand k after, touches = before ++ .press hand k :: after ∧
              (∀ t ∈ after, (∀ hand k, t ≠ .press hand k) ∧ ∀ hand, t ≠ .release hand) ∧
              v.toNat = k.toNat ∧ v.toNat ≤ 0xF) := by
  intro a w flag key
  obtain ⟨hlength, hkeypad, hlatch⟩ :
      a.machines.length = n ∧ a.keypad = ⟨flag, key⟩ ∧
        touches.foldl (fun w t => t.onLatch w) Keypad.idle.latch = a.keypad.latch :=
    keypad_touchAll (a := Arcade.mk .idle machines.toList) machines.length_toList touches
  have hword : w = Word.ofBytes flag key := by
    have hzero : Keypad.idle.latch = 0 := by decide
    rw [hkeypad, hzero] at hlatch
    exact hlatch
  have hpressed : ∀ v, a.keypad.pressed? = some v ↔ flag = 0xFF ∧ key = v := by
    intro v
    rw [Keypad.pressed?_eq_some_iff, hkeypad]
    rfl
  refine ⟨?_, ?_, fun i => ?_, hpressed, ?_, fun v => ?_, fun hquiet => ?_⟩
  · rw [hword]
    exact ⟨Word.flag_ofBytes flag key, Word.key_ofBytes flag key⟩
  · rw [hkeypad]
    exact ⟨rfl, rfl⟩
  · have hi : i.val < a.machines.length := hlength.symm ▸ i.isLt
    obtain ⟨m, hm, hsame⟩ := a.exists_machine hi
    have hbytes : m.bus.keypad = ⟨flag, key⟩ := hsame.trans hkeypad
    refine ⟨m, hm, hsame, ?_, ?_⟩
    · show Except.ok m.bus.keypad.flag = _
      rw [hbytes]
    · show Except.ok m.bus.keypad.key = _
      rw [hbytes]
  · rw [Keypad.isPressed, hkeypad, beq_iff_eq]
    rfl
  · rw [Keypad.holds, beq_iff_eq]
    exact hpressed v
  · have hflag : flag = 0 ∨ flag = 0xFF ∧ ∃ before hand k after,
        touches = before ++ .press hand k :: after ∧ (∀ t ∈ after, t.flag? = none) ∧
          Touch.latest Touch.key? touches = some (k.setWidth 8) := Touch.flag_of_not_writes hquiet
    refine ⟨hflag.imp_right And.left, fun v hv => ?_⟩
    obtain ⟨hdown, hkey⟩ := (hpressed v).1 hv
    rcases hflag with hup | ⟨-, before, hand, k, after, htouches, hafter, hlatest⟩
    · exact absurd (hup.symm.trans hdown) (by decide)
    · have hk := k.isLt
      have hnat : v.toNat = k.toNat := by
        rw [← hkey, show key = k.setWidth 8 from congrArg (Option.getD · 0) hlatest,
          BitVec.toNat_setWidth]
        omega
      refine ⟨before, hand, k, after, htouches, fun t ht => ⟨?_, ?_⟩, hnat, by omega⟩
      · rintro hand' k' rfl
        cases hafter _ ht
      · rintro hand' rfl
        cases hafter _ ht

end Arcade

end ChipEight
