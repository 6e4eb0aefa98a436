import ChipEight.Scheduler.Basic

/-!
# The keyboard

Sixteen keys of the keyboard stand for the keys of the keypad.  A console may tell only when a key
is pressed and not when it is let go, so a key counts as let go once it was not pressed again for
`holdTime`.  `Keyboard.poll` takes in one keyboard event at most and says what it means to the
machine; Escape and Ctrl-C request a stop, after which the keyboard is no longer looked at.
-/

namespace ChipEight

/-- A key of the keyboard. -/
inductive KeyCode where
  /-- A key with a character. -/
  | char (c : Char)
  /-- The Escape key. -/
  | escape
  /-- Any other key. -/
  | other
deriving Repr, DecidableEq

/-- What happened to a key of the keyboard. -/
inductive KeyMotion where
  | press | again | release
deriving Repr, DecidableEq

/-- Something that happened on the keyboard. -/
structure KeyEvent where
  /-- The key. -/
  code : KeyCode
  /-- Whether the Ctrl key was down. -/
  control : Bool
  /-- What happened to the key. -/
  motion : KeyMotion
deriving Repr, DecidableEq

namespace KeyEvent

/-- Whether the event asks to end the program. -/
def quits (e : KeyEvent) : Bool :=
  e.code == .escape || (e.code == .char 'c' && e.control)

/-- The event that a typed character stands for.  The control characters are typed with the Ctrl
key; a few of them are keys of their own. -/
def ofTyped (c : Char) : KeyEvent :=
  let n := c.toNat
  if n = 0x1B then ⟨.escape, false, .press⟩
  else if n = 0x09 ∨ n = 0x0D ∨ n = 0x7F then ⟨.other, false, .press⟩
  else if n = 0 then ⟨.char ' ', true, .press⟩
  else if n ≤ 0x1A then ⟨.char (Char.ofNat (n - 1 + 'a'.toNat)), true, .press⟩
  else if n ≤ 0x1F then ⟨.char (Char.ofNat (n - 0x1C + '4'.toNat)), true, .press⟩
  else ⟨.char c, false, .press⟩

end KeyEvent

/-- The characters of the keypad's keys, from key 0 to key F. -/
def keyLayout : List Char :=
  ['x', '1', '2', '3', 'q', 'w', 'e', 'a', 's', 'd', 'z', 'c', '4', 'r', 'f', 'v']

/-- The key of the keypad that a character stands for. -/
def keyOfChar? (c : Char) : Option Nibble := (keyLayout.idxOf? c).bind Nibble.ofNat?

/-- The key of the keypad that a key of the keyboard stands for. -/
def KeyCode.key? : KeyCode → Option Nibble
  | char c => keyOfChar? c
  | escape => none
  | other => none

/-- The keyboard as the program sees it. -/
structure Keyboard where
  /-- When the key that counts as pressed was last pressed, in nanoseconds. -/
  pressedAt : Option Nat
  /-- Whether the end of the program was requested. -/
  closed : Bool
deriving Repr, DecidableEq

namespace Keyboard

/-- The time after which a key counts as let go, in nanoseconds: a tenth of a second. -/
def holdTime : Nat := 100_000_000

/-- A keyboard on which nothing was pressed. -/
def idle : Keyboard := ⟨none, false⟩

/-- Lets a key go that was pressed too long ago. -/
def expire (now : Nat) (k : Keyboard) : Keyboard × List Arrival :=
  match k.pressedAt with
  | some time =>
    if holdTime < now - time then ({ k with pressedAt := none }, [.release]) else (k, [])
  | none => (k, [])

/-- Takes in an event. -/
def heed (now : Nat) (e : KeyEvent) (k : Keyboard) : Keyboard × List Arrival :=
  if e.quits then ({ k with closed := true }, [.stop])
  else
    match e.code.key?, e.motion with
    | none, _ => (k, [])
    | some key, .press => ({ k with pressedAt := some now }, [.press key])
    | some key, .again => ({ k with pressedAt := some now }, [.press key])
    | some _, .release => ({ k with pressedAt := none }, [.release])

/-- Looks at the keyboard once: lets a key go that was pressed too long ago, then takes in the event
if there is one. -/
def poll (now : Nat) (event : Option KeyEvent) (k : Keyboard) : Keyboard × List Arrival :=
  if k.closed then (k, [])
  else
    let kept := k.expire now
    match event with
    | none => kept
    | some e =>
      let after := kept.1.heed now e
      (after.1, kept.2 ++ after.2)

/-- Looks at the keyboard once for every event and once more. -/
def pollAll (now : Nat) : List KeyEvent → Keyboard → Keyboard × List Arrival
  | [], k => k.poll now none
  | e :: rest, k =>
    let first := k.poll now (some e)
    let others := pollAll now rest first.1
    (others.1, first.2 ++ others.2)

end Keyboard

/-- Every key of the keypad has a character of its own. -/
theorem keyOfChar?_keyLayout (key : Nibble) :
    (keyLayout[key.toNat]?).bind keyOfChar? = some key := by
  revert key
  decide

end ChipEight
