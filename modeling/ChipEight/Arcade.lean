import ChipEight.Machine.Tick

/-!
# Machines on one keypad

An arcade is a row of machines that share a keypad: what one of them stores into the keypad's bytes
and every key event is seen by all.  `Arcade.machine?` is one of the machines with the shared keypad
plugged in, and `Arcade.put` takes a machine back after it has run.
-/

namespace ChipEight

/-- The machine with another keypad. -/
def Machine.plug (k : Keypad) (m : Machine) : Machine := m.withBus { m.bus with keypad := k }

/-- Machines that share a keypad.  The keypads inside the machines are not used. -/
structure Arcade where
  /-- The shared keypad. -/
  keypad : Keypad
  /-- The machines. -/
  machines : List Machine
deriving Repr, DecidableEq

namespace Arcade

/-- An arcade of `n` machines that have run nothing yet. -/
def new (n : Nat) : Arcade := ⟨.idle, List.replicate n .new⟩

/-- The machine in place `i`. -/
def machine? (a : Arcade) (i : Nat) : Option Machine := a.machines[i]?.map (Machine.plug a.keypad)

/-- Takes the machine in place `i` back, with what it did to the keypad. -/
def put (i : Nat) (m : Machine) (a : Arcade) : Arcade := ⟨m.bus.keypad, a.machines.set i m⟩

/-- One tick of the machine in place `i`. -/
def tick (noise : Byte) (i : Nat) (a : Arcade) : Outcome Arcade :=
  match a.machine? i with
  | some m => (m.tick noise).map fun ran => a.put i ran
  | none => .success a

/-- A key of the shared keypad goes down. -/
def press (key : Nibble) (a : Arcade) : Arcade := { a with keypad := a.keypad.press key }

/-- The key of the shared keypad goes up. -/
def release (a : Arcade) : Arcade := { a with keypad := a.keypad.release }

@[simp] theorem keypad_put (i : Nat) (m : Machine) (a : Arcade) :
    (a.put i m).keypad = m.bus.keypad := rfl

/-- The place that took a machine back shows it again. -/
theorem machine?_put_self {i : Nat} (m : Machine) (a : Arcade) (h : i < a.machines.length) :
    (a.put i m).machine? i = some m := by
  simp [machine?, put, h, Machine.plug, Machine.withBus]

end Arcade

end ChipEight
