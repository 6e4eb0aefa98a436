import ChipEight.Bus

/-!
# The machine

A machine has sixteen byte registers, an index that points into memory, a program counter, a stack
of return addresses, a delay timer and a sound timer, and a bus with everything that has an
address.  Register F receives the flags of arithmetic and drawing.
-/

namespace ChipEight

/-- The state of a machine. -/
structure Machine where
  /-- Everything that has an address. -/
  bus : Bus
  /-- The sixteen registers. -/
  registers : Bank 16
  /-- The address of the next instruction. -/
  pc : Word
  /-- The address that instructions on memory work at. -/
  index : Word
  /-- The return addresses of the open calls, latest first. -/
  stack : List Word
  /-- Counts down to zero, one per tick. -/
  delay : Byte
  /-- Counts down to zero, one per tick; the machine beeps meanwhile. -/
  sound : Byte
deriving Repr, DecidableEq

namespace Machine

/-- A machine that has run nothing yet, with the given keypad. -/
def fresh (keypad : Keypad) : Machine where
  bus := .fresh keypad
  registers := .blank 16
  pc := BitVec.ofNat 16 Bus.programStart
  index := 0
  stack := []
  delay := 0
  sound := 0

/-- A machine that has run nothing yet, with a keypad of its own. -/
def new : Machine := fresh .idle

/-- The register that receives flags. -/
def flagRegister : Nibble := 0xF

/-- The contents of register `x`. -/
def reg (m : Machine) (x : Nibble) : Byte :=
  have : x.toNat < 16 := x.isLt
  m.registers[x.toNat]

/-- Puts a byte into register `x`. -/
def setReg (x : Nibble) (byte : Byte) (m : Machine) : Machine :=
  { m with registers := m.registers.set x.toNat byte x.isLt }

/-- Puts a flag into register F: one if it holds and else zero. -/
def setFlag (flag : Bool) (m : Machine) : Machine :=
  m.setReg flagRegister (if flag then 1 else 0)

/-- Registers 0 to `x`. -/
def firstRegs (x : Nibble) (m : Machine) : List Byte := m.registers.toList.take (x.toNat + 1)

/-- Puts bytes into the registers from register 0 on. -/
def setFirstRegs (bytes : List Byte) (m : Machine) : Machine :=
  { m with registers := m.registers.overlay 0 bytes.toArray }

/-- Goes on at an address. -/
def goTo (target : Word) (m : Machine) : Machine := { m with pc := target }

/-- Points the index at an address. -/
def pointTo (target : Word) (m : Machine) : Machine := { m with index := target }

/-- The same machine with another bus. -/
def withBus (b : Bus) (m : Machine) : Machine := { m with bus := b }

/-- Whether the machine beeps. -/
def beeps (m : Machine) : Bool := 0 < m.sound

/-- Loads a program and makes ready to run it.  A program that does not fit changes nothing. -/
def loadProgram (image : Array Byte) (m : Machine) : Except Fault Machine :=
  match m.bus.loadProgram image with
  | .ok bus => .ok { m with bus, pc := BitVec.ofNat 16 Bus.programStart }
  | .error f => .error f

/-- A key of the machine's keypad goes down. -/
def press (key : Nibble) (m : Machine) : Machine := m.withBus (m.bus.press key)

/-- The key of the machine's keypad goes up. -/
def release (m : Machine) : Machine := m.withBus m.bus.release

/-! ## Reading back -/

@[simp] theorem reg_setReg_self (x : Nibble) (byte : Byte) (m : Machine) :
    (m.setReg x byte).reg x = byte := by
  simp [reg, setReg]

theorem reg_setReg_of_ne {x z : Nibble} (byte : Byte) (m : Machine) (h : z ≠ x) :
    (m.setReg x byte).reg z = m.reg z := by
  have hne : x.toNat ≠ z.toNat := fun e => h (BitVec.eq_of_toNat_eq e.symm)
  simp [reg, setReg, hne]

theorem reg_setReg (x z : Nibble) (byte : Byte) (m : Machine) :
    (m.setReg x byte).reg z = if z = x then byte else m.reg z := by
  split
  · subst z; exact reg_setReg_self x byte m
  · rename_i h; exact reg_setReg_of_ne byte m h

end Machine

end ChipEight
