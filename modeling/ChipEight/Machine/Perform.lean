import ChipEight.Machine.Arithmetic

/-!
# What instructions do

`Machine.perform` carries out one instruction.  The program counter already points past the
instruction when it is carried out: a skip adds to it, a call saves it, and waiting for a key takes
it back to the instruction.  Instructions on more than one memory cell go through ascending
addresses; if one of them is refused, storing and loading keep what came before it, whereas drawing
changes nothing.
-/

namespace ChipEight

/-- Whether the test of a skip holds. -/
def Test.holds (t : Test) (m : Machine) : Bool :=
  match t with
  | equalsByte x n => m.reg x == n
  | differsByte x n => m.reg x != n
  | equals x y => m.reg x == m.reg y
  | differs x y => m.reg x != m.reg y
  | keyDown x => m.bus.keypad.holds (m.reg x)
  | keyUp x => !m.bus.keypad.holds (m.reg x)

/-- The three decimal digits of a byte, hundreds first. -/
def Byte.decimalDigits (b : Byte) : List Byte := [b / 100, b / 10 % 10, b % 10]

namespace Machine

/-- Opens a call of the subroutine at `target`. -/
def call (target : Address) (m : Machine) : Outcome Machine :=
  if m.stack.length < callDepthLimit then
    .success { m with stack := m.pc :: m.stack, pc := target.toWord }
  else
    .failure m (.stackOverflow callDepthLimit m.pc)

/-- Closes the latest call. -/
def ret (m : Machine) : Outcome Machine :=
  match m.stack with
  | caller :: older => .success { m with stack := older, pc := caller }
  | [] => .failure m .stackUnderflow

/-- Passes over the next instruction if the test holds. -/
def skip (t : Test) (m : Machine) : Machine := if t.holds m then m.goTo (m.pc + 2) else m

/-- Draws the sprite of `height` rows at the index, its corner given by registers `x` and `y`. -/
def draw (x y height : Nibble) (m : Machine) : Outcome Machine :=
  match m.bus.draw (m.reg x) (m.reg y) m.index height.toNat with
  | .ok (bus, erased) => .success ((m.withBus bus).setFlag erased)
  | .error f => .failure m f

/-- Puts the key that is down into register `x`, or comes back to the same instruction. -/
def awaitKey (x : Nibble) (m : Machine) : Machine :=
  match m.bus.keypad.pressed? with
  | some key => m.setReg x key
  | none => m.goTo (m.pc - 2)

/-- Stores bytes at the index. -/
def store (bytes : List Byte) (m : Machine) : Outcome Machine :=
  (m.bus.store m.index bytes).toOutcome.map m.withBus

/-- Loads registers 0 to `x` from the index. -/
def loadRegisters (x : Nibble) (m : Machine) : Outcome Machine :=
  (m.bus.load m.index (x.toNat + 1)).map m.setFirstRegs

/-- Carries out an instruction; `noise` is the random byte, should the instruction ask for one. -/
def perform (noise : Byte) (i : Instruction) (m : Machine) : Outcome Machine :=
  match i with
  | .clear => .success (m.withBus m.bus.clear)
  | .ret => m.ret
  | .jump target => .success (m.goTo target.toWord)
  | .jumpOffset base => .success (m.goTo (base.toWord + (m.reg 0).setWidth 16))
  | .call target => m.call target
  | .skip test => .success (m.skip test)
  | .load x n => .success (m.setReg x n)
  | .addByte x n => .success (m.setReg x (m.reg x + n))
  | .combine op x y => .success (m.combine op x y)
  | .point target => .success (m.pointTo target.toWord)
  | .advance x => .success (m.pointTo (m.index + (m.reg x).setWidth 16))
  | .random x mask => .success (m.setReg x (noise &&& mask))
  | .draw x y height => m.draw x y height
  | .awaitKey x => .success (m.awaitKey x)
  | .readDelay x => .success (m.setReg x m.delay)
  | .setDelay x => .success { m with delay := m.reg x }
  | .setSound x => .success { m with sound := m.reg x }
  | .pointGlyph x => .success (m.pointTo (Glyph.address (m.reg x)))
  | .storeDecimal x => m.store (m.reg x).decimalDigits
  | .storeRegisters x => m.store (m.firstRegs x)
  | .loadRegisters x => m.loadRegisters x

end Machine

end ChipEight
