import ChipEight.Proofs.Flat.Memory
import ChipEight.Proofs.Machine.Operation

/-!
# A machine over a flat memory

A `FlatMachine` runs the same instructions as a machine, but over a flat memory: it has no picture
and no keypad apart from the cells at their addresses, and nothing waits to be shown.
-/

namespace ChipEight

/-- A machine whose picture and keypad are plain cells. -/
structure FlatMachine where
  memory : FlatMemory
  registers : Bank 16
  pc : Word
  index : Word
  stack : List Word
  delay : Byte
  sound : Byte
deriving Repr, DecidableEq

namespace FlatMachine

/-! ## Registers -/

def reg (m : FlatMachine) (x : Nibble) : Byte := m.registers.byteAt x.toFin

def setReg (x : Nibble) (byte : Byte) (m : FlatMachine) : FlatMachine :=
  { m with registers := m.registers.put x.toFin byte }

def setFlag (flag : Bool) (m : FlatMachine) : FlatMachine :=
  m.setReg Machine.flagRegister (if flag then 1 else 0)

def firstRegs (x : Nibble) (m : FlatMachine) : List Byte := m.registers.toList.take (x.toNat + 1)

def setFirstRegs (bytes : List Byte) (m : FlatMachine) : FlatMachine :=
  { m with registers := m.registers.overlay 0 bytes.toArray }

def goTo (target : Word) (m : FlatMachine) : FlatMachine := { m with pc := target }

def pointTo (target : Word) (m : FlatMachine) : FlatMachine := { m with index := target }

def withMemory (v : FlatMemory) (m : FlatMachine) : FlatMachine := { m with memory := v }

/-! ## Instructions -/

/-- Whether the key with number `n` is down. -/
def holds (n : Byte) (m : FlatMachine) : Bool := m.memory.pressed? == some n

/-- Whether the test of a skip holds. -/
def holdsTest (t : Test) (m : FlatMachine) : Bool :=
  match t with
  | .equalsByte x n => m.reg x == n
  | .differsByte x n => m.reg x != n
  | .equals x y => m.reg x == m.reg y
  | .differs x y => m.reg x != m.reg y
  | .keyDown x => m.holds (m.reg x)
  | .keyUp x => !m.holds (m.reg x)

def combine (op : RegisterOp) (x y : Nibble) (m : FlatMachine) : FlatMachine :=
  let a := m.reg x
  let b := m.reg y
  let combined := m.setReg x (op.result a b)
  match op.flag? a b with
  | none => combined
  | some flag => combined.setFlag flag

def call (target : Address) (m : FlatMachine) : Outcome FlatMachine :=
  if m.stack.length < callDepthLimit then
    .success { m with stack := m.pc :: m.stack, pc := target.toWord }
  else
    .failure m (.stackOverflow callDepthLimit m.pc)

def ret (m : FlatMachine) : Outcome FlatMachine :=
  match m.stack with
  | caller :: older => .success { m with stack := older, pc := caller }
  | [] => .failure m .stackUnderflow

def skip (t : Test) (m : FlatMachine) : FlatMachine :=
  if m.holdsTest t then m.goTo (m.pc + 2) else m

def draw (x y height : Nibble) (m : FlatMachine) : Outcome FlatMachine :=
  match m.memory.draw (m.reg x) (m.reg y) m.index height.toNat with
  | .ok (v, erased) => .success ((m.withMemory v).setFlag erased)
  | .error f => .failure m f

def awaitKey (x : Nibble) (m : FlatMachine) : FlatMachine :=
  match m.memory.pressed? with
  | some key => m.setReg x key
  | none => m.goTo (m.pc - 2)

theorem awaitKey_of_some (x : Nibble) {m : FlatMachine} {key : Byte}
    (h : m.memory.pressed? = some key) : m.awaitKey x = m.setReg x key := by
  unfold awaitKey
  rw [h]

theorem awaitKey_of_none (x : Nibble) {m : FlatMachine} (h : m.memory.pressed? = none) :
    m.awaitKey x = m.goTo (m.pc - 2) := by
  unfold awaitKey
  rw [h]

def store (bytes : List Byte) (m : FlatMachine) : Outcome FlatMachine :=
  (m.memory.store m.index bytes).map m.withMemory

def loadRegisters (x : Nibble) (m : FlatMachine) : Outcome FlatMachine :=
  (m.memory.load m.index (x.toNat + 1)).map m.setFirstRegs

/-- Carries out an instruction. -/
def perform (noise : Byte) (i : Instruction) (m : FlatMachine) : Outcome FlatMachine :=
  match i with
  | .clear => .success (m.withMemory m.memory.clear)
  | .ret => m.ret
  | .jump target => .success (m.goTo target.toWord)
  | .jumpOffset base => .success (m.goTo (base.toWord + (m.reg 0).setWidth 16))
  | .call target => m.call target
  | .skip test => .success (m.skip test)
  | .load x n => .success (m.setReg x n)
  | .addByte x n => .success (m.setReg x (m.reg x + n))
  | .combine op x y => .success (m.combine op x y)
  | .point target => .success (m.pointTo target.toWord)
  | .advance x => .success (m.pointTo (m.index + (m.reg x).setWidth 16))
  | .random x mask => .success (m.setReg x (noise &&& mask))
  | .draw x y height => m.draw x y height
  | .awaitKey x => .success (m.awaitKey x)
  | .readDelay x => .success (m.setReg x m.delay)
  | .setDelay x => .success { m with delay := m.reg x }
  | .setSound x => .success { m with sound := m.reg x }
  | .pointGlyph x => .success (m.pointTo (Glyph.address (m.reg x)))
  | .storeDecimal x => m.store (m.reg x).decimalDigits
  | .storeRegisters x => m.store (m.firstRegs x)
  | .loadRegisters x => m.loadRegisters x

/-! ## Ticks and operations -/

def step (noise : Byte) (m : FlatMachine) : Outcome FlatMachine :=
  match m.memory.readWord m.pc with
  | .error f => .failure m f
  | .ok word =>
    let past := m.goTo (m.pc + 2)
    match Instruction.decode word with
    | .error f => .failure past f
    | .ok i => past.perform noise i

def lowerTimers (m : FlatMachine) : FlatMachine :=
  { m with delay := Machine.lowered m.delay, sound := Machine.lowered m.sound }

def tick (noise : Byte) (m : FlatMachine) : Outcome FlatMachine :=
  (m.step noise).andThen fun ran => .success ran.lowerTimers

def loadProgram (image : Array Byte) (m : FlatMachine) : Except Fault FlatMachine :=
  (m.memory.loadProgram image).map fun v =>
    { m with memory := v, pc := BitVec.ofNat 16 Bus.programStart }

/-- Carries out an operation; there is nothing to drain. -/
def respond (m : FlatMachine) : Operation → Response FlatMachine
  | .load image => .ofOutcome (.ofExcept m (m.loadProgram image))
  | .loadImage image =>
    .ofOutcome (.ofExcept m ((m.memory.loadProgram image).map fun v => m.withMemory v))
  | .loadGlyphs => .answer (m.withMemory m.memory.loadGlyphs) .done
  | .tick noise => .ofOutcome (m.tick noise)
  | .step noise => .ofOutcome (m.step noise)
  | .lowerTimers => .answer m.lowerTimers .done
  | .perform noise i => .ofOutcome (m.perform noise i)
  | .read address => .ofExcept m ((m.memory.read address).map Reply.byte)
  | .readWord address => .ofExcept m ((m.memory.readWord address).map Reply.word)
  | .write address byte =>
    .ofOutcome (.ofExcept m ((m.memory.write address byte).map fun v => m.withMemory v))
  | .setReg x byte => .answer (m.setReg x byte) .done
  | .pointTo target => .answer (m.pointTo target) .done
  | .goTo target => .answer (m.goTo target) .done
  | .press key => .answer (m.withMemory (m.memory.press key)) .done
  | .release => .answer (m.withMemory m.memory.release) .done
  | .clear => .answer (m.withMemory m.memory.clear) .done
  | .blit x y rows =>
    let drawn := m.memory.blit x y rows
    .answer (m.withMemory drawn.1) (.drawn drawn.2)
  | .draw x y address height =>
    match m.memory.drawLimited? x y address height with
    | .error f => .refusal m f
    | .ok none => .answer m .tooTall
    | .ok (some (v, erased)) => .answer (m.withMemory v) (.drawn erased)
  | .drain => .answer m .done

/-- The machine after operations, one after the other. -/
def after (m : FlatMachine) (ops : List Operation) : FlatMachine :=
  ops.foldl (fun m op => (m.respond op).value) m

end FlatMachine

end ChipEight
