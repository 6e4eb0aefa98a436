import ChipEight.Proofs.Checked.Sprite
import ChipEight.Proofs.Machine.Frame

/-!
# The checked machine

A `Stored` machine keeps its return addresses in sixteen slots and counts those that are in use, and
it checks every index and every computation.  `Stored.machine` is the machine it stands for.  As
long as no more slots are in use than calls may be open, no instruction traps, and each does what it
does on the machine (`Stored.perform_eq`).
-/

namespace ChipEight

open Checked

/-- A machine with its stack in slots. -/
structure Stored where
  bus : Bus
  registers : Bank 16
  pc : Word
  index : Word
  slots : Vector Word 16
  /-- The number of slots in use. -/
  depth : Nat
  delay : Byte
  sound : Byte
deriving Repr, DecidableEq

namespace Stored

/-- The machine that is stored; the slots in use are its stack, latest last. -/
def machine (s : Stored) : Machine where
  bus := s.bus
  registers := s.registers
  pc := s.pc
  index := s.index
  stack := (s.slots.toList.take s.depth).reverse
  delay := s.delay
  sound := s.sound

/-- Takes over all but the stack from a machine. -/
def adopt (m : Machine) (s : Stored) : Stored :=
  { s with
    bus := m.bus, registers := m.registers, pc := m.pc, index := m.index
    delay := m.delay, sound := m.sound }

/-- No more slots are in use than calls may be open. -/
def Bounded (s : Stored) : Prop := s.depth ≤ callDepthLimit

/-! ## Registers -/

def reg? (x : Nibble) (s : Stored) : Option Byte := do
  return s.registers[← index? 16 x.toNat]

def setReg? (x : Nibble) (byte : Byte) (s : Stored) : Option Stored := do
  let slot ← index? 16 x.toNat
  return { s with registers := s.registers.set slot byte }

def setFlag? (flag : Bool) (s : Stored) : Option Stored :=
  s.setReg? Machine.flagRegister (if flag then 1 else 0)

def goTo (target : Word) (s : Stored) : Stored := { s with pc := target }

def pointTo (target : Word) (s : Stored) : Stored := { s with index := target }

def withBus (b : Bus) (s : Stored) : Stored := { s with bus := b }

/-! ## Instructions -/

def holds? (t : Test) (s : Stored) : Option Bool :=
  match t with
  | .equalsByte x n => do return (← s.reg? x) == n
  | .differsByte x n => do return (← s.reg? x) != n
  | .equals x y => do return (← s.reg? x) == (← s.reg? y)
  | .differs x y => do return (← s.reg? x) != (← s.reg? y)
  | .keyDown x => do return s.bus.keypad.holds (← s.reg? x)
  | .keyUp x => do return !s.bus.keypad.holds (← s.reg? x)

def skip? (t : Test) (s : Stored) : Option Stored := do
  return if ← s.holds? t then s.goTo (s.pc + 2) else s

/-- The result of an operation on registers, its shift checked. -/
def result? (op : RegisterOp) (a b : Byte) : Option Byte :=
  match op with
  | .shiftRight => shiftRight? a 1
  | .shiftLeft => shiftLeft? a 1
  | _ => some (op.result a b)

/-- The flag of an operation on registers, the shift that brings it down checked. -/
def flag? (op : RegisterOp) (a b : Byte) : Option (Option Bool) :=
  match op with
  | .shiftLeft => do return some ((← shiftRight? a 7).getLsbD 0)
  | _ => some (op.flag? a b)

def combine? (op : RegisterOp) (x y : Nibble) (s : Stored) : Option Stored := do
  let a ← s.reg? x
  let b ← s.reg? y
  let flag ← flag? op a b
  let combined ← s.setReg? x (← result? op a b)
  match flag with
  | none => return combined
  | some flag => combined.setFlag? flag

def call? (target : Address) (s : Stored) : Option (Outcome Stored) := do
  if callDepthLimit ≤ s.depth then
    return .failure s (.stackOverflow callDepthLimit s.pc)
  else
    let slot ← index? 16 s.depth
    return .success { s with
      slots := s.slots.set slot s.pc, depth := ← sum? s.depth 1, pc := target.toWord }

def ret? (s : Stored) : Option (Outcome Stored) := do
  match difference? s.depth 1 with
  | none => return .failure s .stackUnderflow
  | some depth => return .success { s with depth, pc := s.slots[← index? 16 depth] }

def draw? (x y height : Nibble) (s : Stored) : Option (Outcome Stored) := do
  match ← Checked.draw (← s.reg? x) (← s.reg? y) s.index height.toNat s.bus with
  | .ok (bus, erased) => return .success (← (s.withBus bus).setFlag? erased)
  | .error f => return .failure s f

def awaitKey? (x : Nibble) (s : Stored) : Option Stored :=
  match s.bus.keypad.pressed? with
  | some key => s.setReg? x key
  | none => some (s.goTo (s.pc - 2))

def pointGlyph? (x : Nibble) (s : Stored) : Option Stored := do
  let digit ← s.reg? x
  let offset ← product? (digit.toNat % 16) Glyph.height
  return s.pointTo (BitVec.ofNat 16 (← sum? 0 offset))

/-- Writes bytes from an address on. -/
def storeBytes (address : Word) : List Byte → Bus → Option (Outcome Bus)
  | [], b => some (.success b)
  | byte :: rest, b => do
    match ← Checked.write address byte b with
    | .ok b' => storeBytes (address + 1) rest b'
    | .error f => return .failure b f

/-- Writes `left` more registers, the first of them register `n`. -/
def storeRegisters (s : Stored) : Nat → Nat → Bus → Option (Outcome Bus)
  | _, 0, b => some (.success b)
  | n, left + 1, b => do
    let byte := s.registers[← index? 16 n]
    match ← Checked.write (s.index + BitVec.ofNat 16 n) byte b with
    | .ok b' => storeRegisters s (n + 1) left b'
    | .error f => return .failure b f

/-- Reads `left` more registers, the first of them register `n`. -/
def loadRegisters (s : Stored) : Nat → Nat → Bank 16 → Option (Outcome (Bank 16))
  | _, 0, registers => some (.success registers)
  | n, left + 1, registers => do
    match ← Checked.read (s.index + BitVec.ofNat 16 n) s.bus with
    | .ok byte =>
      let slot ← index? 16 n
      loadRegisters s (n + 1) left (registers.set slot byte)
    | .error f => return .failure registers f

/-- Carries out an instruction. -/
def perform? (noise : Byte) (i : Instruction) (s : Stored) : Option (Outcome Stored) :=
  match i with
  | .clear => some (.success (s.withBus s.bus.clear))
  | .ret => s.ret?
  | .jump target => some (.success (s.goTo target.toWord))
  | .jumpOffset base => do return .success (s.goTo (base.toWord + (← s.reg? 0).setWidth 16))
  | .call target => s.call? target
  | .skip test => do return .success (← s.skip? test)
  | .load x n => do return .success (← s.setReg? x n)
  | .addByte x n => do return .success (← s.setReg? x ((← s.reg? x) + n))
  | .combine op x y => do return .success (← s.combine? op x y)
  | .point target => some (.success (s.pointTo target.toWord))
  | .advance x => do return .success (s.pointTo (s.index + (← s.reg? x).setWidth 16))
  | .random x mask => do return .success (← s.setReg? x (noise &&& mask))
  | .draw x y height => s.draw? x y height
  | .awaitKey x => do return .success (← s.awaitKey? x)
  | .readDelay x => do return .success (← s.setReg? x s.delay)
  | .setDelay x => do return .success { s with delay := ← s.reg? x }
  | .setSound x => do return .success { s with sound := ← s.reg? x }
  | .pointGlyph x => do return .success (← s.pointGlyph? x)
  | .storeDecimal x => do
    let digits := (← s.reg? x).decimalDigits
    return (← storeBytes s.index digits s.bus).map s.withBus
  | .storeRegisters x => do return (← s.storeRegisters 0 (x.toNat + 1) s.bus).map s.withBus
  | .loadRegisters x => do
    return (← s.loadRegisters 0 (x.toNat + 1) s.registers).map fun bank =>
      { s with registers := bank }

/-- Runs the instruction at the program counter. -/
def step? (noise : Byte) (s : Stored) : Option (Outcome Stored) := do
  match ← Checked.readWord s.pc s.bus with
  | .error f => return .failure s f
  | .ok word =>
    let past := s.goTo (s.pc + 2)
    match Instruction.decode word with
    | .error f => return .failure past f
    | .ok i => past.perform? noise i

def lowerTimers (s : Stored) : Stored :=
  { s with delay := Machine.lowered s.delay, sound := Machine.lowered s.sound }

/-- Runs one instruction and lowers the timers. -/
def tick? (noise : Byte) (s : Stored) : Option (Outcome Stored) := do
  return (← s.step? noise).andThen fun ran => .success ran.lowerTimers

end Stored

end ChipEight
