import ChipEight.Fault
import ChipEight.Instruction.Basic

/-!
# Instruction words

`Instruction.encode` gives the word of an instruction and `Instruction.decode` reads a word.  The
first nibble of a word is its family.  In most families every word is an instruction; in families
0, 5, 8, 9, E and F the nibbles that carry no operand have to fit one of the known patterns.
-/

namespace ChipEight

namespace RegisterOp

/-- The last nibble of the words that combine registers by this operation. -/
def selector : RegisterOp → Nibble
  | copy => 0x0
  | or => 0x1
  | and => 0x2
  | xor => 0x3
  | add => 0x4
  | subtract => 0x5
  | shiftRight => 0x6
  | subtractFrom => 0x7
  | shiftLeft => 0xE

/-- The operation that a last nibble selects. -/
def ofSelector? (n : Nibble) : Option RegisterOp :=
  match n with
  | 0x0#4 => some copy
  | 0x1#4 => some or
  | 0x2#4 => some and
  | 0x3#4 => some xor
  | 0x4#4 => some add
  | 0x5#4 => some subtract
  | 0x6#4 => some shiftRight
  | 0x7#4 => some subtractFrom
  | 0xE#4 => some shiftLeft
  | _ => none

theorem ofSelector?_selector (op : RegisterOp) : ofSelector? op.selector = some op := by
  cases op <;> rfl

theorem ofSelector?_eq_some_iff (n : Nibble) (op : RegisterOp) :
    ofSelector? n = some op ↔ op.selector = n := by
  cases op <;> revert n <;> decide

end RegisterOp

namespace Instruction

/-- The word of an instruction in `family` with a register and a constant. -/
def constantWord (family x : Nibble) (n : Byte) : Word := family ++ x ++ n

/-- The word of an instruction in `family` with an address. -/
def addressWord (family : Nibble) (target : Address) : Word := family ++ target

/-- The instruction word. -/
def encode : Instruction → Word
  | clear => 0x00E0
  | ret => 0x00EE
  | jump target => addressWord 0x1 target
  | call target => addressWord 0x2 target
  | skip (.equalsByte x n) => constantWord 0x3 x n
  | skip (.differsByte x n) => constantWord 0x4 x n
  | skip (.equals x y) => .ofNibbles 0x5 x y 0x0
  | load x n => constantWord 0x6 x n
  | addByte x n => constantWord 0x7 x n
  | combine op x y => .ofNibbles 0x8 x y op.selector
  | skip (.differs x y) => .ofNibbles 0x9 x y 0x0
  | point target => addressWord 0xA target
  | jumpOffset base => addressWord 0xB base
  | random x mask => constantWord 0xC x mask
  | draw x y height => .ofNibbles 0xD x y height
  | skip (.keyDown x) => constantWord 0xE x 0x9E
  | skip (.keyUp x) => constantWord 0xE x 0xA1
  | readDelay x => constantWord 0xF x 0x07
  | awaitKey x => constantWord 0xF x 0x0A
  | setDelay x => constantWord 0xF x 0x15
  | setSound x => constantWord 0xF x 0x18
  | advance x => constantWord 0xF x 0x1E
  | pointGlyph x => constantWord 0xF x 0x29
  | storeDecimal x => constantWord 0xF x 0x33
  | storeRegisters x => constantWord 0xF x 0x55
  | loadRegisters x => constantWord 0xF x 0x65

/-- The instruction of family 0 with this low part. -/
def ofSystemWord? (rest : Address) : Option Instruction :=
  match rest with
  | 0x0E0#12 => some clear
  | 0x0EE#12 => some ret
  | _ => none

/-- The instruction of family E with this register and low byte. -/
def ofKeyWord? (x : Nibble) (low : Byte) : Option Instruction :=
  match low with
  | 0x9E#8 => some (skip (.keyDown x))
  | 0xA1#8 => some (skip (.keyUp x))
  | _ => none

/-- The instruction of family F with this register and low byte. -/
def ofServiceWord? (x : Nibble) (low : Byte) : Option Instruction :=
  match low with
  | 0x07#8 => some (readDelay x)
  | 0x0A#8 => some (awaitKey x)
  | 0x15#8 => some (setDelay x)
  | 0x18#8 => some (setSound x)
  | 0x1E#8 => some (advance x)
  | 0x29#8 => some (pointGlyph x)
  | 0x33#8 => some (storeDecimal x)
  | 0x55#8 => some (storeRegisters x)
  | 0x65#8 => some (loadRegisters x)
  | _ => none

/-- The instruction that a word stands for, if it stands for one. -/
def ofWord? (w : Word) : Option Instruction :=
  let (family, x, y, last) := w.nibbles
  match family with
  | 0x0#4 => ofSystemWord? w.address
  | 0x1#4 => some (jump w.address)
  | 0x2#4 => some (call w.address)
  | 0x3#4 => some (skip (.equalsByte x w.lowByte))
  | 0x4#4 => some (skip (.differsByte x w.lowByte))
  | 0x5#4 => if last = 0 then some (skip (.equals x y)) else none
  | 0x6#4 => some (load x w.lowByte)
  | 0x7#4 => some (addByte x w.lowByte)
  | 0x8#4 => (RegisterOp.ofSelector? last).map fun op => combine op x y
  | 0x9#4 => if last = 0 then some (skip (.differs x y)) else none
  | 0xA#4 => some (point w.address)
  | 0xB#4 => some (jumpOffset w.address)
  | 0xC#4 => some (random x w.lowByte)
  | 0xD#4 => some (draw x y last)
  | 0xE#4 => ofKeyWord? x w.lowByte
  | _ => ofServiceWord? x w.lowByte

/-- Reads an instruction word. -/
def decode (w : Word) : Except Fault Instruction :=
  match ofWord? w with
  | some i => .ok i
  | none => .error (.unknownInstruction w)

theorem decode_eq_ok_iff (w : Word) (i : Instruction) : decode w = .ok i ↔ ofWord? w = some i := by
  unfold decode
  cases ofWord? w <;> simp

theorem decode_eq_error_iff (w : Word) (f : Fault) :
    decode w = .error f ↔ ofWord? w = none ∧ f = .unknownInstruction w := by
  unfold decode
  cases ofWord? w <;> simp [eq_comm]

end Instruction

end ChipEight
