import ChipEight.Instruction.Basic
import ChipEight.Text.Decimal
import ChipEight.Text.Hex

/-!
# Assembly language

An instruction is written as a statement: a mnemonic, then the operands with `, ` between them.
`Instruction.statement` says which mnemonic and which operands an instruction has, and
`Instruction.text` is the statement as text.  The second register of a shift is not written: it has
no effect.
-/

namespace ChipEight

/-- The name of an operation in assembly language. -/
inductive Mnemonic where
  | cls | ret | jp | call | se | sne | ld | or | and | xor | add | sub | shr | subn | shl
  | rnd | drw | skp | sknp
deriving Repr, DecidableEq

/-- The letters of a mnemonic. -/
def Mnemonic.text : Mnemonic → List Char
  | cls => "CLS".toList
  | ret => "RET".toList
  | jp => "JP".toList
  | call => "CALL".toList
  | se => "SE".toList
  | sne => "SNE".toList
  | ld => "LD".toList
  | or => "OR".toList
  | and => "AND".toList
  | xor => "XOR".toList
  | add => "ADD".toList
  | sub => "SUB".toList
  | shr => "SHR".toList
  | subn => "SUBN".toList
  | shl => "SHL".toList
  | rnd => "RND".toList
  | drw => "DRW".toList
  | skp => "SKP".toList
  | sknp => "SKNP".toList

/-- An operand in assembly language. -/
inductive Operand where
  /-- A register. -/
  | register (x : Nibble)
  /-- A constant byte. -/
  | byte (n : Byte)
  /-- A constant address. -/
  | address (a : Address)
  /-- The height of a sprite. -/
  | height (n : Nibble)
  /-- The index. -/
  | index
  /-- The memory that the index points at. -/
  | indexed
  /-- The delay timer. -/
  | delayTimer
  /-- The sound timer. -/
  | soundTimer
  /-- The next key. -/
  | key
  /-- A glyph. -/
  | glyph
  /-- Decimal digits in memory. -/
  | decimal
deriving Repr, DecidableEq

/-- How an operand is written. -/
def Operand.text : Operand → List Char
  | register x => 'V' :: Hex.digits 1 x.toNat
  | byte n => Hex.number 2 n.toNat
  | address a => Hex.number 3 a.toNat
  | height n => Decimal.digits n.toNat
  | index => "I".toList
  | indexed => "[I]".toList
  | delayTimer => "DT".toList
  | soundTimer => "ST".toList
  | key => "K".toList
  | glyph => "F".toList
  | decimal => "B".toList

/-- A line of assembly language. -/
structure Statement where
  /-- The operation. -/
  mnemonic : Mnemonic
  /-- What it works on. -/
  operands : List Operand
deriving Repr, DecidableEq

namespace Statement

/-- Operands with a comma and a blank between them. -/
def listing : List Operand → List Char
  | [] => []
  | [a] => a.text
  | a :: b :: rest => a.text ++ ',' :: ' ' :: listing (b :: rest)

/-- The statement as text: the operands, if there are any, follow the mnemonic after a blank. -/
def text (s : Statement) : List Char :=
  match s.operands with
  | [] => s.mnemonic.text
  | operands => s.mnemonic.text ++ ' ' :: listing operands

end Statement

/-- The statement that combines two registers; a shift names only the first. -/
def RegisterOp.statement (op : RegisterOp) (x y : Nibble) : Statement :=
  match op with
  | copy => ⟨.ld, [.register x, .register y]⟩
  | or => ⟨.or, [.register x, .register y]⟩
  | and => ⟨.and, [.register x, .register y]⟩
  | xor => ⟨.xor, [.register x, .register y]⟩
  | add => ⟨.add, [.register x, .register y]⟩
  | subtract => ⟨.sub, [.register x, .register y]⟩
  | shiftRight => ⟨.shr, [.register x]⟩
  | subtractFrom => ⟨.subn, [.register x, .register y]⟩
  | shiftLeft => ⟨.shl, [.register x]⟩

/-- The statement that passes over the next instruction. -/
def Test.statement : Test → Statement
  | equalsByte x n => ⟨.se, [.register x, .byte n]⟩
  | differsByte x n => ⟨.sne, [.register x, .byte n]⟩
  | equals x y => ⟨.se, [.register x, .register y]⟩
  | differs x y => ⟨.sne, [.register x, .register y]⟩
  | keyDown x => ⟨.skp, [.register x]⟩
  | keyUp x => ⟨.sknp, [.register x]⟩

namespace Instruction

/-- The instruction as a statement. -/
def statement : Instruction → Statement
  | clear => ⟨.cls, []⟩
  | ret => ⟨.ret, []⟩
  | jump target => ⟨.jp, [.address target]⟩
  | jumpOffset base => ⟨.jp, [.register 0, .address base]⟩
  | call target => ⟨.call, [.address target]⟩
  | skip test => test.statement
  | load x n => ⟨.ld, [.register x, .byte n]⟩
  | addByte x n => ⟨.add, [.register x, .byte n]⟩
  | combine op x y => op.statement x y
  | point target => ⟨.ld, [.index, .address target]⟩
  | advance x => ⟨.add, [.index, .register x]⟩
  | random x mask => ⟨.rnd, [.register x, .byte mask]⟩
  | draw x y height => ⟨.drw, [.register x, .register y, .height height]⟩
  | awaitKey x => ⟨.ld, [.register x, .key]⟩
  | readDelay x => ⟨.ld, [.register x, .delayTimer]⟩
  | setDelay x => ⟨.ld, [.delayTimer, .register x]⟩
  | setSound x => ⟨.ld, [.soundTimer, .register x]⟩
  | pointGlyph x => ⟨.ld, [.glyph, .register x]⟩
  | storeDecimal x => ⟨.ld, [.decimal, .register x]⟩
  | storeRegisters x => ⟨.ld, [.indexed, .register x]⟩
  | loadRegisters x => ⟨.ld, [.register x, .indexed]⟩

/-- The instruction in assembly language. -/
def text (i : Instruction) : String := String.ofList i.statement.text

end Instruction

end ChipEight
