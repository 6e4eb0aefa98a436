import ChipEight.Instruction.Assembly
import ChipEight.Machine.Perform

/-!
# Disassembly

Two instructions are written alike only if the machine cannot tell them apart.

1. A mnemonic holds no blank and an operand no comma, and each is read off its letters
   (`Mnemonic.text_inj`, `Operand.text_inj`).  So a text falls apart into its statement in one way
   (`Statement.text_inj`).
2. `Statement.assemble?` turns a statement back into an instruction.  It gets back everything but
   the second register of a shift (`assemble?_statement`).
3. The machine does not read that register (`Machine.combine_shift`).
-/

namespace ChipEight

/-! ## Digits -/

theorem Hex.exists_digit_of_mem {c : Char} {width n : Nat} (h : c ∈ digits width n) :
    ∃ d < 16, c = digit d := by
  induction width generalizing n with
  | zero => cases h
  | succ width ih =>
    simp only [digits, List.mem_append, List.mem_singleton] at h
    rcases h with hhigh | rfl
    · exact ih hhigh
    · exact ⟨n % 16, Nat.mod_lt n (by decide), rfl⟩

theorem Hex.notMem_digits {c : Char} (hc : ∀ d : Fin 16, c ≠ digit d) (width n : Nat) :
    c ∉ digits width n := by
  intro h
  obtain ⟨d, hd, hdigit⟩ := exists_digit_of_mem h
  exact hc ⟨d, hd⟩ hdigit

theorem Hex.comma_notMem_digits (width n : Nat) : ',' ∉ digits width n :=
  notMem_digits (by decide) width n

theorem Hex.blank_notMem_digits (width n : Nat) : ' ' ∉ digits width n :=
  notMem_digits (by decide) width n

namespace Decimal

/-- Whether all characters of the text are decimal digits. -/
def isNumeral (text : List Char) : Bool := text.all fun c => (digitValue? c).isSome

theorem isNumeral_digits (n : Nat) : isNumeral (digits n) = true := by
  induction n using Nat.strongRecOn with
  | ind n ih =>
    rw [digits]
    split
    · rename_i h
      simp [isNumeral, digitValue?_digit h]
    · rename_i h
      have hhigh := ih (n / 10) (by omega)
      have hlow := digitValue?_digit (Nat.mod_lt n (show 10 > 0 by decide))
      unfold isNumeral at hhigh ⊢
      simp [hhigh, hlow]

theorem notMem_digits {c : Char} (hc : digitValue? c = none) (n : Nat) : c ∉ digits n := by
  intro h
  have hall := isNumeral_digits n
  rw [isNumeral, List.all_eq_true] at hall
  have hdigit := hall _ h
  rw [hc] at hdigit
  cases hdigit

theorem comma_notMem_digits (n : Nat) : ',' ∉ digits n := notMem_digits rfl n

theorem blank_notMem_digits (n : Nat) : ' ' ∉ digits n := notMem_digits rfl n

end Decimal

/-! ## Mnemonics -/

namespace Mnemonic

/-- All mnemonics. -/
def all : List Mnemonic :=
  [cls, ret, jp, call, se, sne, ld, or, and, xor, add, sub, shr, subn, shl, rnd, drw, skp, sknp]

theorem mem_all (m : Mnemonic) : m ∈ all := by cases m <;> decide

theorem blank_notMem_text (m : Mnemonic) : ' ' ∉ m.text := by
  have key : ∀ m ∈ all, ' ' ∉ m.text := by decide
  exact key m (mem_all m)

theorem text_inj {m n : Mnemonic} (h : m.text = n.text) : m = n := by
  have key : ∀ m ∈ all, ∀ n ∈ all, m.text = n.text → m = n := by decide +kernel
  exact key m (mem_all m) n (mem_all n) h

end Mnemonic

/-! ## Operands -/

namespace Operand

/-- Whether the operand is the height of a sprite. -/
def isHeight : Operand → Bool
  | height _ => true
  | _ => false

theorem isNumeral_text (a : Operand) : Decimal.isNumeral a.text = a.isHeight := by
  cases a with
  | height n => exact Decimal.isNumeral_digits n.toNat
  | _ => rfl

theorem text_ne_nil (a : Operand) : a.text ≠ [] := by
  cases a with
  | height n => exact Decimal.digits_ne_nil n.toNat
  | _ => exact List.cons_ne_nil _ _

theorem comma_notMem_text (a : Operand) : ',' ∉ a.text := by
  cases a with
  | register x => simp [text, Hex.comma_notMem_digits]
  | byte n | address n => simp [text, Hex.number, Hex.comma_notMem_digits]
  | height n => exact Decimal.comma_notMem_digits n.toNat
  | _ => decide

/-- A height alone is written with nothing but decimal digits, a constant alone begins with `0x`,
and a byte has fewer digits than an address. -/
theorem text_inj {a b : Operand} (h : a.text = b.text) : a = b := by
  have hheight : a.isHeight = b.isHeight := by rw [← isNumeral_text, h, isNumeral_text]
  cases a with
  | register x =>
    cases b with
    | register y =>
      have hdigits : Hex.digits 1 x.toNat = Hex.digits 1 y.toNat := (List.cons.inj h).2
      rw [BitVec.eq_of_toNat_eq (Hex.digits_inj x.isLt y.isLt hdigits)]
    | height n => cases hheight
    | _ => simp [text, Hex.number] at h
  | byte m =>
    cases b with
    | byte n =>
      have hdigits : Hex.digits 2 m.toNat = Hex.digits 2 n.toNat := by
        simpa [text, Hex.number] using h
      rw [BitVec.eq_of_toNat_eq (Hex.digits_inj m.isLt n.isLt hdigits)]
    | address n => simpa [text, Hex.number] using congrArg List.length h
    | height n => cases hheight
    | _ => simp [text, Hex.number] at h
  | address m =>
    cases b with
    | address n =>
      have hdigits : Hex.digits 3 m.toNat = Hex.digits 3 n.toNat := by
        simpa [text, Hex.number] using h
      rw [BitVec.eq_of_toNat_eq (Hex.digits_inj m.isLt n.isLt hdigits)]
    | byte n => simpa [text, Hex.number] using congrArg List.length h
    | height n => cases hheight
    | _ => simp [text, Hex.number] at h
  | height m =>
    cases b with
    | height n => rw [BitVec.eq_of_toNat_eq (Decimal.digits_inj h)]
    | _ => cases hheight
  | index | indexed | delayTimer | soundTimer | key | glyph | decimal =>
    cases b with
    | height n => cases hheight
    | _ => first | rfl | simp [text, Hex.number] at h

end Operand

/-! ## Statements -/

/-- What comes before the first separator and what comes after it are determined by the whole. -/
theorem append_separator_inj {sep : Char} {a a' b b' : List Char} (ha : sep ∉ a) (ha' : sep ∉ a')
    (h : a ++ sep :: b = a' ++ sep :: b') : a = a' ∧ b = b' := by
  induction a generalizing a' with
  | nil =>
    cases a' with
    | nil => exact ⟨rfl, (List.cons.inj h).2⟩
    | cons c rest => exact absurd (List.mem_cons.2 (.inl (List.cons.inj h).1)) ha'
  | cons c rest ih =>
    cases a' with
    | nil => exact absurd (List.mem_cons.2 (.inl (List.cons.inj h).1.symm)) ha
    | cons c' rest' =>
      obtain ⟨rfl, hrest⟩ := List.cons.inj h
      have hb := ih (List.not_mem_of_not_mem_cons ha) (List.not_mem_of_not_mem_cons ha') hrest
      exact ⟨congrArg (c :: ·) hb.1, hb.2⟩

namespace Statement

theorem listing_ne_nil (a : Operand) (rest : List Operand) : listing (a :: rest) ≠ [] := by
  cases rest with
  | nil => exact a.text_ne_nil
  | cons b rest => simp [listing]

theorem listing_inj {as bs : List Operand} (h : listing as = listing bs) : as = bs := by
  induction as generalizing bs with
  | nil =>
    cases bs with
    | nil => rfl
    | cons b bs => exact absurd h.symm (listing_ne_nil b bs)
  | cons a as ih =>
    cases bs with
    | nil => exact absurd h (listing_ne_nil a as)
    | cons b bs =>
      -- a comma follows the first operand just if it is not the last one
      match as, bs with
      | [], [] => rw [Operand.text_inj h]
      | [], b' :: bs =>
        have htext : a.text = b.text ++ ',' :: ' ' :: listing (b' :: bs) := h
        have hcomma : ',' ∈ a.text := by simp [htext]
        exact absurd hcomma a.comma_notMem_text
      | a' :: as, [] =>
        have htext : b.text = a.text ++ ',' :: ' ' :: listing (a' :: as) := h.symm
        have hcomma : ',' ∈ b.text := by simp [htext]
        exact absurd hcomma b.comma_notMem_text
      | a' :: as, b' :: bs =>
        obtain ⟨hfirst, hrest⟩ := append_separator_inj a.comma_notMem_text b.comma_notMem_text h
        rw [Operand.text_inj hfirst, ih (List.cons.inj hrest).2]

theorem text_inj {s t : Statement} (h : s.text = t.text) : s = t := by
  obtain ⟨m, as⟩ := s
  obtain ⟨n, bs⟩ := t
  match as, bs with
  | [], [] => exact congrArg (Statement.mk · []) (Mnemonic.text_inj h)
  | [], b :: bs =>
    have htext : m.text = n.text ++ ' ' :: listing (b :: bs) := h
    have hblank : ' ' ∈ m.text := by simp [htext]
    exact absurd hblank m.blank_notMem_text
  | a :: as, [] =>
    have htext : n.text = m.text ++ ' ' :: listing (a :: as) := h.symm
    have hblank : ' ' ∈ n.text := by simp [htext]
    exact absurd hblank n.blank_notMem_text
  | a :: as, b :: bs =>
    obtain ⟨hmnemonic, hlisting⟩ := append_separator_inj m.blank_notMem_text n.blank_notMem_text h
    obtain rfl := Mnemonic.text_inj hmnemonic
    exact congrArg (Statement.mk m) (listing_inj hlisting)

/-- The instruction that a statement stands for; a shift gets register 0 as its second register. -/
def assemble? : Statement → Option Instruction
  | ⟨.cls, []⟩ => some .clear
  | ⟨.ret, []⟩ => some .ret
  | ⟨.jp, [.address target]⟩ => some (.jump target)
  | ⟨.jp, [.register x, .address base]⟩ => if x = 0 then some (.jumpOffset base) else none
  | ⟨.call, [.address target]⟩ => some (.call target)
  | ⟨.se, [.register x, .byte n]⟩ => some (.skip (.equalsByte x n))
  | ⟨.se, [.register x, .register y]⟩ => some (.skip (.equals x y))
  | ⟨.sne, [.register x, .byte n]⟩ => some (.skip (.differsByte x n))
  | ⟨.sne, [.register x, .register y]⟩ => some (.skip (.differs x y))
  | ⟨.skp, [.register x]⟩ => some (.skip (.keyDown x))
  | ⟨.sknp, [.register x]⟩ => some (.skip (.keyUp x))
  | ⟨.or, [.register x, .register y]⟩ => some (.combine .or x y)
  | ⟨.and, [.register x, .register y]⟩ => some (.combine .and x y)
  | ⟨.xor, [.register x, .register y]⟩ => some (.combine .xor x y)
  | ⟨.add, [.register x, .byte n]⟩ => some (.addByte x n)
  | ⟨.add, [.register x, .register y]⟩ => some (.combine .add x y)
  | ⟨.add, [.index, .register x]⟩ => some (.advance x)
  | ⟨.sub, [.register x, .register y]⟩ => some (.combine .subtract x y)
  | ⟨.subn, [.register x, .register y]⟩ => some (.combine .subtractFrom x y)
  | ⟨.shr, [.register x]⟩ => some (.combine .shiftRight x 0)
  | ⟨.shl, [.register x]⟩ => some (.combine .shiftLeft x 0)
  | ⟨.rnd, [.register x, .byte mask]⟩ => some (.random x mask)
  | ⟨.drw, [.register x, .register y, .height height]⟩ => some (.draw x y height)
  | ⟨.ld, [.index, .address target]⟩ => some (.point target)
  | ⟨.ld, [.register x, source]⟩ =>
    match source with
    | .byte n => some (.load x n)
    | .register y => some (.combine .copy x y)
    | .key => some (.awaitKey x)
    | .delayTimer => some (.readDelay x)
    | .indexed => some (.loadRegisters x)
    | _ => none
  | ⟨.ld, [destination, .register x]⟩ =>
    match destination with
    | .delayTimer => some (.setDelay x)
    | .soundTimer => some (.setSound x)
    | .glyph => some (.pointGlyph x)
    | .decimal => some (.storeDecimal x)
    | .indexed => some (.storeRegisters x)
    | _ => none
  | _ => none

end Statement

/-! ## Instructions -/

namespace Instruction

/-- The same shift of the same register, with whatever second register. -/
def SameShift (a b : Instruction) : Prop :=
  ∃ op x y y', (op = RegisterOp.shiftRight ∨ op = RegisterOp.shiftLeft) ∧
    a = combine op x y ∧ b = combine op x y'

/-- The instruction with register 0 as the second register of a shift. -/
def normal : Instruction → Instruction
  | combine .shiftRight x _ => combine .shiftRight x 0
  | combine .shiftLeft x _ => combine .shiftLeft x 0
  | i => i

theorem assemble?_statement (i : Instruction) : i.statement.assemble? = some i.normal := by
  cases i with
  | skip test => cases test <;> rfl
  | combine op x y => cases op <;> rfl
  | _ => rfl

theorem normal_eq_or_shift (i : Instruction) :
    i.normal = i ∨ ∃ op x y, (op = RegisterOp.shiftRight ∨ op = RegisterOp.shiftLeft) ∧
      i = combine op x y ∧ i.normal = combine op x 0 := by
  cases i with
  | combine op x y =>
    cases op with
    | shiftRight => exact .inr ⟨.shiftRight, x, y, .inl rfl, rfl, rfl⟩
    | shiftLeft => exact .inr ⟨.shiftLeft, x, y, .inr rfl, rfl, rfl⟩
    | _ => exact .inl rfl
  | _ => exact .inl rfl

variable {a b : Instruction}

theorem eq_or_sameShift_of_normal_eq (h : a.normal = b.normal) : a = b ∨ SameShift a b := by
  rcases normal_eq_or_shift a with ha | ⟨op, x, y, hop, ha, hna⟩ <;>
    rcases normal_eq_or_shift b with hb | ⟨op', x', y', hop', hb, hnb⟩
  · exact .inl (ha.symm.trans (h.trans hb))
  · exact .inr ⟨op', x', 0, y', hop', ha.symm.trans (h.trans hnb), hb⟩
  · exact .inr ⟨op, x, y, 0, hop, ha, hb.symm.trans (h.symm.trans hna)⟩
  · have hsame : combine op x 0 = combine op' x' 0 := hna.symm.trans (h.trans hnb)
    injection hsame with hop_eq hx
    subst hop_eq hx
    exact .inr ⟨op, x, y, y', hop, ha, hb⟩

theorem statement_of_sameShift (h : SameShift a b) : a.statement = b.statement := by
  obtain ⟨op, x, y, y', rfl | rfl, rfl, rfl⟩ := h <;> rfl

theorem text_eq_iff_statement : a.text = b.text ↔ a.statement = b.statement := by
  constructor
  · intro h
    have htext := congrArg String.toList h
    simp only [text, String.toList_ofList] at htext
    exact Statement.text_inj htext
  · intro h
    rw [text, h, text]

/-- Equal statements are assembled into equal instructions, so only what a shift leaves out can
differ. -/
theorem statement_eq_iff : a.statement = b.statement ↔ a = b ∨ SameShift a b := by
  constructor
  · intro h
    have hassembled := congrArg Statement.assemble? h
    rw [assemble?_statement, assemble?_statement] at hassembled
    exact eq_or_sameShift_of_normal_eq (Option.some.inj hassembled)
  · rintro (rfl | h)
    · rfl
    · exact statement_of_sameShift h

/-- **Disassembly.**  Two instructions have the same text just if they are equal or one shift of one
register with two second registers; and instructions with the same text do the same to every
machine, whatever the random byte. -/
theorem text_tells_apart (a b : Instruction) :
    (a.text = b.text ↔ a = b ∨ ∃ op x y y', (op = RegisterOp.shiftRight ∨ op = .shiftLeft) ∧
      a = combine op x y ∧ b = combine op x y') ∧
      (a.text = b.text →
        ∀ noise (m : Machine), m.perform noise a = m.perform noise b) := by
  have hiff : a.text = b.text ↔ a = b ∨ SameShift a b :=
    text_eq_iff_statement.trans statement_eq_iff
  refine ⟨hiff, fun h noise m => ?_⟩
  rcases hiff.1 h with rfl | ⟨op, x, y, y', hop, rfl, rfl⟩
  · rfl
  · exact congrArg Outcome.success (m.combine_shift hop x y y')

end Instruction

end ChipEight
