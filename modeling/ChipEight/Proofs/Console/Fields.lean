import ChipEight.Console.Drawing
import ChipEight.Console.StatusLine
import ChipEight.Proofs.Instruction.Disassembly
import Mathlib.Algebra.Group.Nat.Defs

/-!
# The fields of the status line

The counter, the coming instruction and the number of cycles stand side by side, and each of them
can be read off the line.

1. The place of a word holds no blank and tells the word (`Word.place_inj`), so it ends where the
   line's next blank stands.
2. Every operand has a greatest width, and a row of operands is never long enough to fill the field
   (`Instruction.length_text_le`).  No text ends in a blank.  So the field is always as wide as it
   should be, and the blanks at its end can be taken away again (`Padding.padded_inj`).
3. What is left is the number of cycles before a fixed word, and its digits tell the number.

The line is made of characters of one cell each, and it is short unless the number of cycles is very
long (`Status.isNarrow_of_mem_chars`, `Status.length_chars_le`).
-/

namespace ChipEight

namespace Padding

theorem trimmed_padded (width : Nat) (text : List Char) :
    trimmed (padded width text) = trimmed text := by
  have hblanks : ∀ c ∈ List.replicate (width - text.length) ' ', (c == ' ') = true := by
    intro c hc
    rw [List.eq_of_mem_replicate hc]
    rfl
  unfold trimmed padded
  rw [List.reverse_append, List.reverse_replicate, List.dropWhile_append_of_pos hblanks]

theorem trimmed_of_getLast? {text : List Char} (h : text.getLast? ≠ some ' ') :
    trimmed text = text := by
  rcases text.eq_nil_or_concat with rfl | ⟨init, c, rfl⟩
  · rfl
  · have hc : c ≠ ' ' := by
      rintro rfl
      exact h (by simp)
    simpa using trimmed_concat hc init

/-- The blanks that fill a text up can be told from the text. -/
theorem padded_inj {width : Nat} {a b : List Char} (ha : a.getLast? ≠ some ' ')
    (hb : b.getLast? ≠ some ' ') (h : padded width a = padded width b) : a = b := by
  have htrimmed := congrArg trimmed h
  rwa [trimmed_padded, trimmed_padded, trimmed_of_getLast? ha, trimmed_of_getLast? hb] at htrimmed

end Padding

theorem Hex.length_number (width n : Nat) : (number width n).length = width + 2 := by
  simp [number]

theorem Hex.number_inj {width m n : Nat} (hm : m < Nat.pow 16 width) (hn : n < Nat.pow 16 width)
    (h : number width m = number width n) : m = n :=
  digits_inj hm hn (List.cons.inj (List.cons.inj h).2).2

namespace Word

theorem blank_notMem_place (w : Word) : ' ' ∉ w.place := by
  unfold place
  split <;> simp [Hex.number, Hex.blank_notMem_digits]

/-- The number of digits tells which of the two widths was used. -/
theorem place_inj {v w : Word} (h : v.place = w.place) : v = w := by
  have hlength := congrArg List.length h
  unfold place at h hlength
  apply BitVec.eq_of_toNat_eq
  split at h <;> split at h <;> rename_i hv hw
  · exact Hex.number_inj (show v.toNat < Nat.pow 16 3 from hv) hw h
  · simp [hv, hw, Hex.length_number] at hlength
  · simp [hv, hw, Hex.length_number] at hlength
  · exact Hex.number_inj (show v.toNat < Nat.pow 16 4 from v.isLt) w.isLt h

end Word

/-! ## How an instruction is written -/

theorem getLast?_ne_of_notMem {text : List Char} {c : Char} (h : c ∉ text) :
    text.getLast? ≠ some c :=
  fun hlast => h (List.mem_of_getLast? hlast)

theorem getLast?_append_of_ne_nil (a : List Char) {b : List Char} (h : b ≠ []) :
    (a ++ b).getLast? = b.getLast? := by
  rw [List.getLast?_append, Option.or_of_isSome (by simpa using h)]

theorem Decimal.length_digits_le {n k : Nat} (h : n < 10 ^ (k + 1)) :
    (digits n).length ≤ k + 1 := by
  induction k generalizing n with
  | zero =>
    rw [digits, if_pos (by simpa using h)]
    simp
  | succ k ih =>
    rw [digits]
    split
    · simp
    · have hhigh := ih (n := n / 10) (by rw [Nat.pow_succ] at h; omega)
      rw [List.length_append]
      exact Nat.succ_le_succ hhigh

namespace Operand

theorem blank_notMem_text (a : Operand) : ' ' ∉ a.text := by
  cases a with
  | register x => simp [text, Hex.blank_notMem_digits]
  | byte n | address n => simp [text, Hex.number, Hex.blank_notMem_digits]
  | height n => exact Decimal.blank_notMem_digits n.toNat
  | _ => decide

/-- The greatest number of characters of an operand of this kind. -/
def width : Operand → Nat
  | register _ | height _ | delayTimer | soundTimer => 2
  | byte _ => 4
  | address _ => 5
  | indexed => 3
  | index | key | glyph | decimal => 1

theorem length_text_le (a : Operand) : a.text.length ≤ a.width := by
  cases a with
  | register x => simp [text, width]
  | byte n | address n => simp [text, width, Hex.length_number]
  | height n =>
    have hn := n.isLt
    exact Decimal.length_digits_le (by omega)
  | _ => decide

end Operand

namespace Statement

theorem getLast?_listing (operands : List Operand) : (listing operands).getLast? ≠ some ' ' := by
  fun_induction listing operands with
  | case1 => simp
  | case2 a => exact getLast?_ne_of_notMem a.blank_notMem_text
  | case3 a b rest ih =>
    have htext : a.text ++ ',' :: ' ' :: listing (b :: rest) =
        (a.text ++ [',', ' ']) ++ listing (b :: rest) := by simp
    rw [htext, getLast?_append_of_ne_nil _ (listing_ne_nil b rest)]
    exact ih

theorem getLast?_text (s : Statement) : s.text.getLast? ≠ some ' ' := by
  obtain ⟨m, operands⟩ := s
  cases operands with
  | nil => exact getLast?_ne_of_notMem m.blank_notMem_text
  | cons a rest =>
    have htext : Statement.text ⟨m, a :: rest⟩ = (m.text ++ [' ']) ++ listing (a :: rest) := by
      simp [text]
    rw [htext, getLast?_append_of_ne_nil _ (listing_ne_nil a rest)]
    exact getLast?_listing (a :: rest)

/-- The greatest number of characters of a row of operands, with a comma and a blank after each. -/
def width : List Operand → Nat
  | [] => 0
  | a :: rest => a.width + 2 + width rest

theorem length_listing_le (a : Operand) (rest : List Operand) :
    (listing (a :: rest)).length + 2 ≤ width (a :: rest) := by
  induction rest generalizing a with
  | nil => simpa [listing, width] using a.length_text_le
  | cons b rest ih =>
    have hfirst := a.length_text_le
    have hrest := ih b
    rw [listing, List.length_append, List.length_cons, List.length_cons, width]
    omega

theorem length_text_le (s : Statement) :
    s.text.length ≤ max 4 (3 + width s.operands) := by
  obtain ⟨m, operands⟩ := s
  have key : ∀ m ∈ Mnemonic.all, m.text.length ≤ 4 := by decide
  have hmnemonic := key m m.mem_all
  cases operands with
  | nil => exact Nat.le_trans hmnemonic (Nat.le_max_left _ _)
  | cons a rest =>
    have hlisting := length_listing_le a rest
    have htext : (Statement.text ⟨m, a :: rest⟩).length =
        m.text.length + ((listing (a :: rest)).length + 1) := by simp [text]
    rw [htext]
    refine Nat.le_trans ?_ (Nat.le_max_right _ _)
    show _ ≤ 3 + width (a :: rest)
    omega

/-- Only a statement without operands is written without a blank. -/
theorem text_ne_unknown (s : Statement) : s.text ≠ "???".toList := by
  obtain ⟨m, operands⟩ := s
  intro h
  cases operands with
  | nil =>
    have key : ∀ m ∈ Mnemonic.all, m.text ≠ "???".toList := by decide
    exact key m m.mem_all h
  | cons a rest =>
    have hblank : ' ' ∈ "???".toList := by
      rw [← h]
      exact List.mem_append_right m.text List.mem_cons_self
    exact absurd hblank (by decide)

end Statement

namespace Instruction

theorem width_operands_le (i : Instruction) : Statement.width i.statement.operands ≤ 12 := by
  cases i with
  | skip test =>
    cases test <;> simp [statement, Test.statement, Statement.width, Operand.width]
  | combine op x y =>
    cases op <;> simp [statement, RegisterOp.statement, Statement.width, Operand.width]
  | _ => simp [statement, Statement.width, Operand.width]

theorem length_text_le (i : Instruction) : i.statement.text.length ≤ 15 := by
  have htext := i.statement.length_text_le
  have hwidth := i.width_operands_le
  omega

end Instruction

/-! ## The line -/

theorem length_shownInstruction_lt (next : Option Instruction) :
    (shownInstruction next).length < instructionField := by
  cases next with
  | none => decide
  | some i => exact Nat.lt_of_le_of_lt i.length_text_le (by decide)

theorem getLast?_shownInstruction (next : Option Instruction) :
    (shownInstruction next).getLast? ≠ some ' ' := by
  cases next with
  | none => decide
  | some i => exact i.statement.getLast?_text

/-! ## Characters -/

open Drawing (IsNarrow)

theorem Hex.isNarrow_of_mem {c : Char} {width n : Nat} (h : c ∈ digits width n) : IsNarrow c := by
  obtain ⟨d, hd, rfl⟩ := exists_digit_of_mem h
  have key : ∀ d : Fin 16, IsNarrow (digit d) := by decide
  exact key ⟨d, hd⟩

theorem Hex.isNarrow_of_mem_number {c : Char} {width n : Nat} (h : c ∈ number width n) :
    IsNarrow c := by
  rcases List.mem_cons.1 h with rfl | h
  · decide
  rcases List.mem_cons.1 h with rfl | h
  · decide
  · exact isNarrow_of_mem h

theorem Decimal.isNarrow_of_mem {c : Char} {n : Nat} (h : c ∈ digits n) : IsNarrow c := by
  have hdigit : (digitValue? c).isSome := List.all_eq_true.1 (isNumeral_digits n) c h
  unfold digitValue? at hdigit
  split at hdigit
  all_goals first | decide | cases hdigit

theorem Operand.isNarrow_of_mem_text {a : Operand} {c : Char} (h : c ∈ a.text) : IsNarrow c := by
  cases a with
  | register x =>
    rcases List.mem_cons.1 h with rfl | h
    · decide
    · exact Hex.isNarrow_of_mem h
  | byte n | address n => exact Hex.isNarrow_of_mem_number h
  | height n => exact Decimal.isNarrow_of_mem h
  | index | indexed | delayTimer | soundTimer | key | glyph | decimal =>
    exact Drawing.isNarrow_of_all (by decide) h

theorem Statement.isNarrow_of_mem_listing {operands : List Operand} {c : Char}
    (h : c ∈ listing operands) : IsNarrow c := by
  fun_induction listing operands with
  | case1 => cases h
  | case2 a => exact Operand.isNarrow_of_mem_text h
  | case3 a b rest ih =>
    rcases List.mem_append.1 h with h | h
    · exact Operand.isNarrow_of_mem_text h
    rcases List.mem_cons.1 h with rfl | h
    · decide
    rcases List.mem_cons.1 h with rfl | h
    · decide
    · exact ih h

theorem Statement.isNarrow_of_mem_text {s : Statement} {c : Char} (h : c ∈ s.text) :
    IsNarrow c := by
  obtain ⟨m, operands⟩ := s
  have key : ∀ m ∈ Mnemonic.all, m.text.all fun c => decide (IsNarrow c) := by decide
  cases operands with
  | nil => exact Drawing.isNarrow_of_all (key m m.mem_all) h
  | cons a rest =>
    rcases List.mem_append.1 h with h | h
    · exact Drawing.isNarrow_of_all (key m m.mem_all) h
    rcases List.mem_cons.1 h with rfl | h
    · decide
    · exact isNarrow_of_mem_listing h

theorem isNarrow_of_mem_shownInstruction {next : Option Instruction} {c : Char}
    (h : c ∈ shownInstruction next) : IsNarrow c := by
  cases next with
  | none => exact Drawing.isNarrow_of_all (by decide) h
  | some i => exact Statement.isNarrow_of_mem_text h

/-! ## Telling lines apart -/

/-- Two instructions are shown alike just if they are written alike, and `???` is shown only if
there is none. -/
theorem shownInstruction_eq_iff (a b : Option Instruction) :
    shownInstruction a = shownInstruction b ↔
      a.map Instruction.text = b.map Instruction.text := by
  cases a with
  | none =>
    cases b with
    | none => simp
    | some j => simpa [shownInstruction] using j.statement.text_ne_unknown.symm
  | some i =>
    cases b with
    | none => simpa [shownInstruction] using i.statement.text_ne_unknown
    | some j => simp [shownInstruction, Instruction.text, String.ofList_inj]

namespace Status

/-- What stands in the field of the coming instruction. -/
def field (s : Status) : List Char := Padding.padded instructionField (shownInstruction s.next)

theorem length_field (s : Status) : s.field.length = instructionField :=
  Padding.length_padded (Nat.le_of_lt (length_shownInstruction_lt s.next))

/-- A status is read off its line from left to right. -/
theorem chars_inj {s t : Status} (h : s.chars = t.chars) :
    s.pc = t.pc ∧ shownInstruction s.next = shownInstruction t.next ∧ s.cycles = t.cycles := by
  have hline : ∀ u : Status, u.chars =
      ' ' :: (u.pc.place ++ ' ' :: (u.field ++ (Decimal.digits u.cycles ++ " cycles".toList))) := by
    intro u
    simp [chars, field]
  rw [hline, hline] at h
  obtain ⟨hplace, hrest⟩ := append_separator_inj s.pc.blank_notMem_place t.pc.blank_notMem_place
    (List.cons.inj h).2
  have hwidth : s.field.length = t.field.length := by rw [length_field, length_field]
  obtain ⟨hfield, hcycles⟩ := List.append_inj hrest hwidth
  refine ⟨Word.place_inj hplace, ?_, Decimal.digits_inj (List.append_cancel_right hcycles)⟩
  exact Padding.padded_inj (getLast?_shownInstruction _) (getLast?_shownInstruction _) hfield

theorem isNarrow_of_mem_chars {s : Status} {c : Char} (h : c ∈ s.chars) : IsNarrow c := by
  simp only [chars, Padding.padded, List.mem_append, List.mem_cons, List.mem_replicate] at h
  have hplace : c ∈ s.pc.place → IsNarrow c := by
    unfold Word.place
    split <;> exact Hex.isNarrow_of_mem_number
  rcases h with (((rfl | h) | rfl | h | ⟨-, rfl⟩) | h) | h
  · decide
  · exact hplace h
  · decide
  · exact isNarrow_of_mem_shownInstruction h
  · decide
  · exact Decimal.isNarrow_of_mem h
  · exact Drawing.isNarrow_of_all (by decide) h

/-- With up to twenty digits of cycles, the line is short. -/
theorem length_chars_le {s : Status} (h : s.cycles < 2 ^ 64) : s.chars.length ≤ 51 := by
  have hplace : s.pc.place.length ≤ 6 := by
    unfold Word.place
    split <;> simp [Hex.length_number]
  have hdigits : (Decimal.digits s.cycles).length ≤ 20 := Decimal.length_digits_le (by omega)
  have hfield := s.length_field
  have hwidth : instructionField = 16 := rfl
  have hlength : s.chars.length =
      1 + s.pc.place.length + (1 + s.field.length) + (Decimal.digits s.cycles).length + 7 := by
    simp only [chars, field, List.length_append, List.length_cons]
    have hword : " cycles".toList.length = 7 := rfl
    omega
  omega

/-- **Reading the status line.**  Two statuses give the same line just if they have the same
counter, the same instruction text or both none, and the same number of cycles.  The field of the
instruction, which shows its text or `???`, is sixteen columns wide and ends in a blank, since every
text is shorter than that; and no instruction is written `???`. -/
theorem reads_back :
    (∀ s t : Status, statusLine (some s) = statusLine (some t) ↔
      s.pc = t.pc ∧ s.next.map Instruction.text = t.next.map Instruction.text ∧
        s.cycles = t.cycles) ∧
      (∀ s : Status, ∃ field : List Char, ∃ blanks > 0,
        statusLine (some s) = String.ofList (' ' :: s.pc.place ++ ' ' :: field
          ++ Decimal.digits s.cycles ++ " cycles".toList) ∧
        field = ((s.next.map Instruction.text).getD "???").toList ++ List.replicate blanks ' ' ∧
        field.length = 16) ∧
      ∀ i : Instruction, i.text.length < 16 ∧ i.text ≠ "???" := by
  refine ⟨fun s t => ⟨fun h => ?_, ?_⟩, fun s => ?_, fun i => ⟨?_, fun h => ?_⟩⟩
  · obtain ⟨hpc, hnext, hcycles⟩ := chars_inj (String.ofList_injective h)
    exact ⟨hpc, (shownInstruction_eq_iff _ _).1 hnext, hcycles⟩
  · rintro ⟨hpc, hnext, hcycles⟩
    rw [statusLine, statusLine, chars, chars, hpc, hcycles, (shownInstruction_eq_iff _ _).2 hnext]
  · have hshown : ((s.next.map Instruction.text).getD "???").toList = shownInstruction s.next := by
      cases s.next with
      | none => rfl
      | some i => simp [Instruction.text, shownInstruction]
    refine ⟨s.field, _, Nat.sub_pos_of_lt (length_shownInstruction_lt s.next), rfl, ?_,
      s.length_field⟩
    rw [hshown]
    rfl
  · rw [Instruction.text, String.length_ofList]
    exact Nat.lt_of_le_of_lt i.length_text_le (by decide)
  · exact i.statement.text_ne_unknown (by simpa [Instruction.text] using congrArg String.toList h)

/-- A place of four digits and a text of fourteen characters. -/
example : statusLine (some ⟨0x1000, some (.draw 0xA 0xB 15), 7⟩) =
    " 0x1000 DRW VA, VB, 15  7 cycles" := by decide +kernel

end Status

end ChipEight
