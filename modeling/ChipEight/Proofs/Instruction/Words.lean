import ChipEight.Proofs.Checked.Encoding

/-!
# Words and instructions

`Word.Assigned` lists the words that are instructions, family by family, and does so without reading
or writing any.

1. Taken apart again, a word that was put together gives back its fields, so reading undoes writing
   (`ofWord?_encode`).
2. A word is put together from its own fields, so writing undoes reading (`encode_of_ofWord?`).
3. Every instruction is written as an assigned word, and every assigned word is read
   (`exists_ofWord?_iff`).
-/

namespace ChipEight

/-- The families in which the rest of a word may be anything. -/
def Word.wholeFamilies : List Nibble := [0x1, 0x2, 0x3, 0x4, 0x6, 0x7, 0xA, 0xB, 0xC, 0xD]

/-- The words that stand for an instruction. -/
inductive Word.Assigned : Word → Prop where
  | clear : Assigned 0x00E0
  | ret : Assigned 0x00EE
  | whole {family : Nibble} (h : family ∈ wholeFamilies) (rest : Address) :
      Assigned (family ++ rest)
  | registers {family : Nibble} (h : family ∈ [0x5, 0x9]) (x y : Nibble) :
      Assigned (.ofNibbles family x y 0x0)
  | combine {last : Nibble} (h : last ≤ 0x7 ∨ last = 0xE) (x y : Nibble) :
      Assigned (.ofNibbles 0x8 x y last)
  | key {low : Byte} (h : low ∈ [0x9E, 0xA1]) (x : Nibble) : Assigned (0xE#4 ++ x ++ low)
  | service {low : Byte} (h : low ∈ [0x07, 0x0A, 0x15, 0x18, 0x1E, 0x29, 0x33, 0x55, 0x65])
      (x : Nibble) : Assigned (0xF#4 ++ x ++ low)

namespace Instruction

variable {w : Word} {i : Instruction}

/-! ## Fields of a word that was put together -/

theorem nibbles_constantWord (family x : Nibble) (n : Byte) :
    (constantWord family x n).nibbles = (family, x, n.extractLsb' 4 4, n.extractLsb' 0 4) := by
  simp only [Word.nibbles, constantWord, Prod.mk.injEq]
  refine ⟨?_, ?_, ?_, ?_⟩ <;>
    (apply BitVec.eq_of_getLsbD_eq; intro i hi
     simp only [BitVec.getLsbD_append, BitVec.getLsbD_extractLsb']; grind)

theorem nibbles_addressWord (family : Nibble) (target : Address) :
    (addressWord family target).nibbles =
      (family, target.extractLsb' 8 4, target.extractLsb' 4 4, target.extractLsb' 0 4) := by
  simp only [Word.nibbles, addressWord, Prod.mk.injEq]
  refine ⟨?_, ?_, ?_, ?_⟩ <;>
    (apply BitVec.eq_of_getLsbD_eq; intro i hi
     simp only [BitVec.getLsbD_append, BitVec.getLsbD_extractLsb']; grind)

theorem lowByte_constantWord (family x : Nibble) (n : Byte) :
    (constantWord family x n).lowByte = n := BitVec.setWidth_append_eq_right

theorem address_addressWord (family : Nibble) (target : Address) :
    (addressWord family target).address = target := BitVec.setWidth_append_eq_right

/-! ## Reading undoes writing -/

theorem ofWord?_serviceWord (x : Nibble) (low : Byte) :
    ofWord? (constantWord 0xF x low) = ofServiceWord? x low := by
  simp only [ofWord?, nibbles_constantWord, lowByte_constantWord]
  rfl

theorem ofWord?_encode (i : Instruction) : ofWord? i.encode = some i := by
  cases i with
  | clear | ret => rfl
  | jump target | call target | point target | jumpOffset target =>
    simp only [encode, ofWord?, nibbles_addressWord, address_addressWord, BitVec.ofNat_eq_ofNat]
  | load x n | addByte x n | random x n =>
    simp only [encode, ofWord?, nibbles_constantWord, lowByte_constantWord, BitVec.ofNat_eq_ofNat]
  | skip test =>
    cases test with
    | equalsByte x n | differsByte x n | keyDown x | keyUp x =>
      simp only [encode, ofWord?, nibbles_constantWord, lowByte_constantWord, BitVec.ofNat_eq_ofNat,
        ofKeyWord?]
    | equals x y | differs x y =>
      simp only [encode, ofWord?, Word.nibbles_ofNibbles, BitVec.ofNat_eq_ofNat, if_true]
  | combine op x y =>
    simp only [encode, ofWord?, Word.nibbles_ofNibbles, RegisterOp.ofSelector?_selector,
      Option.map_some, BitVec.ofNat_eq_ofNat]
  | draw x y height =>
    simp only [encode, ofWord?, Word.nibbles_ofNibbles, BitVec.ofNat_eq_ofNat]
  | advance x | awaitKey x | readDelay x | setDelay x | setSound x | pointGlyph x | storeDecimal x
  | storeRegisters x | loadRegisters x => exact ofWord?_serviceWord x _

/-! ## Writing undoes reading -/

theorem constantWord_fields (w : Word) :
    constantWord w.nibbles.1 w.nibbles.2.1 w.lowByte = w := by
  have hhigh : w.extractLsb' 12 4 ++ w.extractLsb' 8 4 = w.extractLsb' 8 8 :=
    BitVec.extractLsb'_append_extractLsb'_eq_extractLsb' rfl
  unfold constantWord Word.nibbles Word.lowByte
  rw [hhigh, BitVec.setWidth_eq_extractLsb' (by decide)]
  exact BitVec.extractLsb'_append_extractLsb'

theorem addressWord_fields (w : Word) : addressWord w.nibbles.1 w.address = w := by
  unfold addressWord Word.nibbles Word.address
  rw [BitVec.setWidth_eq_extractLsb' (by decide)]
  exact BitVec.extractLsb'_append_extractLsb'

theorem encode_of_ofSystemWord? {rest : Address} (h : ofSystemWord? rest = some i) :
    i.encode = addressWord 0x0 rest := by
  unfold ofSystemWord? at h
  split at h
  all_goals cases h
  all_goals rfl

theorem encode_of_ofKeyWord? {x : Nibble} {low : Byte} (h : ofKeyWord? x low = some i) :
    i.encode = constantWord 0xE x low := by
  unfold ofKeyWord? at h
  split at h
  all_goals cases h
  all_goals rfl

theorem encode_of_ofServiceWord? {x : Nibble} {low : Byte} (h : ofServiceWord? x low = some i) :
    i.encode = constantWord 0xF x low := by
  unfold ofServiceWord? at h
  split at h
  all_goals cases h
  all_goals rfl

theorem mem_families : ∀ family : Nibble,
    family ∈ [0x0#4, 0x1#4, 0x2#4, 0x3#4, 0x4#4, 0x5#4, 0x6#4, 0x7#4, 0x8#4, 0x9#4, 0xA#4, 0xB#4,
      0xC#4, 0xD#4, 0xE#4] ∨ family = 0xF#4 := by decide

theorem encode_of_ofWord? (h : ofWord? w = some i) : i.encode = w := by
  have hconstant := constantWord_fields w
  have haddress := addressWord_fields w
  have hnibbles := Word.ofNibbles_nibbles w
  unfold ofWord? at h
  generalize w.nibbles = fields at h hconstant haddress hnibbles
  obtain ⟨family, x, y, last⟩ := fields
  simp only at h hconstant haddress hnibbles
  -- the cases are the families from 0 to F, so `h_1` is family 0
  split at h
  case h_1 => exact (encode_of_ofSystemWord? h).trans haddress
  case h_2 | h_3 | h_11 | h_12 => exact Option.some.inj h ▸ haddress
  case h_4 | h_5 | h_7 | h_8 | h_13 => exact Option.some.inj h ▸ hconstant
  case h_6 | h_10 =>
    split at h
    · rename_i hlast
      subst hlast
      exact Option.some.inj h ▸ hnibbles
    · cases h
  case h_9 =>
    obtain ⟨op, hop, rfl⟩ := Option.map_eq_some_iff.1 h
    rw [RegisterOp.ofSelector?_eq_some_iff] at hop
    subst hop
    exact hnibbles
  case h_14 => exact Option.some.inj h ▸ hnibbles
  case h_15 => exact (encode_of_ofKeyWord? h).trans hconstant
  case h_16 =>
    rcases mem_families family with hother | rfl
    · simp_all [imp_false]
    · exact (encode_of_ofServiceWord? h).trans hconstant

/-! ## The assigned words -/

theorem assigned_of_nibbles {family x y last : Nibble} (h : w.nibbles = (family, x, y, last))
    (hfamily : family ∈ Word.wholeFamilies) : w.Assigned := by
  have hword := addressWord_fields w
  rw [h] at hword
  rw [← hword]
  exact .whole hfamily w.address

theorem assigned_encode (i : Instruction) : i.encode.Assigned := by
  cases i with
  | clear => exact .clear
  | ret => exact .ret
  | jump target | call target | point target | jumpOffset target => exact .whole (by decide) target
  | load x n | addByte x n | random x n =>
    exact assigned_of_nibbles (nibbles_constantWord _ x n) (by decide)
  | skip test =>
    cases test with
    | equalsByte x n | differsByte x n =>
      exact assigned_of_nibbles (nibbles_constantWord _ x n) (by decide)
    | equals x y | differs x y => exact .registers (by decide) x y
    | keyDown x | keyUp x => exact .key (by decide) x
  | combine op x y =>
    have hselector : op.selector ≤ 0x7 ∨ op.selector = 0xE := by cases op <;> decide
    exact .combine hselector x y
  | draw x y height => exact assigned_of_nibbles (Word.nibbles_ofNibbles _ x y height) (by decide)
  | advance x | awaitKey x | readDelay x | setDelay x | setSound x | pointGlyph x | storeDecimal x
  | storeRegisters x | loadRegisters x => exact .service (by decide) x

theorem exists_selector : ∀ last : Nibble, last ≤ 0x7 ∨ last = 0xE →
    (RegisterOp.ofSelector? last).isSome := by decide

theorem exists_ofWord?_of_assigned (h : w.Assigned) : ∃ i, ofWord? w = some i := by
  cases h with
  | clear => exact ⟨clear, rfl⟩
  | ret => exact ⟨ret, rfl⟩
  | @whole family h rest =>
    show ∃ i, ofWord? (addressWord family rest) = some i
    unfold ofWord?
    rw [nibbles_addressWord]
    simp only [Word.wholeFamilies, List.mem_cons, List.not_mem_nil, or_false] at h
    rcases h with rfl | rfl | rfl | rfl | rfl | rfl | rfl | rfl | rfl | rfl
    all_goals exact ⟨_, rfl⟩
  | registers h x y =>
    simp only [List.mem_cons, List.not_mem_nil, or_false] at h
    rcases h with rfl | rfl
    · exact ⟨_, ofWord?_encode (skip (.equals x y))⟩
    · exact ⟨_, ofWord?_encode (skip (.differs x y))⟩
  | combine h x y =>
    obtain ⟨op, hop⟩ := Option.isSome_iff_exists.1 (exists_selector _ h)
    rw [← (RegisterOp.ofSelector?_eq_some_iff _ op).1 hop]
    exact ⟨_, ofWord?_encode (combine op x y)⟩
  | key h x =>
    simp only [List.mem_cons, List.not_mem_nil, or_false] at h
    rcases h with rfl | rfl
    · exact ⟨_, ofWord?_encode (skip (.keyDown x))⟩
    · exact ⟨_, ofWord?_encode (skip (.keyUp x))⟩
  | service h x =>
    simp only [List.mem_cons, List.not_mem_nil, or_false] at h
    rcases h with rfl | rfl | rfl | rfl | rfl | rfl | rfl | rfl | rfl
    all_goals exact ⟨_, ofWord?_serviceWord x _⟩

theorem exists_ofWord?_iff : (∃ i, ofWord? w = some i) ↔ w.Assigned := by
  constructor
  · rintro ⟨i, hi⟩
    rw [← encode_of_ofWord? hi]
    exact assigned_encode i
  · exact exists_ofWord?_of_assigned

/-- **Instruction words.**  Reading and writing undo each other, the assigned words are those that
are read, a word that is not assigned is named in the fault, and writing does not trap. -/
theorem decode_inverts_encode :
    (∀ i : Instruction, decode i.encode = .ok i) ∧
      (∀ w i, decode w = .ok i → i.encode = w) ∧
      (∀ w, (∃ i, decode w = .ok i) ↔ w.Assigned) ∧
      (∀ w, ¬ w.Assigned → decode w = .error (.unknownInstruction w)) ∧
      ∀ i, Checked.encode? i = some i.encode := by
  refine ⟨fun i => ?_, fun w i h => ?_, fun w => ?_, fun w h => ?_, Checked.encode?_eq⟩
  · rw [decode_eq_ok_iff]
    exact ofWord?_encode i
  · rw [decode_eq_ok_iff] at h
    exact encode_of_ofWord? h
  · simp only [decode_eq_ok_iff]
    exact exists_ofWord?_iff
  · rw [decode_eq_error_iff]
    refine ⟨?_, rfl⟩
    rw [← exists_ofWord?_iff, not_exists] at h
    exact Option.eq_none_iff_forall_ne_some.2 h

end Instruction

end ChipEight
