import ChipEight.Proofs.Bus.Blocks
import ChipEight.Proofs.Machine.Operation
import ChipEight.Proofs.Machine.WriteSet

/-!
# Loading a program

A program is copied into plain memory past the picture and the keypad, so that the bus holds it from
`0x200` on and is read elsewhere as before.  One that fits is loaded and started as a whole
(`loaded_of_fits`), and one that does not fit is refused before anything has changed.  Main
statement: `loading_all_or_nothing`.
-/

namespace ChipEight

/-- The size and the limit are in the message. -/
theorem Fault.message_imageTooLarge (size : Nat) :
    (imageTooLarge size 3584).message =
      "ROM is too large (" ++ Decimal.text size ++ " bytes), max size is 3584 bytes" := by
  have hcapacity : Decimal.text 3584 = "3584" := by cbv
  have hlimit : " bytes), max size is " ++ ("3584" ++ " bytes") =
      " bytes), max size is 3584 bytes" := by decide
  show "ROM is too large (" ++ Decimal.text size ++ " bytes), max size is " ++
    Decimal.text 3584 ++ " bytes" = _
  rw [hcapacity, String.append_assoc, String.append_assoc, hlimit]

namespace Bus

variable {image : Array Byte} {b b' : Bus}

theorem view_loadProgram_word (h : b.loadProgram image = .ok b') :
    b'.view = b.view.overlay (0x200 : Word).toNat image.toList.toArray := by
  rw [Array.toArray_toList]
  exact view_loadProgram h

theorem holds_loadProgram (h : b.loadProgram image = .ok b') : b'.Holds 0x200 image.toList := by
  refine holds_of_view (view_loadProgram_word h) ?_
  have hsize := (loadProgram_eq_ok h).1
  have hstart : (0x200 : Word).toNat = 0x200 := rfl
  unfold programCapacity at hsize
  rw [Array.length_toList]
  omega

theorem read_loadProgram_of_not_mem (h : b.loadProgram image = .ok b') {a : Word}
    (ha : a.toNat < 0x200 ∨ 0x200 + image.size ≤ a.toNat) : b'.read a = b.read a := by
  refine read_of_view (view_loadProgram_word h) ?_
  have hstart : (0x200 : Word).toNat = 0x200 := rfl
  rw [Array.length_toList]
  omega

end Bus

namespace Machine

variable {image : Array Byte} {m : Machine}

/-- `m'` is `m` with a program loaded and about to start. -/
structure Loaded (image : Array Byte) (m m' : Machine) : Prop where
  /-- The bus shows the program. -/
  shown (k : Nat) (h : k < image.size) : m'.bus.read (0x200 + BitVec.ofNat 16 k) = .ok image[k]
  /-- Two bytes of the program are fetched as a word, high byte first. -/
  fetched (j : Nat) (h : 2 * j + 1 < image.size) :
    (m'.goTo (0x200 + BitVec.ofNat 16 (2 * j))).fetch =
      .ok (.ofBytes image[2 * j] image[2 * j + 1])
  started : m'.pc = 0x200
  /-- Outside the program the bus shows what it showed. -/
  elsewhere (a : Word) (h : a.toNat < 0x200 ∨ 0x200 + image.size ≤ a.toNat) :
    m'.bus.read a = m.bus.read a
  /-- Nothing but the counter and the memory of the program has changed. -/
  kept (p : Part) (hpc : p ≠ .pc)
    (hmemory : ∀ a, p = .memory a → a.val < 0x200 ∨ 0x200 + image.size ≤ a.val) : p.Agree m m'

theorem withMemory_confined {memory : Bank 4096} {p : Part}
    (h : ∀ a, p = .memory a → memory.byteAt a = m.bus.memory.byteAt a) :
    p.Agree m (m.withBus { m.bus with memory }) := by
  cases p with
  | memory a => exact h a rfl
  | pc | index | delay | sound | stack | register | display | keypad => rfl

theorem loaded_goTo {b : Bus} (h : m.bus.loadProgram image = .ok b) :
    m.Loaded image ((m.withBus b).goTo 0x200) where
  shown k hk := by
    have hbyte := Bus.holds_loadProgram h k (by rwa [Array.length_toList])
    rwa [Array.getElem_toList] at hbyte
  fetched j hj := by
    have hword := Bus.readWord_of_holds (Bus.holds_loadProgram h) (k := 2 * j)
      (by rwa [Array.length_toList])
    rwa [Array.getElem_toList, Array.getElem_toList] at hword
  started := rfl
  elsewhere a ha := Bus.read_loadProgram_of_not_mem h ha
  kept p hpc hmemory := by
    refine Part.Agree.trans ?_ ((goTo_confined (m.withBus b) p 0x200).resolve_left hpc)
    rw [(Bus.loadProgram_eq_ok h).2]
    exact withMemory_confined fun a ha =>
      Bank.getElem_overlay_of_not_mem _ _ _ a.val a.isLt (hmemory a ha)

theorem loaded_of_fits (h : image.size ≤ 3584) (m : Machine) :
    ∃ m', m.loadProgram image = .ok m' ∧ m.Loaded image m' := by
  obtain ⟨b, hbus⟩ : ∃ b, m.bus.loadProgram image = .ok b := ⟨_, if_pos h⟩
  refine ⟨(m.withBus b).goTo 0x200, ?_, loaded_goTo hbus⟩
  unfold loadProgram
  rw [hbus]
  rfl

theorem loadProgram_of_too_large (h : 3584 < image.size) (m : Machine) :
    m.loadProgram image = .error (.imageTooLarge image.size 3584) := by
  have hbus : m.bus.loadProgram image = .error (.imageTooLarge image.size 3584) :=
    if_neg (Nat.not_le.2 h)
  unfold loadProgram
  rw [hbus]

/-- **All or nothing.**  A program is loaded just if it has at most 3584 bytes.  Then the bus shows
it from `0x200` on, also to the fetch of its words, the machine is about to start it, and everything
else is as it was, the changes of the picture that wait to be shown included.  Else the fault tells
the size and the limit, and nothing has changed. -/
theorem loading_all_or_nothing (image : Array Byte) (m : Machine) :
    let r := m.respond (.load image)
    (r.fault = none ↔ image.size ≤ 3584) ∧
      (image.size ≤ 3584 → m.Loaded image r.value) ∧
      (3584 < image.size → r.value = m ∧ r.fault = some (.imageTooLarge image.size 3584) ∧
        (Fault.imageTooLarge image.size 3584).message = "ROM is too large (" ++
          Decimal.text image.size ++ " bytes), max size is 3584 bytes") := by
  intro r
  rcases Nat.lt_or_ge 3584 image.size with hlarge | hfits
  · have hr : r = .refusal m (.imageTooLarge image.size 3584) := by
      show Response.ofOutcome (.ofExcept m (m.loadProgram image)) = _
      rw [loadProgram_of_too_large hlarge]
      rfl
    rw [hr]
    have hnot : ¬ image.size ≤ 3584 := Nat.not_le.2 hlarge
    exact ⟨⟨fun h => (nomatch h), fun hfits => absurd hfits hnot⟩, fun hfits => absurd hfits hnot,
      fun _ => ⟨rfl, rfl, Fault.message_imageTooLarge image.size⟩⟩
  · obtain ⟨m', hload, hloaded⟩ := loaded_of_fits hfits m
    have hr : r = .answer m' .done := by
      show Response.ofOutcome (.ofExcept m (m.loadProgram image)) = _
      rw [hload]
      rfl
    rw [hr]
    exact ⟨iff_of_true rfl hfits, fun _ => hloaded,
      fun hlarge => absurd hlarge (Nat.not_lt.2 hfits)⟩

end Machine

end ChipEight
