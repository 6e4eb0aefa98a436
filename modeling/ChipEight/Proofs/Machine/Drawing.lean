import ChipEight.Proofs.Display.Cancellation
import ChipEight.Proofs.Display.Torus
import ChipEight.Proofs.Machine.Faults
import ChipEight.Proofs.Machine.WriteSet

/-!
# Drawing from memory

The rows of a sprite may lie anywhere in memory, also in the picture that is drawn on, and register
F, which receives the flag, may give a coordinate.

1. What is drawn are the bytes that were shown at the index before (`draw_of_fault_none`), and
   nothing but the picture and the flag changes (`drawn_withSprite`).
2. Rows outside the picture, with coordinates outside register F, are found again where they were,
   so drawing twice gives the picture back (`draw_again`).
-/

namespace ChipEight

namespace Machine

open Display (WentDark bitsOn)

variable {x y height : Nibble} {m m' : Machine} {rows : List Byte}

/-- `rows` are the bytes that `m` shows at its index and at the addresses after it. -/
def ShowsRows (m : Machine) (rows : List Byte) : Prop :=
  ∀ (k : Nat) (_ : k < rows.length), m.bus.view[m.index.toNat + k]? = some rows[k]

/-- `m'` is `m` with `rows` drawn at the corner that registers `x` and `y` of `m` give. -/
structure Drawn (x y : Nibble) (rows : List Byte) (m m' : Machine) : Prop where
  /-- Each pixel is inverted as often as set bits fall on it. -/
  pixel (column : Fin 64) (line : Fin 32) :
    m'.bus.display.pixel column line = (m.bus.display.pixel column line ^^
      decide ((bitsOn (m.reg x).toNat (m.reg y).toNat rows column line).card % 2 = 1))
  /-- The flag is set if a pixel was turned off. -/
  flag_one : m.bus.display.WentDark m'.bus.display → m'.reg flagRegister = 1
  /-- The flag is clear if none was. -/
  flag_zero : ¬ m.bus.display.WentDark m'.bus.display → m'.reg flagRegister = 0
  /-- All else is as it was. -/
  kept (p : Part) (hdisplay : p ≠ .display) (hflag : p ≠ .register flagRegister) : p.Agree m m'

/-! ## The rows -/

/-- Rows that are shown again at the same addresses are the same. -/
theorem ShowsRows.eq {rows' : List Byte} (h : m.ShowsRows rows) (h' : m'.ShowsRows rows')
    (hlength : rows'.length = rows.length)
    (hview : ∀ k < rows.length,
      m'.bus.view[m'.index.toNat + k]? = m.bus.view[m.index.toNat + k]?) : rows' = rows := by
  apply List.ext_getElem hlength
  intro k hk' hk
  apply Option.some.inj
  rw [← h k hk, ← h' k hk', hview k hk]

theorem view_withDisplay_of_not_mem (d : Display) (b : Bus) {a : Nat}
    (h : a < 0x050 ∨ 0x150 ≤ a) : { b with display := d }.view[a]? = b.view[a]? := by
  by_cases ha : a < 4096
  · rw [Vector.getElem?_eq_getElem ha, Vector.getElem?_eq_getElem ha, Bus.getElem_view,
      Bus.getElem_view, Bus.cell_withDisplay d b h]
  · rw [Vector.getElem?_eq_none (by omega), Vector.getElem?_eq_none (by omega)]

/-! ## Drawing once -/

/-- The machine with `rows` drawn at the corner that registers `x` and `y` give. -/
def withSprite (x y : Nibble) (rows : List Byte) (m : Machine) : Machine :=
  let drawn := m.bus.display.blit (m.reg x) (m.reg y) rows
  (m.withBus { m.bus with display := drawn.1 }).setFlag drawn.2

theorem bus_withSprite (x y : Nibble) (rows : List Byte) (m : Machine) :
    (m.withSprite x y rows).bus =
      { m.bus with display := (m.bus.display.blit (m.reg x) (m.reg y) rows).1 } := rfl

theorem flag_withSprite (x y : Nibble) (rows : List Byte) (m : Machine) :
    (m.withSprite x y rows).reg flagRegister =
      if (m.bus.display.blit (m.reg x) (m.reg y) rows).2 then 1 else 0 := reg_setReg_self ..

theorem reg_withSprite_of_ne {z : Nibble} (h : z ≠ flagRegister) :
    (m.withSprite x y rows).reg z = m.reg z := reg_setReg_of_ne _ _ h

theorem draw_of_fault_none (h : (m.draw x y height).fault = none) :
    ∃ rows, rows.length = height.toNat ∧ m.ShowsRows rows ∧
      m.draw x y height = .success (m.withSprite x y rows) := by
  unfold draw at h ⊢
  cases hdraw : m.bus.draw (m.reg x) (m.reg y) m.index height.toNat with
  | error f =>
    rw [hdraw] at h
    cases h
  | ok drawn =>
    obtain ⟨rows, hrows, rfl⟩ := Bus.draw_eq_ok hdraw
    obtain ⟨hlength, hshows⟩ := Bus.loadAll_eq_ok hrows
    exact ⟨rows, hlength, hshows, rfl⟩

theorem drawn_withSprite (x y : Nibble) (h : rows.length ≤ 32) (m : Machine) :
    Drawn x y rows m (m.withSprite x y rows) where
  pixel column line :=
    Display.pixel_blitRows (m.reg x).toNat (m.reg y).toNat rows m.bus.display column line
  flag_one hdark := by
    rw [flag_withSprite, if_pos ((Display.erased_blit_iff_wentDark _ _ h _).2 hdark)]
  flag_zero hnone := by
    rw [flag_withSprite, if_neg fun herased =>
      hnone ((Display.erased_blit_iff_wentDark _ _ h _).1 herased)]
  kept p hdisplay hflag :=
    ((withDisplay_confined m p _).resolve_left hdisplay).trans
      ((setFlag_confined _ p _).resolve_left hflag)

/-! ## Drawing twice -/

/-- Rows that do not lie in the picture are found again. -/
theorem draw_again (hlength : rows.length = height.toNat) (hshows : m.ShowsRows rows)
    (houtside : ∀ k < height.toNat, m.index.toNat + k < 0x050 ∨ 0x150 ≤ m.index.toNat + k)
    (hfault : (m.draw x y height).fault = none) :
    (m.withSprite x y rows).draw x y height =
      .success ((m.withSprite x y rows).withSprite x y rows) := by
  have hfault' : ((m.withSprite x y rows).draw x y height).fault = none := by
    rw [fault_draw_eq] at hfault ⊢
    exact hfault
  obtain ⟨rows', hlength', hshows', hdraw⟩ := draw_of_fault_none hfault'
  have hrows : rows' = rows := by
    apply hshows.eq hshows' (hlength'.trans hlength.symm)
    intro k hk
    rw [hlength] at hk
    exact view_withDisplay_of_not_mem _ m.bus (houtside k hk)
  rw [hdraw, hrows]

theorem cells_withSprite_twice (hx : x ≠ flagRegister) (hy : y ≠ flagRegister) (m : Machine) :
    ((m.withSprite x y rows).withSprite x y rows).bus.display.cells = m.bus.display.cells := by
  rw [bus_withSprite, reg_withSprite_of_ne hx, reg_withSprite_of_ne hy]
  exact Display.cells_drawAll_delete ⟨m.reg x, m.reg y, rows⟩ [] [] [] m.bus.display

theorem flag_withSprite_twice (hx : x ≠ flagRegister) (hy : y ≠ flagRegister)
    (h : rows.length ≤ 32) (m : Machine) :
    ((m.withSprite x y rows).withSprite x y rows).reg flagRegister = 1 ↔
      ∃ column line, m.bus.display.pixel column line = false ∧
        (m.withSprite x y rows).bus.display.pixel column line = true := by
  have hagain : ((m.withSprite x y rows).bus.display.blit (m.reg x) (m.reg y) rows).2 = true ↔ _ :=
    Display.erased_again_iff ⟨m.reg x, m.reg y, rows⟩ h m.bus.display
  rw [flag_withSprite, reg_withSprite_of_ne hx, reg_withSprite_of_ne hy]
  refine Iff.trans ?_ hagain
  split
  · rename_i herased
    exact iff_of_true rfl herased
  · rename_i hnone
    exact iff_of_false (by decide) hnone

/-- **Drawing reads before it writes.**  A sprite of rows inside memory is drawn, and one without
rows only clears the flag.  What is drawn are the bytes shown at the index beforehand, at the corner
that the registers gave beforehand, and the flag tells whether a pixel went dark; all else is kept,
the changes that wait to be shown aside.  If neither coordinate is in register F and no row in the
picture, drawing again gives the picture back, and the flag tells whether a pixel was lit before. -/
theorem draw_reads_before_writing (noise : Byte) (x y height : Nibble) (m : Machine) :
    let once := m.perform noise (.draw x y height)
    (once.fault = none ↔ height = 0 ∨ m.index.toNat + height.toNat ≤ 0x1000) ∧
      (once.fault = none →
        ∃ rows, rows.length = height.toNat ∧ m.ShowsRows rows ∧ Drawn x y rows m once.value) ∧
      (height = 0 → once = .success (m.setFlag false)) ∧
      (x ≠ flagRegister → y ≠ flagRegister →
        (∀ k < height.toNat, m.index.toNat + k < 0x050 ∨ 0x150 ≤ m.index.toNat + k) →
        once.fault = none →
        ∀ noise' : Byte,
          let again := once.value.perform noise' (.draw x y height)
          again.fault = none ∧ again.value.bus.display.cells = m.bus.display.cells ∧
            (again.value.reg flagRegister = 1 ↔
              ∃ column line, m.bus.display.pixel column line = false ∧
                once.value.bus.display.pixel column line = true)) := by
  have hheight : height.toNat = 0 ↔ height = 0 :=
    ⟨fun h => BitVec.eq_of_toNat_eq h, fun h => by rw [h]; rfl⟩
  have hfits : (m.draw x y height).fault = none ↔
      height = 0 ∨ m.index.toNat + height.toNat ≤ 0x1000 := by
    rw [fault_draw_eq, Bus.rowFault_eq_none_iff, hheight]
  have hlimit : height.toNat ≤ 32 := Nat.le_trans (Nat.le_of_lt height.isLt) (by decide)
  simp only [perform]
  refine ⟨hfits, ?_, ?_, ?_⟩
  · intro hfault
    obtain ⟨rows, hlength, hshows, hdraw⟩ := draw_of_fault_none hfault
    rw [hdraw]
    exact ⟨rows, hlength, hshows, drawn_withSprite x y (hlength ▸ hlimit) m⟩
  · intro hzero
    obtain ⟨rows, hlength, -, hdraw⟩ := draw_of_fault_none (hfits.2 (Or.inl hzero))
    obtain rfl : rows = [] := List.eq_nil_of_length_eq_zero (hlength.trans (hheight.2 hzero))
    exact hdraw
  · intro hx hy houtside hfault _
    obtain ⟨rows, hlength, hshows, hdraw⟩ := draw_of_fault_none hfault
    rw [hdraw, Outcome.value_success, draw_again hlength hshows houtside hfault]
    exact ⟨rfl, cells_withSprite_twice hx hy m,
      flag_withSprite_twice hx hy (hlength ▸ hlimit) m⟩

end Machine

end ChipEight
