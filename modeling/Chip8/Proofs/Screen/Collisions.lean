import Chip8.Proofs.Machine.Successors
import Chip8.Proofs.Screen.Drawing

/-!
# Collisions

A draw collides if it toggles a pixel that is on when its turn comes. Such a pixel was on
before the draw, or the draw itself has turned it on: only a sprite that is higher than the
screen comes back to a pixel. A sprite that is not finds every pixel as it was, so it
collides exactly if it turns a pixel off.
-/
namespace Chip8

namespace Screen

variable {s : Screen}

/-! ### Pixels that are on when their turn comes -/

/-- Toggling these pixels comes to this one while it is on. -/
def Hits (s : Screen) (ps : List Pixel) (p : Pixel) : Prop :=
  s.pixels.read p = true ∧ 1 ≤ ps.count p ∨ 2 ≤ ps.count p

/-- Once a pixel has been toggled, a pixel that was off needs one turn less. -/
theorem hits_cons (s : Screen) (q : Pixel) (rest : List Pixel) (p : Pixel) :
    s.Hits (q :: rest) p ↔
      q = p ∧ s.pixels.read p = true ∨ (s.togglePixel q).2.Hits rest p := by
  unfold Hits
  rw [read_togglePixel, List.count_cons]
  by_cases same : q = p
  · cases on : s.pixels.read p with
    | false =>
      simp only [same, beq_self_eq_true, if_true, Bool.not_false, Bool.false_eq_true,
        and_false, true_and, false_and, false_or]
      omega
    | true => simp [same]
  · simp [same]

theorem hit_toggleAll (s : Screen) (ps : List Pixel) :
    (s.toggleAll ps).1 = true ↔ ∃ p, s.Hits ps p := by
  induction ps generalizing s with
  | nil => simp [toggleAll, Hits]
  | cons q rest ih =>
    simp only [toggleAll, Bool.or_eq_true, ih, hits_cons, exists_or, exists_eq_left']
    rfl

theorem hit_draw (s : Screen) (sprite : Sprite) :
    (s.draw sprite.x sprite.y sprite.rows).1 = true ↔
      ∃ p, s.pixels.read p = true ∧ 1 ≤ sprite.coverage p ∨ 2 ≤ sprite.coverage p := by
  have hit := s.hit_toggleAll (spritePixels sprite.x.toNat sprite.y.toNat sprite.rows)
  simp only [Hits, count_spritePixels] at hit
  exact hit

/-! ### Sprites that fit on the screen -/

theorem ofXY_inj {x y column row : Nat} (same : Pixel.ofXY x y = Pixel.ofXY column row) :
    x % 64 = column % 64 ∧ y % 32 = row % 32 := by
  have place := congrArg Fin.val same
  simp only [Pixel.ofXY, Pixel.width, Pixel.height] at place
  omega

/-- The bits of a sprite that is not higher than the screen fall on different pixels. -/
theorem coverage_le_one {sprite : Sprite} (fits : sprite.rows.length ≤ Pixel.height) (p : Pixel) :
    sprite.coverage p ≤ 1 := by
  unfold Sprite.coverage
  rw [← Finset.sum_product', Finset.univ_product_univ, ← Finset.card_filter, Finset.card_le_one]
  rintro ⟨line, column⟩ here ⟨other, bit⟩ there
  simp only [Finset.mem_filter, Finset.mem_univ, true_and] at here there
  obtain ⟨columns, lines⟩ := ofXY_inj (here.2.trans there.2.symm)
  have short : sprite.rows.length ≤ 32 := fits
  ext
  · show line.val = other.val
    omega
  · show column.val = bit.val
    omega

theorem hit_iff_turned_off {sprite : Sprite} (fits : sprite.rows.length ≤ Pixel.height) :
    (s.draw sprite.x sprite.y sprite.rows).1 = true ↔
      ∃ p, s.pixels.read p = true ∧
        (s.draw sprite.x sprite.y sprite.rows).2.pixels.read p = false := by
  rw [hit_draw]
  refine exists_congr fun p => ?_
  have once := coverage_le_one fits p
  rw [read_draw]
  constructor
  · rintro (⟨on, covered⟩ | twice)
    · have single : sprite.coverage p = 1 := Nat.le_antisymm once covered
      exact ⟨on, by simp [on, single]⟩
    · omega
  · rintro ⟨on, off⟩
    simp only [on, Bool.true_xor, Bool.not_eq_false', decide_eq_true_eq] at off
    obtain ⟨half, odd⟩ := off
    exact Or.inl ⟨on, by omega⟩

end Screen

/-! ### Draws by an instruction -/

namespace Machine

/-- The sprite of a draw: the rows are in memory from the index register on, and the two
registers tell the place. -/
def sprite (m : Machine) (x y : UInt64) (n : UInt8) : Sprite where
  x := m.registers.operand x
  y := m.registers.operand y
  rows := (List.range n.toNat).map fun j => m.memory.byte (m.registers.i.toNat + j)

theorem length_rows_sprite (m : Machine) (x y : UInt64) (n : UInt8) :
    (m.sprite x y n).rows.length = n.toNat := by
  rw [sprite, List.length_map, List.length_range]

/-- The machine that the draw leaves, if only memory has the rows. -/
theorem execute_draw_of_inside {m : Machine} {x y : UInt64} {n : UInt8} (first : x.toNat < 16)
    (second : y.toNat < 16)
    (inside : ∀ j < n.toNat, (m.registers.i.toNat + j) % memorySize < m.memory.size)
    (random : UInt8) :
    let sprite := m.sprite x y n
    let drawn := m.screen.draw sprite.x sprite.y sprite.rows
    m.execute random (.draw x y n) =
      (.ok .done, { m with
        screen := drawn.2
        registers := m.registers.setV Registers.vF (if drawn.1 then 1 else 0) }) := by
  intro sprite drawn
  have read := Memory.readBytes_of_inside inside
  rw [execute_draw m random x y n first second]
  simp only [executeDraw, read, drawn, sprite, Machine.sprite, m.registers.operand_eq first,
    m.registers.operand_eq second]
  rfl

end Machine

/-- A draw turns over the pixels on which an odd number of set bits fall. It collides if one of
them falls on a pixel that was on, or two on the same pixel; for a sprite that is not higher
than the screen this is to say that it turns a pixel off. An instruction draws the rows that
memory has at the index register at the place that its registers tell, and then tells in vF
whether it has turned a pixel off, also if vF told the place. -/
theorem draws_pixel_by_pixel :
    (∀ (s : Screen) (sprite : Sprite),
      let drawn := s.draw sprite.x sprite.y sprite.rows
      (∀ p, drawn.2.pixels.read p = (s.pixels.read p ^^ decide (Odd (sprite.coverage p)))) ∧
      (drawn.1 = true ↔
        ∃ p, s.pixels.read p = true ∧ 1 ≤ sprite.coverage p ∨ 2 ≤ sprite.coverage p) ∧
      (sprite.rows.length ≤ 32 →
        (drawn.1 = true ↔ ∃ p, s.pixels.read p = true ∧ drawn.2.pixels.read p = false))) ∧
    ∀ w x y n, Instruction.decode w = some (.draw x y n) → ∀ (m : Machine) random,
      (∀ j < n.toNat, (m.registers.i.toNat + j) % 4096 < m.memory.size) →
      let sprite := m.sprite x y n
      let drawn := m.screen.draw sprite.x sprite.y sprite.rows
      m.execute random (.draw x y n) =
        (.ok .done, { m with
          screen := drawn.2
          registers := m.registers.setV Registers.vF (if drawn.1 then 1 else 0) }) ∧
      (drawn.1 = true ↔
        ∃ p, m.screen.pixels.read p = true ∧ drawn.2.pixels.read p = false) := by
  refine ⟨fun s sprite => ⟨s.read_draw sprite, s.hit_draw sprite, Screen.hit_iff_turned_off⟩, ?_⟩
  intro w x y n decoded m random inside sprite drawn
  have narrow := Instruction.narrow_of_decode decoded
  refine ⟨Machine.execute_draw_of_inside narrow.x narrow.y inside random, ?_⟩
  apply Screen.hit_iff_turned_off
  -- A row count is a single digit.
  have digit : n.toNat < 16 := narrow.n
  rw [Machine.length_rows_sprite, Pixel.height]
  omega

/-- On a blank screen there is nothing to turn off. A sprite of thirty-two rows does not collide
there, while one of thirty-three rows collides with itself. A draw without rows clears vF, even
though vF tells its place. -/
theorem thirty_third_row_collides :
    let full : Sprite := ⟨63, 255, List.replicate 32 0xff⟩
    let tall : Sprite := ⟨63, 255, List.replicate 33 0xff⟩
    let m : Machine := { registers := { v := .fill 16 200 } }
    full.rows.length ≤ 32 ∧
      (Screen.blank.draw full.x full.y full.rows).1 = false ∧
      (Screen.blank.draw tall.x tall.y tall.rows).1 = true ∧
      Instruction.decode 0xdff0 = some (.draw 15 15 0) ∧
      ∃ screen, m.execute 0 (.draw 15 15 0) =
        (.ok .done, { m with screen, registers := m.registers.setV Registers.vF 0 }) := by
  intro full tall m
  obtain ⟨screens, instructions⟩ := draws_pixel_by_pixel
  have nothing (t : Screen) :
      ¬ ∃ p, Screen.blank.pixels.read p = true ∧ t.pixels.read p = false := by
    rintro ⟨p, on, -⟩
    exact Bool.noConfusion ((Cells.read_fill false p).symm.trans on)
  have low : full.rows.length ≤ 32 := by decide
  have twice : 2 ≤ tall.coverage (Pixel.ofXY 63 31) := by decide +kernel
  obtain ⟨-, -, turned⟩ := screens Screen.blank full
  obtain ⟨-, collided, -⟩ := screens Screen.blank tall
  have word : Instruction.decode 0xdff0 = some (.draw 15 15 0) := by rfl
  have inside : ∀ j < (0 : UInt8).toNat, (m.registers.i.toNat + j) % 4096 < m.memory.size :=
    fun j below => absurd below (Nat.not_lt_zero j)
  obtain ⟨executed, hit⟩ := instructions _ _ _ _ word m 0 inside
  rw [if_neg (mt hit.mp (nothing _))] at executed
  exact ⟨low, Bool.eq_false_iff.mpr (mt (turned low).mp (nothing _)),
    collided.mpr ⟨Pixel.ofXY 63 31, Or.inr twice⟩, word, _, executed⟩

end Chip8
