import Chip8.Screen
import Mathlib.Algebra.BigOperators.Fin
import Mathlib.Algebra.Group.Nat.Even

/-!
# Drawing is exclusive or

A draw turns a pixel over once for every set bit of its sprite that falls there. A sprite
that is higher than the screen may do so several times, and then only the parity counts. So
what a row of draws leaves is told by a sum over its sprites, pixel by pixel: their order
does not matter, two equal ones cancel out, and each may be moved by whole widths and
heights of the screen. Which draws collide does depend on their order, but on nothing that
has been drawn before a clear.
-/
namespace Chip8

/-- A sprite with the place of its upper left corner. -/
structure Sprite where
  x : UInt8
  y : UInt8
  rows : List UInt8
deriving DecidableEq, Repr

namespace Sprite

/-- The number of set bits of the sprite that fall on a pixel. -/
def coverage (sprite : Sprite) (p : Pixel) : Nat :=
  ∑ line : Fin sprite.rows.length, ∑ column : Fin 8,
    if sprite.rows[line].toNat.testBit (7 - column) ∧
      Pixel.ofXY (sprite.x.toNat + column) (sprite.y.toNat + line) = p then 1 else 0

/-- The same sprite with its corner on the screen. -/
def wrapped (sprite : Sprite) : Sprite :=
  { sprite with x := sprite.x % 64, y := sprite.y % 32 }

end Sprite

namespace Screen

/-- Draws sprites one after the other, with the collisions that they report. -/
def drawAll (s : Screen) : List Sprite → List Bool × Screen
  | [] => ([], s)
  | sprite :: rest =>
    let (hit, s) := s.draw sprite.x sprite.y sprite.rows
    let (hits, s) := s.drawAll rest
    (hit :: hits, s)

variable {s t : Screen} {sprites others : List Sprite}

/-! ### What one draw turns over -/

theorem count_map_filter_range (count : Nat) (bit : Nat → Bool) (pixel : Nat → Pixel) (p : Pixel) :
    (((List.range count).filter bit).map pixel).count p =
      ∑ column : Fin count, if bit column ∧ pixel column = p then 1 else 0 := by
  induction count with
  | zero => rfl
  | succ count ih =>
    rw [Fin.sum_univ_castSucc, List.range_succ, List.filter_append, List.map_append,
      List.count_append, ih]
    cases set : bit count with
    | false => simp [set]
    | true => simp [set, List.count_singleton]

theorem count_spritePixels (x y : Nat) (rows : List UInt8) (p : Pixel) :
    (spritePixels x y rows).count p =
      ∑ line : Fin rows.length, ∑ column : Fin 8,
        if rows[line].toNat.testBit (7 - column) ∧ Pixel.ofXY (x + column) (y + line) = p
        then 1 else 0 := by
  induction rows generalizing y with
  | nil => rfl
  | cons row rest ih =>
    rw [spritePixels, List.count_append, rowBits, count_map_filter_range, ih]
    refine Eq.trans ?_ (Fin.sum_univ_succ (n := rest.length) _).symm
    -- The rows below the first one are counted from the next line.
    have below (line : Nat) : y + 1 + line = y + (line + 1) := by omega
    simp only [below]
    rfl

theorem odd_add_eq (m n : Nat) : decide (Odd (m + n)) = (decide (Odd m) ^^ decide (Odd n)) := by
  by_cases first : Odd m <;> by_cases second : Odd n <;>
    simp [Nat.odd_add, first, second, ← Nat.not_odd_iff_even]

/-- A pixel that is toggled an odd number of times is turned over. -/
theorem read_toggleAll (s : Screen) (ps : List Pixel) (p : Pixel) :
    (s.toggleAll ps).2.pixels.read p = (s.pixels.read p ^^ decide (Odd (ps.count p))) := by
  induction ps generalizing s with
  | nil => simp [toggleAll]
  | cons q rest ih =>
    simp only [toggleAll]
    rw [ih, read_togglePixel, List.count_cons, odd_add_eq]
    by_cases same : q = p
    · simp [same]
    · simp [same]

theorem read_draw (s : Screen) (sprite : Sprite) (p : Pixel) :
    (s.draw sprite.x sprite.y sprite.rows).2.pixels.read p =
      (s.pixels.read p ^^ decide (Odd (sprite.coverage p))) := by
  have toggled := s.read_toggleAll (spritePixels sprite.x.toNat sprite.y.toNat sprite.rows) p
  rw [count_spritePixels] at toggled
  exact toggled

/-- A pixel's place depends on its coordinates only up to the size of the screen. -/
theorem ofXY_congr {x y column row : Nat} (columns : x % 64 = column % 64)
    (rows : y % 32 = row % 32) : Pixel.ofXY x y = Pixel.ofXY column row := by
  simp only [Pixel.ofXY, Pixel.width, Pixel.height, columns, rows]

theorem spritePixels_congr {x y column row : Nat} (columns : x % 64 = column % 64)
    (lines : y % 32 = row % 32) (rows : List UInt8) :
    spritePixels x y rows = spritePixels column row rows := by
  induction rows generalizing y row with
  | nil => rfl
  | cons bits rest ih =>
    have shifted (bit : Nat) : Pixel.ofXY (x + bit) y = Pixel.ofXY (column + bit) row :=
      ofXY_congr (by omega) lines
    simp only [spritePixels, shifted]
    rw [ih (show (y + 1) % 32 = (row + 1) % 32 by omega)]

theorem draw_wrapped (s : Screen) (sprite : Sprite) :
    s.draw sprite.wrapped.x sprite.wrapped.y sprite.wrapped.rows =
      s.draw sprite.x sprite.y sprite.rows := by
  have pixels : spritePixels (sprite.x % 64).toNat (sprite.y % 32).toNat sprite.rows =
      spritePixels sprite.x.toNat sprite.y.toNat sprite.rows := by
    apply spritePixels_congr
    · rw [UInt8.toNat_mod]
      exact Nat.mod_mod _ 64
    · rw [UInt8.toNat_mod]
      exact Nat.mod_mod _ 32
  simp only [draw, Sprite.wrapped, pixels]

/-! ### Draws in a row -/

theorem drawAll_append (s : Screen) (sprites others : List Sprite) :
    s.drawAll (sprites ++ others) =
      ((s.drawAll sprites).1 ++ ((s.drawAll sprites).2.drawAll others).1,
        ((s.drawAll sprites).2.drawAll others).2) := by
  induction sprites generalizing s with
  | nil => rfl
  | cons sprite rest ih =>
    simp only [List.cons_append, drawAll]
    rw [ih]

theorem read_drawAll (s : Screen) (sprites : List Sprite) (p : Pixel) :
    (s.drawAll sprites).2.pixels.read p =
      (s.pixels.read p ^^ decide (Odd (sprites.map (·.coverage p)).sum)) := by
  induction sprites generalizing s with
  | nil => simp [drawAll]
  | cons sprite rest ih =>
    simp only [drawAll]
    rw [ih, read_draw, List.map_cons, List.sum_cons, odd_add_eq, Bool.xor_assoc]

/-- Rows of draws that turn over the same pixels leave the same picture. -/
theorem pixels_drawAll_congr (s : Screen)
    (same : ∀ p, Odd (others.map (·.coverage p)).sum ↔ Odd (sprites.map (·.coverage p)).sum) :
    (s.drawAll others).2.pixels = (s.drawAll sprites).2.pixels := by
  apply Cells.ext
  intro p
  rw [read_drawAll, read_drawAll]
  simp only [same]

theorem pixels_drawAll_perm (s : Screen) (perm : others.Perm sprites) :
    (s.drawAll others).2.pixels = (s.drawAll sprites).2.pixels := by
  apply pixels_drawAll_congr
  intro p
  rw [(perm.map _).sum_nat]

theorem pixels_drawAll_cancel (s : Screen) (before between after : List Sprite) (sprite : Sprite) :
    (s.drawAll (before ++ sprite :: between ++ sprite :: after)).2.pixels =
      (s.drawAll (before ++ between ++ after)).2.pixels := by
  apply pixels_drawAll_congr
  intro p
  simp only [List.map_append, List.map_cons, List.sum_append, List.sum_cons, Nat.odd_iff]
  omega

theorem pixels_drawAll_twice (s : Screen) (perm : others.Perm sprites) :
    (s.drawAll (sprites ++ others)).2.pixels = s.pixels := by
  have none : (s.drawAll []).2.pixels = s.pixels := rfl
  rw [← none]
  apply pixels_drawAll_congr
  intro p
  rw [List.map_append, List.sum_append, (perm.map _).sum_nat, Nat.odd_iff, Nat.odd_iff]
  simp only [List.map_nil, List.sum_nil]
  omega

theorem drawAll_wrapped (s : Screen) (before after : List Sprite) (sprite : Sprite) :
    s.drawAll (before ++ sprite.wrapped :: after) = s.drawAll (before ++ sprite :: after) := by
  simp only [drawAll_append, drawAll, draw_wrapped]

/-- Screens with the same pixels report the same collisions and keep the same pixels. -/
theorem drawAll_congr (same : t.pixels = s.pixels) (sprites : List Sprite) :
    (t.drawAll sprites).1 = (s.drawAll sprites).1 ∧
      (t.drawAll sprites).2.pixels = (s.drawAll sprites).2.pixels := by
  induction sprites generalizing s t with
  | nil => exact ⟨rfl, same⟩
  | cons sprite rest ih =>
    obtain ⟨hit, pixels⟩ := toggleAll_congr same
      (spritePixels sprite.x.toNat sprite.y.toNat sprite.rows)
    have first : (t.draw sprite.x sprite.y sprite.rows).2.pixels =
      (s.draw sprite.x sprite.y sprite.rows).2.pixels := pixels
    obtain ⟨hits, later⟩ := ih first
    refine ⟨?_, later⟩
    exact congrArg₂ List.cons hit hits

/-- Draws act on the pixels by exclusive or. Each pixel is turned over as often as set bits
of the sprites fall on it, so the draws may be made in any order, and making them again, in
any order, takes them back. Two equal draws may be left out, and a sprite may be moved onto
the screen by whole widths and heights. After a clear it makes no difference what has been
drawn before, and on which screen. -/
theorem drawing_is_exclusive_or (s : Screen) (sprites : List Sprite) :
    (∀ p, (s.drawAll sprites).2.pixels.read p =
      (s.pixels.read p ^^ decide (Odd (sprites.map (·.coverage p)).sum))) ∧
    (∀ others, others.Perm sprites →
      (s.drawAll others).2.pixels = (s.drawAll sprites).2.pixels ∧
        (s.drawAll (sprites ++ others)).2.pixels = s.pixels) ∧
    (∀ before between after sprite,
      (s.drawAll (before ++ sprite :: between ++ sprite :: after)).2.pixels =
        (s.drawAll (before ++ between ++ after)).2.pixels) ∧
    (∀ before after sprite,
      s.drawAll (before ++ sprite.wrapped :: after) = s.drawAll (before ++ sprite :: after)) ∧
    ∀ (t : Screen) (others after : List Sprite),
      let here := (s.drawAll sprites).2.clear.drawAll after
      let there := (t.drawAll others).2.clear.drawAll after
      here.1 = there.1 ∧ here.2.pixels = there.2.pixels := by
  refine ⟨s.read_drawAll sprites, ?_, s.pixels_drawAll_cancel, s.drawAll_wrapped, ?_⟩
  · intro others perm
    exact ⟨pixels_drawAll_perm s perm, pixels_drawAll_twice s perm⟩
  · intro t others after here there
    -- The toggles of a clear leave nothing of what has been drawn.
    have cleared : (s.drawAll sprites).2.clear.pixels = (t.drawAll others).2.clear.pixels := by
      rw [pixels_clear, pixels_clear]
    exact drawAll_congr cleared after

/-- A sprite of thirty-three rows falls twice on the pixel in its upper left corner, and so
leaves it to the other one. -/
theorem tall_sprite_leaves_its_corner :
    let tall : Sprite := ⟨63, 255, List.replicate 33 0x80⟩
    let block : Sprite := ⟨127, 31, [0xc0, 0xc0]⟩
    let corner := Pixel.ofXY 63 31
    [tall, block].Perm [block, tall] ∧
      (blank.drawAll [tall, block]).2.pixels = (blank.drawAll [block, tall]).2.pixels ∧
      (blank.drawAll ([block, tall] ++ [tall, block])).2.pixels = blank.pixels ∧
      (blank.drawAll [block, tall]).2.pixels.read corner = true := by
  intro tall block corner
  have swap : [tall, block].Perm [block, tall] := .swap block tall []
  obtain ⟨turned, reordered, -⟩ := drawing_is_exclusive_or blank [block, tall]
  obtain ⟨same, restored⟩ := reordered _ swap
  refine ⟨swap, same, restored, ?_⟩
  rw [turned]
  have bits : ([block, tall].map (·.coverage corner)).sum = 3 := by decide +kernel
  rw [bits, show blank.pixels.read corner = false from Cells.read_fill false corner]
  decide

end Screen

end Chip8
