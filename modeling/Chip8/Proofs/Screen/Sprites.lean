import Chip8.Screen

/-!
# Sprites on the screen

Drawing a sprite toggles pixels one after the other. All of them lie in a window of
eight columns and as many rows as the sprite has, wrapped at the edges of the screen,
so a draw leaves everything outside this window as it was.
-/
namespace Chip8.Screen

/-- The pixels of the rectangle that is eight columns wide and has its upper left
corner at (x, y). -/
def window (x y height : Nat) (p : Pixel) : Prop :=
  ∃ row < height, ∃ column < 8, p = Pixel.ofXY (x + column) (y + row)

theorem window_of_mem_spritePixels {x y : Nat} {rows : List UInt8} {p : Pixel}
    (member : p ∈ spritePixels x y rows) : window x y rows.length p := by
  induction rows generalizing y with
  | nil => cases member
  | cons bits rest ih =>
    rcases List.mem_append.mp member with here | below
    · obtain ⟨column, set, rfl⟩ := List.mem_map.mp here
      have inside : column < 8 := List.mem_range.mp (List.mem_filter.mp set).1
      exact ⟨0, Nat.zero_lt_succ _, column, inside, rfl⟩
    · obtain ⟨row, inside, column, narrow, rfl⟩ := ih below
      exact ⟨row + 1, Nat.succ_lt_succ inside, column, narrow, by congr 1; omega⟩

/-- Pixels that are not toggled stay as they are. -/
theorem read_toggleAll_of_not_mem {s : Screen} {ps : List Pixel} {p : Pixel} (outside : p ∉ ps) :
    (s.toggleAll ps).2.pixels.read p = s.pixels.read p := by
  induction ps generalizing s with
  | nil => rfl
  | cons q rest ih =>
    rw [List.mem_cons, not_or] at outside
    obtain ⟨apart, outside⟩ := outside
    simp only [toggleAll]
    rw [ih outside, read_togglePixel, if_neg (Ne.symm apart)]

theorem read_draw_outside {s : Screen} {x y : UInt8} {rows : List UInt8} {p : Pixel}
    (outside : ¬ window x.toNat y.toNat rows.length p) :
    (s.draw x y rows).2.pixels.read p = s.pixels.read p :=
  read_toggleAll_of_not_mem fun member => outside (window_of_mem_spritePixels member)

end Chip8.Screen
