import Chip8.Cells

/-!
# Screen

Sixty-four by thirty-two pixels, each on or off, with coordinates that wrap at
both edges. A sprite is a list of rows of eight pixels; drawing it toggles one
pixel after the other, so a sprite is as good as the list of pixels it toggles.
A counter tells how many draws and clears there have been.
-/
namespace Chip8

/-- A pixel's place in the screen, row after row. -/
abbrev Pixel := Fin 2048

namespace Pixel

def width : Nat := 64

def height : Nat := 32

/-- The pixel at column `x` and row `y`, both wrapped. -/
def ofXY (x y : Nat) : Pixel :=
  ⟨y % height * width + x % width, by
    have row : y % height < 32 := Nat.mod_lt _ (by decide)
    have column : x % width < 64 := Nat.mod_lt _ (by decide)
    simp only [width, height] at *
    omega⟩

/-- All pixels, row after row. -/
def all : List Pixel :=
  (List.range height).flatMap fun y => (List.range width).map fun x => ofXY x y

theorem mem_all (p : Pixel) : p ∈ all := by
  have inside : p.val < 2048 := p.isLt
  have place : ofXY (p.val % 64) (p.val / 64) = p := by
    apply Fin.ext
    simp only [ofXY, width, height]
    omega
  rw [all, List.mem_flatMap]
  refine ⟨p.val / 64, List.mem_range.mpr (by simp only [height]; omega), ?_⟩
  exact List.mem_map.mpr ⟨p.val % 64, List.mem_range.mpr (by simp only [width]; omega), place⟩

end Pixel

structure Screen where
  pixels : Cells Bool 2048 := .fill 2048 false
  generation : UInt64 := 0
deriving DecidableEq, Repr

namespace Screen

def blank : Screen := { }

def get (s : Screen) (x y : Nat) : Bool :=
  s.pixels.read (Pixel.ofXY x y)

/-- All pixels, row after row. -/
def snapshot (s : Screen) : List Bool := s.pixels.toList

/-- Toggles a pixel, and tells whether it was on. -/
def togglePixel (s : Screen) (p : Pixel) : Bool × Screen :=
  (s.pixels.read p, { s with pixels := s.pixels.write p (!s.pixels.read p) })

def toggle (s : Screen) (x y : Nat) : Bool × Screen :=
  s.togglePixel (Pixel.ofXY x y)

theorem read_togglePixel (s : Screen) (p q : Pixel) :
    (s.togglePixel p).2.pixels.read q = if p = q then !s.pixels.read q else s.pixels.read q := by
  simp only [togglePixel, Cells.read_write]
  split
  next same => rw [same]
  next => rfl

/-- Toggles pixels one after the other, and tells whether any of them was on
when its turn came. -/
def toggleAll (s : Screen) : List Pixel → Bool × Screen
  | [] => (false, s)
  | p :: rest =>
    let (on, s) := s.togglePixel p
    let (hit, s) := s.toggleAll rest
    (on || hit, s)

theorem generation_toggleAll (s : Screen) (ps : List Pixel) :
    (s.toggleAll ps).2.generation = s.generation := by
  induction ps generalizing s with
  | nil => rfl
  | cons p rest ih =>
    simp only [toggleAll]
    rw [ih]
    rfl

/-- Counts a draw or a clear. -/
def bump (s : Screen) : Screen := { s with generation := s.generation + 1 }

/-- Goes through pixels one after the other and toggles those that are on. -/
def turnOff (s : Screen) : List Pixel → Screen
  | [] => s
  | p :: rest => if s.pixels.read p then (s.togglePixel p).2.turnOff rest else s.turnOff rest

theorem read_turnOff (s : Screen) (ps : List Pixel) (q : Pixel) :
    (s.turnOff ps).pixels.read q = (!ps.contains q && s.pixels.read q) := by
  induction ps generalizing s with
  | nil => simp [turnOff]
  | cons p rest ih =>
    unfold turnOff
    by_cases same : p = q
    · subst same
      cases on : s.pixels.read p <;> simp [ih, read_togglePixel, on]
    · have apart : q ≠ p := Ne.symm same
      split <;> simp [ih, read_togglePixel, same, apart]

theorem generation_turnOff (s : Screen) (ps : List Pixel) :
    (s.turnOff ps).generation = s.generation := by
  induction ps generalizing s with
  | nil => rfl
  | cons p rest ih =>
    unfold turnOff
    split
    · rw [ih]
      rfl
    · exact ih s

/-- Turns every pixel off that is on, one toggle at a time. -/
def clear (s : Screen) : Screen :=
  (s.turnOff Pixel.all).bump

/-- The toggles of a clear come to a blank screen, whatever has been on. -/
theorem clear_eq (s : Screen) : s.clear = { s with pixels := .fill 2048 false }.bump := by
  have blank : (s.turnOff Pixel.all).pixels = .fill 2048 false := by
    apply Cells.ext
    intro q
    simp [read_turnOff, Cells.read_fill, Pixel.mem_all]
  simp only [clear, bump, blank, generation_turnOff]

theorem pixels_clear (s : Screen) : s.clear.pixels = .fill 2048 false := by
  rw [clear_eq]
  rfl

theorem generation_clear (s : Screen) : s.clear.generation = s.generation + 1 := by
  rw [clear_eq]
  rfl

/-- The columns of a row that are set, the most significant bit leftmost. -/
def rowBits (row : UInt8) : List Nat :=
  (List.range 8).filter fun bit => row.toNat.testBit (7 - bit)

/-- The pixels that a sprite toggles, in drawing order. -/
def spritePixels (x y : Nat) : List UInt8 → List Pixel
  | [] => []
  | row :: rest =>
    (rowBits row).map (fun bit => Pixel.ofXY (x + bit) y) ++ spritePixels x (y + 1) rest

/-- Draws a sprite with its upper left corner at (x, y), and tells whether a
pixel that was on has been turned off. -/
def draw (s : Screen) (x y : UInt8) (rows : List UInt8) : Bool × Screen :=
  let (hit, s) := s.toggleAll (spritePixels x.toNat y.toNat rows)
  (hit, s.bump)

/-- What a sprite does to the pixels does not depend on the counter. -/
theorem toggleAll_congr {s t : Screen} (same : t.pixels = s.pixels) (ps : List Pixel) :
    (t.toggleAll ps).1 = (s.toggleAll ps).1 ∧
      (t.toggleAll ps).2.pixels = (s.toggleAll ps).2.pixels := by
  induction ps generalizing s t with
  | nil => exact ⟨rfl, same⟩
  | cons p rest ih =>
    have first : (t.togglePixel p).2.pixels = (s.togglePixel p).2.pixels := by
      simp only [togglePixel, same]
    obtain ⟨hit, pixels⟩ := ih first
    refine ⟨?_, pixels⟩
    -- The pixel that is toggled first tells the same of both, and so do the others.
    simp only [toggleAll, togglePixel, same] at hit ⊢
    rw [hit]

/-- A draw changes the pixels and the counter, the one without a look at the other. -/
theorem draw_congr {s t : Screen} (same : t.pixels = s.pixels) (x y : UInt8) (rows : List UInt8) :
    ∃ hit pixels, s.draw x y rows = (hit, { s with pixels }.bump) ∧
      t.draw x y rows = (hit, { t with pixels }.bump) := by
  let ps := spritePixels x.toNat y.toNat rows
  have drawn (u : Screen) :
      u.draw x y rows =
        ((u.toggleAll ps).1, { u with pixels := (u.toggleAll ps).2.pixels }.bump) := by
    have generation := u.generation_toggleAll ps
    simp only [draw, bump, ps] at generation ⊢
    rw [generation]
  obtain ⟨hit, pixels⟩ := toggleAll_congr same ps
  -- What `s` makes of the pixels is written to both.
  refine ⟨_, _, drawn s, ?_⟩
  rw [drawn t, hit, pixels]

end Screen

end Chip8
