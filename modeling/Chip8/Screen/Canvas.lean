import Std.Data.HashMap

/-!
# Canvases of dots

Braille characters have eight dots, two in a row and four in a column. So a picture of
pixels is shown in half as many columns and a quarter as many lines, with one column and one
line more than it needs. Whoever draws uses a canvas without a look inside: it is blank at
first, dots are turned on one by one, and in the end it shows a text.
-/
namespace Chip8

/-- Something to draw on: blank at first, dots are turned on, and a text shows it. -/
structure Canvas (α : Type) where
  blank : α
  set : α → (x y : Nat) → α
  frame : α → List Char

namespace Canvas

/-- Turns dots on, one after the other. -/
def plot {α : Type} (canvas : Canvas α) (dots : List (Nat × Nat)) : α :=
  dots.foldl (fun drawn (x, y) => canvas.set drawn x y) canvas.blank

/-! ### Characters -/

/-- The place of a dot in the number of a braille character. The left column has the places
0, 1, 2 and 6 from top to bottom, the right one 3, 4, 5 and 7. -/
def dotPlace (x y : Nat) : Nat :=
  if x = 0 then [0, 1, 2, 6].getD y 0 else [3, 4, 5, 7].getD y 0

/-- The character with these dots, which is a blank if there are none. -/
def braille (dots : Nat) : Char :=
  if dots = 0 then ' ' else Char.ofNat (0x2800 + dots)

def columns : Nat := 33

def lines : Nat := 9

/-- The lines of a picture, given by its cells. -/
def rows (cell : (column line : Nat) → Char) : List (List Char) :=
  (List.range lines).map fun line => (List.range columns).map fun column => cell column line

/-! ### A canvas of cells -/

/-- A canvas that keeps the dots of each character in a cell. -/
def cells : Canvas (Std.HashMap (Nat × Nat) UInt8) where
  blank := ∅
  set drawn x y :=
    let cell := (x / 2, y / 4)
    drawn.insert cell (drawn.getD cell 0 ||| UInt8.ofNat (1 <<< dotPlace (x % 2) (y % 4)))
  frame drawn :=
    ['\n'].intercalate (rows fun column line => braille (drawn.getD (column, line) 0).toNat)

end Canvas

end Chip8
