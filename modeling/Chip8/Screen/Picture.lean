import Chip8.Screen
import Chip8.Screen.Canvas

/-!
# Pictures of the screen

Two texts show the same pixels. The framed picture has one block or blank for
each pixel between bars. The braille picture is drawn on a canvas of dots, one
dot for each pixel that is on.
-/
namespace Chip8.Screen

/-! ### Framed picture -/

def block : Char := '█'

def pixelChar (on : Bool) : Char := if on then block else ' '

def framedLine (s : Screen) (y : Nat) : List Char :=
  '|' :: (List.range Pixel.width).map (fun x => pixelChar (s.get x y)) ++ ['|', '\n']

def framedChars (s : Screen) : List Char :=
  (List.range Pixel.height).flatMap s.framedLine

def framed (s : Screen) : String := String.ofList s.framedChars

/-! ### Braille picture -/

/-- The coordinates of the pixels that are on, row after row. -/
def litPlaces (s : Screen) : List (Nat × Nat) :=
  (s.snapshot.zipIdx.filter fun (on, _) => on).map fun (_, index) =>
    (index % Pixel.width, index / Pixel.width)

/-- What a canvas shows once every pixel that is on has been drawn on it. -/
def printedOn {α : Type} (canvas : Canvas α) (s : Screen) : String :=
  String.ofList (canvas.frame (canvas.plot s.litPlaces) ++ ['\n'])

def braille (s : Screen) : String := s.printedOn Canvas.cells

end Chip8.Screen
