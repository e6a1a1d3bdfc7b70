import Chip8.Instruction.Encoding
import Chip8.Instruction.Assembly
import Chip8.Painter

/-!
# Listings

A listing shows every word of a program with its address, its assembly text and
its value. Known and unknown words may be painted in different styles. Columns
count what a painter adds, so painted and plain lines are equally long.
-/
namespace Chip8

open Numeral

/-- The styles of a listing. -/
structure Palette (Style : Type) where
  known : Style
  unknown : Style
deriving DecidableEq, Repr

namespace Palette

variable {Style : Type} (painter : Painter Style)

def plain : Palette Style := ⟨painter.new, painter.new⟩

/-- Green for instructions, bold red for words that are none. -/
def colored : Palette Style := ⟨painter.green painter.new, painter.red (painter.bold painter.new)⟩

/-- The assembly text of one word. -/
def once (palette : Palette Style) (w : Word) : String :=
  match Instruction.decode w with
  | some i => painter.paint palette.known i.text
  | none => painter.paint palette.unknown ("inval  " ++ hex .lower 4 w.toNat)

def line (palette : Palette Style) (address : Nat) (w : Word) : String :=
  hex .lower 3 (address % 4096) ++ ": " ++ padRight 36 (palette.once painter w) ++ " " ++
    hex .lower 4 w.toNat

/-- One line for each word, as if the program stood at `address`. -/
def lines (palette : Palette Style) (address : Nat) : List Word → List String
  | [] => []
  | w :: rest => palette.line painter address w :: palette.lines (address + 2) rest

/-- The listing of a byte string; a last odd byte is left out. -/
def listing (palette : Palette Style) (address : Word) (program : List UInt8) : List String :=
  palette.lines painter address.toNat (Word.ofByteList program)

end Palette

end Chip8
