import Chip8.Numeral

/-!
# Painted texts

Texts can be painted in styles. What a painter keeps as a style, and what it writes around a
text, is its own affair. The painter of a terminal sends display codes in escape sequences:
those of the style in front of the text, and the one that turns every style off behind it. The
style without codes leaves the text as it is.
-/
namespace Chip8

open Numeral

/-- The operations of a painter. -/
structure Painter (Style : Type) where
  new : Style
  bold : Style → Style
  red : Style → Style
  green : Style → Style
  paint : Style → String → String

/-! ### Terminals -/

/-- An escape sequence that carries the given parameters. -/
def escape (parameters : String) : String := "\x1b[" ++ parameters ++ "m"

/-- What a terminal is told of a style. -/
structure TerminalStyle where
  color : Option Nat := none
  bold : Bool := false
deriving DecidableEq, Repr

namespace TerminalStyle

/-- Display codes, in the order in which they are sent. -/
def codes (style : TerminalStyle) : List Nat :=
  style.color.toList ++ if style.bold then [1] else []

/-- Turns the style on, writes the text and turns every style off again. -/
def paint (style : TerminalStyle) (text : String) : String :=
  if style.codes.isEmpty then text
  else escape (";".intercalate (style.codes.map decimal)) ++ text ++ escape "0"

end TerminalStyle

def Painter.terminal : Painter TerminalStyle where
  new := { }
  bold style := { style with bold := true }
  red style := { style with color := some 31 }
  green style := { style with color := some 32 }
  paint := TerminalStyle.paint

end Chip8
