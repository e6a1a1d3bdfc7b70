/-!
# Numerals

Every number the machine shows is written by this module: hexadecimal in either
letter case with a least width, plain decimal, and decimal that always carries
its sign. A numeral is built from the list of its digits, most significant
first, so that questions about texts become questions about digit lists.
-/
namespace Chip8

inductive LetterCase
  | lower
  | upper
deriving DecidableEq, Repr

namespace Numeral

/-- The character of a digit below 16. -/
def digitChar (letters : LetterCase) (d : Nat) : Char :=
  if d < 10 then Char.ofNat (48 + d)
  else match letters with
    | .lower => Char.ofNat (87 + d)
    | .upper => Char.ofNat (55 + d)

/-- The digits of `n`, most significant first; zero has the one digit `0`. -/
def digits (base n : Nat) : List Nat :=
  if 2 ≤ base ∧ base ≤ n then digits base (n / base) ++ [n % base] else [n]
termination_by n
decreasing_by exact Nat.div_lt_self (by omega) (by omega)

def hexChars (letters : LetterCase) (width n : Nat) : List Char :=
  List.leftpad width '0' ((digits 16 n).map (digitChar letters))

/-- Hexadecimal, filled with zeros on the left up to `width` digits. -/
def hex (letters : LetterCase) (width n : Nat) : String :=
  String.ofList (hexChars letters width n)

def decimalChars (n : Nat) : List Char :=
  (digits 10 n).map (digitChar .lower)

def decimal (n : Nat) : String :=
  String.ofList (decimalChars n)

/-- Decimal with a sign in front, also for zero and positive numbers. -/
def signedDecimal (n : Int) : String :=
  (if n < 0 then "-" else "+") ++ decimal n.natAbs

end Numeral

/-! ### Columns -/

/-- Fills with blanks on the left up to `width` characters. -/
def padLeft (width : Nat) (s : String) : String :=
  String.ofList (List.leftpad width ' ' s.toList)

/-- Fills with blanks on the right up to `width` characters. -/
def padRight (width : Nat) (s : String) : String :=
  String.ofList (List.rightpad width ' ' s.toList)

/-- The elements between `", "`. -/
def commaSeparated (items : List String) : String :=
  ", ".intercalate items

end Chip8
