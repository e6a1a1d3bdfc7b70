import Chip8.Numeral.Reading

/-!
# Lengths of time

A length of time is a whole number of nanoseconds. Its text uses the largest
unit that leaves a nonzero whole part, and a fraction without trailing zeros.
-/
namespace Chip8

structure Duration where
  nanoseconds : Nat
deriving DecidableEq, Repr

namespace Duration

def ofMicroseconds (n : Nat) : Duration := ⟨n * 1000⟩

def ofSeconds (n : Nat) : Duration := ⟨n * 1000000000⟩

/-- The digits of `fraction / 10 ^ places`, without the zeros at the end. -/
def fractionChars (places fraction : Nat) : List Char :=
  let filled := List.leftpad places '0' (Numeral.decimalChars fraction)
  (filled.reverse.dropWhile (· = '0')).reverse

/-- A quantity of `10 ^ places` nanoseconds each, with its unit. -/
def textIn (places : Nat) (unit : String) (nanoseconds : Nat) : String :=
  let unitLength := Nat.pow 10 places
  let fraction := nanoseconds % unitLength
  Numeral.decimal (nanoseconds / unitLength) ++
    (if fraction = 0 then "" else "." ++ String.ofList (fractionChars places fraction)) ++ unit

def text (d : Duration) : String :=
  if 1000000000 ≤ d.nanoseconds then textIn 9 "s" d.nanoseconds
  else if 1000000 ≤ d.nanoseconds then textIn 6 "ms" d.nanoseconds
  else if 1000 ≤ d.nanoseconds then textIn 3 "µs" d.nanoseconds
  else textIn 0 "ns" d.nanoseconds

/-- The value of `coefficient * 10 ^ exponent`, without its fraction. -/
def wholePart (coefficient : Nat) (exponent : Int) : Nat :=
  if 0 ≤ exponent then coefficient * Nat.pow 10 exponent.toNat
  else if exponent.natAbs ≤ (Numeral.digits 10 coefficient).length then
    coefficient / Nat.pow 10 exponent.natAbs
  else 0

/-- Seconds are counted in sixty-four bits. -/
def limit : Duration := ofSeconds 18446744073709551616

/-- A number of seconds as a length of time. Negative and endless numbers are
none, unless they are so small that they count as zero. -/
def ofDecimalSeconds? (seconds : DecimalValue) : Option Duration :=
  if seconds.vanishes then some ⟨0⟩
  else
    match seconds with
    | .finite false coefficient exponent =>
      -- No power is computed of a number that is far too large.
      if 40 < exponent + 9 + (Numeral.digits 10 coefficient).length then none
      else
        let nanoseconds := wholePart coefficient (exponent + 9)
        if nanoseconds < limit.nanoseconds then some ⟨nanoseconds⟩ else none
    | _ => none

end Duration

end Chip8
