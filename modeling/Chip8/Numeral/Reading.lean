import Chip8.Numeral

/-!
# Reading numerals

Whole numbers are read digit by digit against a limit, so the first offending
character decides which error is reported: a character that is no digit, or the
digit that takes the value past the limit. Decimal fractions are kept exact, as
a coefficient and a power of ten.
-/
namespace Chip8

inductive NumeralError
  | empty
  | invalidDigit
  | tooLarge
deriving DecidableEq, Repr

def NumeralError.message : NumeralError → String
  | .empty => "cannot parse integer from empty string"
  | .invalidDigit => "invalid digit found in string"
  | .tooLarge => "number too large to fit in target type"

namespace Numeral

/-- The value of a digit, in either letter case, if it is one in this base. -/
def digitValue? (base : Nat) (c : Char) : Option Nat :=
  let value :=
    if '0' ≤ c ∧ c ≤ '9' then c.toNat - 48
    else if 'a' ≤ c ∧ c ≤ 'z' then c.toNat - 87
    else if 'A' ≤ c ∧ c ≤ 'Z' then c.toNat - 55
    else base
  if value < base then some value else none

/-- Appends the digits of a text to the numeral read so far. -/
def readDigits (base limit : Nat) : Nat → List Char → Except NumeralError Nat
  | sofar, [] => .ok sofar
  | sofar, c :: rest =>
    match digitValue? base c with
    | none => .error .invalidDigit
    | some d =>
      -- A character that is no digit is reported before a number that is too large.
      if limit < sofar * base + d then .error .tooLarge
      else readDigits base limit (sofar * base + d) rest

/-- Reads a number of at most `limit`: an optional plus sign, then digits. -/
def read (base limit : Nat) : List Char → Except NumeralError Nat
  | [] => .error .empty
  | ['+'] => .error .invalidDigit
  | '+' :: rest => readDigits base limit 0 rest
  | text => readDigits base limit 0 text

/-- Drops every `0x` in front, one after the other. -/
def dropHexMarks : List Char → List Char
  | '0' :: 'x' :: rest => dropHexMarks rest
  | text => text

/-- Reads an address: hexadecimal, with any number of `0x` in front. -/
def readAddress (text : List Char) : Except NumeralError UInt16 :=
  (read 16 0xffff (dropHexMarks text)).map UInt16.ofNat

end Numeral

/-! ### Decimal fractions -/

/-- A number as written in decimal: `coefficient * 10 ^ exponent` with its sign,
or one of the values without digits. -/
inductive DecimalValue
  | finite (negative : Bool) (coefficient : Nat) (exponent : Int)
  | infinite (negative : Bool)
  | nan
deriving DecidableEq, Repr

inductive DecimalError
  | empty
  | invalid
deriving DecidableEq, Repr

def DecimalError.message : DecimalError → String
  | .empty => "cannot parse float from empty string"
  | .invalid => "invalid float literal"

namespace DecimalValue

/-- Whether a number is zero, or nearer to zero than to the least positive binary
fraction that is told apart, `1 / 2 ^ 1074`. Half of that still counts as zero. -/
def vanishes : DecimalValue → Bool
  | .finite _ coefficient exponent =>
    let places := exponent + (Numeral.digits 10 coefficient).length
    -- The number of places settles all but one case without a power.
    coefficient = 0 || places ≤ -324 ||
      (places = -323 && coefficient * Nat.pow 2 1075 ≤ Nat.pow 10 exponent.natAbs)
  | .infinite _ => false
  | .nan => false

/-- A run of decimal digits appended to `sofar`, how many there were, and the rest. -/
def takeDigits : Nat → Nat → List Char → Nat × Nat × List Char
  | sofar, count, [] => (sofar, count, [])
  | sofar, count, c :: rest =>
    match Numeral.digitValue? 10 c with
    | some d => takeDigits (sofar * 10 + d) (count + 1) rest
    | none => (sofar, count, c :: rest)

/-- The sign in front of a text, plus if there is none. -/
def takeSign : List Char → Bool × List Char
  | '-' :: rest => (true, rest)
  | '+' :: rest => (false, rest)
  | text => (false, text)

/-- The exponent that ends a number; nothing at all stands for zero. -/
def readExponent? : List Char → Option Int
  | [] => some 0
  | mark :: rest =>
    if mark = 'e' ∨ mark = 'E' then
      let (negative, text) := takeSign rest
      match takeDigits 0 0 text with
      | (value, count, []) =>
        if count = 0 then none
        else some (if negative then -(value : Int) else value)
      | _ => none
    else none

def readFinite? (negative : Bool) (text : List Char) : Option DecimalValue :=
  let (whole, wholeCount, afterWhole) := takeDigits 0 0 text
  let (coefficient, places, afterFraction) :=
    match afterWhole with
    | '.' :: rest => takeDigits whole 0 rest
    | _ => (whole, 0, afterWhole)
  if wholeCount + places = 0 then none
  else (readExponent? afterFraction).map fun exponent =>
    .finite negative coefficient (exponent - places)

/-- Reads a decimal number, or `inf`, `infinity` or `nan` in any letter case. -/
def read (text : List Char) : Except DecimalError DecimalValue :=
  if text.isEmpty then .error .empty
  else
    let (negative, rest) := takeSign text
    let word := String.ofList (rest.map Char.toLower)
    if word = "inf" ∨ word = "infinity" then .ok (.infinite negative)
    else if word = "nan" then .ok .nan
    else match readFinite? negative rest with
      | some value => .ok value
      | none => .error .invalid

end DecimalValue

end Chip8
