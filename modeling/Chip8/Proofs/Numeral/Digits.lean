import Mathlib.Tactic.IntervalCases
import Chip8.Numeral.Reading

/-!
# Reading what has been written

A numeral is the list of its digits with zeros in front, and reading it gives back the
number, in either letter case and at any width. So a numeral cannot be taken for that of
another number. It cannot be taken for a part of a longer one either, as long as no digit
follows it: whoever reads on until the digits end has read all of it.
-/
namespace Chip8.Numeral

variable {base limit n : Nat} {letters : LetterCase}

/-! ### Digits -/

theorem lt_of_mem_digits (two : 2 ≤ base) {d : Nat} (member : d ∈ digits base n) : d < base := by
  fun_induction digits base n with
  | case1 n more ih =>
    rw [List.mem_append, List.mem_singleton] at member
    rcases member with front | rfl
    · exact ih front
    · exact Nat.mod_lt _ (by omega)
  | case2 n last =>
    rw [List.mem_singleton] at member
    omega

theorem digits_ne_nil : digits base n ≠ [] := by
  rw [digits]
  split <;> simp

theorem digitValue?_digitChar {d : Nat} (small : d < base) (few : base ≤ 16) :
    digitValue? base (digitChar letters d) = some d := by
  have known : d < 16 := Nat.lt_of_lt_of_le small few
  -- The characters of the sixteen digits are looked at one by one.
  interval_cases d <;> cases letters <;> exact if_pos small

/-! ### Reading -/

theorem readDigits_append (sofar : Nat) (front rest : List Char) :
    readDigits base limit sofar (front ++ rest) =
      (readDigits base limit sofar front).bind fun value => readDigits base limit value rest := by
  induction front generalizing sofar with
  | nil => rfl
  | cons c front ih =>
    simp only [List.cons_append, readDigits]
    cases digitValue? base c with
    | none => rfl
    | some d =>
      simp only
      split
      · rfl
      · exact ih _

theorem readDigits_singleton {c : Char} {d sofar : Nat} (digit : digitValue? base c = some d)
    (inside : sofar * base + d ≤ limit) :
    readDigits base limit sofar [c] = .ok (sofar * base + d) := by
  simp only [readDigits, digit]
  exact if_neg (Nat.not_lt.mpr inside)

theorem readDigits_digits (two : 2 ≤ base) (few : base ≤ 16) (inside : n ≤ limit) :
    readDigits base limit 0 ((digits base n).map (digitChar letters)) = .ok n := by
  fun_induction digits base n with
  | case1 n more ih =>
    have small : n % base < base := Nat.mod_lt _ (by omega)
    have whole : n / base * base + n % base = n := Nat.div_add_mod' n base
    have shorter : n / base ≤ limit := Nat.le_trans (Nat.div_le_self n base) inside
    -- All digits but the last one have been read when the last one comes.
    rw [List.map_append, readDigits_append, ih shorter]
    simp only [Except.bind, List.map_singleton]
    rw [readDigits_singleton (digitValue?_digitChar small few) (by omega), whole]
  | case2 n last =>
    rw [List.map_singleton, readDigits_singleton (digitValue?_digitChar (by omega) few) (by omega)]
    simp

theorem readDigits_zeros (positive : 0 < base) (count : Nat) (text : List Char) :
    readDigits base limit 0 (List.replicate count '0' ++ text) = readDigits base limit 0 text := by
  induction count with
  | zero => rfl
  | succ count ih =>
    have zero : digitValue? base '0' = some 0 := if_pos positive
    rw [List.replicate_succ, List.cons_append, readDigits, zero]
    simp only [Nat.zero_mul, Nat.add_zero, Nat.not_lt_zero, if_false]
    exact ih

/-- A hexadecimal numeral is read as the number that it was written for. -/
theorem readDigits_hexChars (letters : LetterCase) (width : Nat) (inside : n ≤ limit) :
    readDigits 16 limit 0 (hexChars letters width n) = .ok n := by
  rw [hexChars, List.leftpad, readDigits_zeros (by decide)]
  exact readDigits_digits (by decide) (by decide) inside

theorem hexChars_inj {m width field : Nat} {case other : LetterCase}
    (same : hexChars case width m = hexChars other field n) : m = n := by
  have first := readDigits_hexChars case width (Nat.le_max_left m n)
  have second := readDigits_hexChars other field (Nat.le_max_right m n)
  rw [same, second] at first
  exact (Except.ok.inj first).symm

/-! ### Width -/

theorem length_digits_le {places : Nat} (two : 2 ≤ base) (some : 0 < places)
    (small : n < base ^ places) : (digits base n).length ≤ places := by
  fun_induction digits base n generalizing places with
  | case1 n more ih =>
    obtain ⟨others, rfl⟩ : ∃ others, places = others + 1 := ⟨places - 1, by omega⟩
    have left : 0 < others := by
      rcases Nat.eq_zero_or_pos others with rfl | left
      · simp only [Nat.zero_add, Nat.pow_one] at small
        omega
      · exact left
    have shorter : n / base < base ^ others := by
      rw [Nat.div_lt_iff_lt_mul (by omega), ← Nat.pow_succ]
      exact small
    have front := ih left shorter
    rw [List.length_append, List.length_singleton]
    omega
  | case2 n last =>
    rw [List.length_singleton]
    omega

/-- A numeral has no more places than its width, or than its number needs. -/
theorem length_hexChars_le {width : Nat} (places : Nat) (some : 0 < places)
    (small : n < 16 ^ places) :
    (hexChars letters width n).length ≤ max width places := by
  have few : (digits 16 n).length ≤ places := length_digits_le (by decide) some small
  rw [hexChars, List.length_leftpad, List.length_map]
  omega

theorem length_hexChars {width : Nat} (some : 0 < width) (small : n < 16 ^ width) :
    (hexChars letters width n).length = width := by
  have few : (digits 16 n).length ≤ width := length_digits_le (by decide) some small
  rw [hexChars, List.length_leftpad, List.length_map]
  omega

/-! ### Where a numeral ends -/

def isHexDigit (c : Char) : Bool := (digitValue? 16 c).isSome

def startsWithDigit (text : List Char) : Bool := text.head?.any isHexDigit

theorem isHexDigit_of_mem_hexChars {width : Nat} {c : Char}
    (member : c ∈ hexChars letters width n) : isHexDigit c = true := by
  rw [hexChars, List.leftpad, List.mem_append, List.mem_map] at member
  rcases member with zero | ⟨d, digit, rfl⟩
  · rw [List.eq_of_mem_replicate zero]
    rfl
  · rw [isHexDigit, digitValue?_digitChar (lt_of_mem_digits (by decide) digit) (by decide)]
    rfl

theorem not_mem_hexChars {c : Char} (noDigit : isHexDigit c = false) (letters : LetterCase)
    (width n : Nat) : c ∉ hexChars letters width n := by
  intro member
  rw [isHexDigit_of_mem_hexChars member] at noDigit
  cases noDigit

theorem hexChars_ne_nil (letters : LetterCase) (width n : Nat) :
    hexChars letters width n ≠ [] := by
  intro empty
  rw [hexChars, List.leftpad, List.append_eq_nil_iff, List.map_eq_nil_iff] at empty
  exact digits_ne_nil empty.2

theorem startsWithDigit_hexChars (letters : LetterCase) (width n : Nat) (rest : List Char) :
    startsWithDigit (hexChars letters width n ++ rest) = true := by
  cases written : hexChars letters width n with
  | nil => exact absurd written (hexChars_ne_nil letters width n)
  | cons c others =>
    have member : c ∈ hexChars letters width n := by
      rw [written]
      exact List.mem_cons_self
    exact isHexDigit_of_mem_hexChars member

/-- A numeral has no sign in front, so all of it is read as digits. -/
theorem read_hexChars (letters : LetterCase) (width : Nat) (inside : n ≤ limit) :
    read 16 limit (hexChars letters width n) = .ok n := by
  have digits := readDigits_hexChars letters width inside
  have unsigned : '+' ∉ hexChars letters width n := not_mem_hexChars (by decide) _ _ _
  unfold read
  split
  next empty => exact absurd empty (hexChars_ne_nil _ _ _)
  next sign => simp [sign] at unsigned
  next rest sign => simp [sign] at unsigned
  next => exact digits

theorem takeWhile_hexChars (letters : LetterCase) (width n : Nat) {rest : List Char}
    (ends : startsWithDigit rest = false) :
    (hexChars letters width n ++ rest).takeWhile isHexDigit = hexChars letters width n := by
  have behind : rest.takeWhile isHexDigit = [] := by
    cases rest with
    | nil => rfl
    | cons c others => exact List.takeWhile_cons_of_neg (Bool.eq_false_iff.mp ends)
  rw [List.takeWhile_append_of_pos fun _ => isHexDigit_of_mem_hexChars, behind, List.append_nil]

/-- A numeral that no digit follows is told apart from what follows. -/
theorem hexChars_append_inj {m width field : Nat} {case other : LetterCase}
    {rest after : List Char} (first : startsWithDigit rest = false)
    (second : startsWithDigit after = false)
    (same : hexChars case width m ++ rest = hexChars other field n ++ after) :
    m = n ∧ rest = after := by
  have numerals : hexChars case width m = hexChars other field n := by
    rw [← takeWhile_hexChars case width m first, same, takeWhile_hexChars other field n second]
  rw [numerals] at same
  exact ⟨hexChars_inj numerals, List.append_cancel_left same⟩

end Chip8.Numeral
