import Mathlib.Data.List.Forall2
import Mathlib.Data.Nat.Digits.Defs
import Chip8.Word
import Chip8.Proofs.Numeral.Digits

/-!
# Addresses as texts

An address is written in hexadecimal: first any number of marks `0x`, then perhaps a plus sign,
then the digits. A reader takes the marks away before it looks for a sign, and no digit looks
like a mark, so it stops where the grammar does. It compares with the limit after each digit;
since more digits never make a number smaller, it refuses just the texts whose whole number is
too large, and zeros in front cannot be too many.
-/
namespace Chip8.Numeral

variable {base limit n : Nat} {text : List Char}

/-! ### The texts of addresses -/

/-- The character is how the digit is written, in one letter case or the other. -/
def Shows (c : Char) (d : Nat) : Prop :=
  d < 16 ∧ ∃ letters, digitChar letters d = c

/-- One hexadecimal digit or more, and the number that they stand for. -/
def IsNumeral (text : List Char) (n : Nat) : Prop :=
  text ≠ [] ∧ ∃ values, List.Forall₂ Shows text values ∧ n = Nat.ofDigits 16 values.reverse

/-- The texts that stand for an address, however large it is. -/
inductive AddressText : List Char → Nat → Prop
  | unsigned {text : List Char} {n : Nat} (numeral : IsNumeral text n) : AddressText text n
  | signed {text : List Char} {n : Nat} (numeral : IsNumeral text n) : AddressText ('+' :: text) n
  | marked {text : List Char} {n : Nat} (rest : AddressText text n) :
      AddressText ('0' :: 'x' :: text) n

/-! ### Digits -/

theorem ofNat_of_toNat_eq {c : Char} {d first : Nat} (place : c.toNat = first + d) :
    Char.ofNat (first + d) = c := by
  rw [← place, Char.ofNat_toNat]

/-- Nothing is a digit but the characters that digits are written as. -/
theorem shows_of_digitValue? {c : Char} {d : Nat} (read : digitValue? 16 c = some d) :
    Shows c d := by
  simp only [digitValue?, Option.ite_none_right_eq_some, Option.some.injEq] at read
  obtain ⟨small, value⟩ := read
  rw [value] at small
  refine ⟨small, ?_⟩
  -- A range of characters is that of the digits of one case, counted from its first character.
  split at value
  next range =>
    obtain ⟨low, high⟩ : 48 ≤ c.toNat ∧ c.toNat ≤ 57 := range
    refine ⟨.lower, ?_⟩
    rw [digitChar, if_pos (by omega)]
    exact ofNat_of_toNat_eq (by omega)
  next =>
    split at value
    next range =>
      obtain ⟨low, high⟩ : 97 ≤ c.toNat ∧ c.toNat ≤ 122 := range
      refine ⟨.lower, ?_⟩
      rw [digitChar, if_neg (by omega)]
      exact ofNat_of_toNat_eq (by omega)
    next =>
      split at value
      next range =>
        obtain ⟨low, high⟩ : 65 ≤ c.toNat ∧ c.toNat ≤ 90 := range
        refine ⟨.upper, ?_⟩
        rw [digitChar, if_neg (by omega)]
        exact ofNat_of_toNat_eq (by omega)
      next => omega

theorem digitValue?_eq_some_iff {c : Char} {d : Nat} : digitValue? 16 c = some d ↔ Shows c d := by
  constructor
  · exact shows_of_digitValue?
  · rintro ⟨small, letters, rfl⟩
    exact digitValue?_digitChar small (by decide)

/-! ### Values -/

/-- The number that is reached from another one by appending digits to its numeral. -/
def valueAfter (base sofar : Nat) (values : List Nat) : Nat :=
  values.foldl (fun value d => value * base + d) sofar

theorem valueAfter_zero (values : List Nat) :
    valueAfter base 0 values = Nat.ofDigits base values.reverse := by
  rw [Nat.ofDigits_eq_foldr, List.foldr_reverse, valueAfter]
  simp only [Nat.cast_id, Nat.mul_comm, Nat.add_comm]

theorem le_valueAfter (positive : 0 < base) (values : List Nat) (sofar : Nat) :
    sofar ≤ valueAfter base sofar values := by
  induction values generalizing sofar with
  | nil => exact Nat.le_refl _
  | cons d rest ih =>
    calc sofar ≤ sofar * base := Nat.le_mul_of_pos_right _ positive
      _ ≤ sofar * base + d := Nat.le_add_right _ _
      _ ≤ valueAfter base sofar (d :: rest) := ih _

/-- Looking at the limit after each digit is as good as looking at the end. -/
theorem readDigits_eq_ok_iff (positive : 0 < base) {sofar : Nat} (inside : sofar ≤ limit) :
    readDigits base limit sofar text = .ok n ↔
      ∃ values, List.Forall₂ (fun c d => digitValue? base c = some d) text values ∧
        n = valueAfter base sofar values ∧ n ≤ limit := by
  induction text generalizing sofar with
  | nil =>
    simp only [readDigits, Except.ok.injEq, List.forall₂_nil_left_iff]
    constructor
    · rintro rfl
      exact ⟨[], rfl, rfl, inside⟩
    · rintro ⟨_, rfl, rfl, _⟩
      rfl
  | cons c rest ih =>
    simp only [readDigits, List.forall₂_cons_left_iff]
    cases digit : digitValue? base c with
    | none => simp
    | some d =>
      simp only
      split
      next beyond =>
        -- What has been read is too large already, and the whole is not smaller.
        constructor
        · intro read
          cases read
        · rintro ⟨_, ⟨_, values, first, _, rfl⟩, rfl, below⟩
          cases first
          have grown := le_valueAfter positive values (sofar * base + d)
          exact absurd (Nat.le_trans grown below) (Nat.not_le.mpr beyond)
      next within =>
        rw [ih (Nat.not_lt.mp within)]
        constructor
        · rintro ⟨values, others, value, below⟩
          exact ⟨d :: values, ⟨d, values, rfl, others, rfl⟩, value, below⟩
        · rintro ⟨_, ⟨_, values, first, others, rfl⟩, value, below⟩
          cases first
          exact ⟨values, others, value, below⟩

theorem readDigits_eq_ok_iff_isNumeral (some : text ≠ []) :
    readDigits 16 limit 0 text = .ok n ↔ IsNumeral text n ∧ n ≤ limit := by
  rw [readDigits_eq_ok_iff (by decide) (Nat.zero_le limit)]
  simp only [digitValue?_eq_some_iff, valueAfter_zero]
  constructor
  · rintro ⟨values, shown, value, below⟩
    exact ⟨⟨some, values, shown, value⟩, below⟩
  · rintro ⟨⟨_, values, shown, value⟩, below⟩
    exact ⟨values, shown, value, below⟩

/-! ### Signs and marks -/

theorem IsNumeral.isHexDigit_of_mem {c : Char} (numeral : IsNumeral text n) (member : c ∈ text) :
    isHexDigit c = true := by
  obtain ⟨-, values, shown, -⟩ := numeral
  induction shown with
  | nil => cases member
  | cons first _ ih =>
    rcases List.mem_cons.mp member with rfl | later
    · rw [isHexDigit, digitValue?_eq_some_iff.mpr first]
      rfl
    · exact ih later

theorem addressText_mark_iff : AddressText ('0' :: 'x' :: text) n ↔ AddressText text n := by
  constructor
  · intro address
    cases address with
    | unsigned numeral => exact absurd (numeral.isHexDigit_of_mem (c := 'x') (by simp)) (by decide)
    | marked rest => exact rest
  · exact .marked

theorem addressText_plus_iff : AddressText ('+' :: text) n ↔ IsNumeral text n := by
  constructor
  · intro address
    cases address with
    | unsigned numeral => exact absurd (numeral.isHexDigit_of_mem (c := '+') (by simp)) (by decide)
    | signed numeral => exact numeral
  · exact .signed

theorem addressText_iff_isNumeral (unsigned : ∀ rest, text ≠ '+' :: rest)
    (unmarked : ∀ rest, text ≠ '0' :: 'x' :: rest) : AddressText text n ↔ IsNumeral text n := by
  constructor
  · intro address
    cases address with
    | unsigned numeral => exact numeral
    | signed => exact absurd rfl (unsigned _)
    | marked => exact absurd rfl (unmarked _)
  · exact .unsigned

/-- Where no mark stands in front, the sign is what the reader has to see. -/
theorem read_eq_ok_iff (unmarked : ∀ rest, text ≠ '0' :: 'x' :: rest) :
    read 16 limit text = .ok n ↔ AddressText text n ∧ n ≤ limit := by
  unfold read
  split
  next =>
    rw [addressText_iff_isNumeral (by simp) (by simp)]
    exact iff_of_false nofun fun address => address.1.1 rfl
  next =>
    rw [addressText_plus_iff]
    exact iff_of_false nofun fun address => address.1.1 rfl
  next rest lone =>
    rw [addressText_plus_iff]
    exact readDigits_eq_ok_iff_isNumeral lone
  next empty _ unsigned =>
    rw [addressText_iff_isNumeral unsigned unmarked]
    exact readDigits_eq_ok_iff_isNumeral empty

/-- The marks that are taken away are those of the grammar. -/
theorem read_dropHexMarks_eq_ok_iff :
    read 16 limit (dropHexMarks text) = .ok n ↔ AddressText text n ∧ n ≤ limit := by
  fun_induction dropHexMarks text with
  | case1 rest ih => rw [ih, addressText_mark_iff]
  | case2 text unmarked => exact read_eq_ok_iff unmarked

theorem toNat_le_limit (address : Word) : address.toNat ≤ 0xffff :=
  Nat.le_of_lt_succ address.toNat_lt

theorem readAddress_eq_ok_iff {address : Word} :
    readAddress text = .ok address ↔ AddressText text address.toNat := by
  constructor
  · intro read
    unfold readAddress at read
    cases whole : Numeral.read 16 0xffff (dropHexMarks text) with
    | error e => simp [whole, Except.map] at read
    | ok n =>
      obtain ⟨stands, below⟩ := read_dropHexMarks_eq_ok_iff.mp whole
      simp only [whole, Except.map, Except.ok.injEq] at read
      rw [← read, UInt16.toNat_ofNat_of_lt' (Nat.lt_succ_of_le below)]
      exact stands
  · intro stands
    have whole := read_dropHexMarks_eq_ok_iff.mpr ⟨stands, toNat_le_limit address⟩
    rw [readAddress, whole, Except.map, UInt16.ofNat_toNat]

/-! ### Written addresses -/

theorem dropHexMarks_append (marks : Nat) (text : List Char) :
    dropHexMarks ((List.replicate marks ['0', 'x']).flatten ++ text) = dropHexMarks text := by
  induction marks with
  | zero => rfl
  | succ marks ih => exact ih

/-- A numeral is not cut down, although it may begin with zeros. -/
theorem dropHexMarks_hexChars (letters : LetterCase) (width n : Nat) :
    dropHexMarks (hexChars letters width n) = hexChars letters width n := by
  have unmarked : 'x' ∉ hexChars letters width n := not_mem_hexChars (by decide) _ _ _
  unfold dropHexMarks
  split
  next rest same => simp [same] at unmarked
  next => rfl

theorem replicate_append_hexChars (letters : LetterCase) (zeros n : Nat) :
    List.replicate zeros '0' ++ hexChars letters 0 n =
      hexChars letters (zeros + (digits 16 n).length) n := by
  simp [hexChars, List.leftpad]

theorem readAddress_hexChars (letters : LetterCase) (marks width : Nat) (address : Word) :
    readAddress ((List.replicate marks ['0', 'x']).flatten ++
      hexChars letters width address.toNat) = .ok address := by
  rw [readAddress, dropHexMarks_append, dropHexMarks_hexChars,
    read_hexChars letters width (toNat_le_limit address), Except.map, UInt16.ofNat_toNat]

/-- A text is read as an address just if it is any number of marks, perhaps a plus sign, and one
hexadecimal digit or more with a value that fits in a word; any other is refused. So every address
is read back from its digits in either letter case, whatever zeros and marks stand in front. -/
theorem addresses_are_hexadecimal :
    (∀ (text : List Char) (address : Word),
      readAddress text = .ok address ↔ AddressText text address.toNat) ∧
    (∀ text : List Char, (∀ n ≤ 0xffff, ¬AddressText text n) → ∃ e, readAddress text = .error e) ∧
    ∀ (address : Word) (letters : LetterCase) (zeros marks : Nat),
      readAddress ((List.replicate marks ['0', 'x']).flatten ++
        (List.replicate zeros '0' ++ hexChars letters 0 address.toNat)) = .ok address := by
  refine ⟨fun text address => readAddress_eq_ok_iff, ?_, ?_⟩
  · intro text none
    cases read : readAddress text with
    | error e => exact ⟨e, rfl⟩
    | ok address =>
      exact absurd (readAddress_eq_ok_iff.mp read) (none _ (toNat_le_limit address))
  · intro address letters zeros marks
    rw [replicate_append_hexChars]
    exact readAddress_hexChars letters marks _ address

/-- Marks are taken away in front of a sign, but not behind a zero, which is part of the numeral. -/
theorem mark_behind_zero_is_refused :
    AddressText "0x0x+00fF".toList 0xff ∧ readAddress "0x0x+00fF".toList = .ok 0xff ∧
      (∀ n ≤ 0xffff, ¬AddressText "00x2".toList n) ∧
      ∃ e, readAddress "00x2".toList = .error e := by
  obtain ⟨spelled, refused, -⟩ := addresses_are_hexadecimal
  have read : readAddress "0x0x+00fF".toList = .ok 0xff := by decide
  have foreign : ∀ n ≤ 0xffff, ¬AddressText "00x2".toList n := by
    intro n below address
    have small : n < UInt16.size := Nat.lt_succ_of_le below
    rw [← UInt16.toNat_ofNat_of_lt' small] at address
    exact absurd ((spelled _ _).mpr address) nofun
  exact ⟨(spelled _ _).mp read, read, foreign, refused _ foreign⟩

end Chip8.Numeral
