import Chip8.Listing
import Chip8.Proofs.Instruction.Assembly

/-!
# No two words have the same text

The text of a word is that of its instruction, or tells the word itself if it is none;
what stands in the first column tells which. A painter puts escape sequences around it, and
this is all that is relied on, whatever styles are to it. An escape sequence ends with its
first letter and there are only digits in front of that, so it can be taken out again, and
nothing else goes with it. So the words of a listing can be told from their texts, in whatever
styles they are painted. The painter of a terminal is one of those that can be relied on.
-/
namespace Chip8

open Numeral

/-- The characters that are shown. An escape sequence is not: it goes from an escape
character to the next letter. The text may begin inside one. -/
def shownChars : (inside : Bool) → List Char → List Char
  | _, [] => []
  | true, c :: rest => shownChars (!c.isAlpha) rest
  | false, c :: rest =>
    if c = '\x1b' then shownChars true rest else c :: shownChars false rest

/-- The text without its escape sequences. -/
def unescaped (text : String) : String := String.ofList (shownChars false text.toList)

variable {text rest : List Char}

/-! ### Escape sequences -/

theorem shownChars_append_of_unescaped (clean : '\x1b' ∉ text) (rest : List Char) :
    shownChars false (text ++ rest) = text ++ shownChars false rest := by
  induction text with
  | nil => rfl
  | cons c text ih =>
    rw [List.mem_cons, not_or] at clean
    rw [List.cons_append, shownChars, if_neg (Ne.symm clean.1), ih clean.2, List.cons_append]

theorem shownChars_of_inside (letterless : ∀ c ∈ text, c.isAlpha = false) (rest : List Char) :
    shownChars true (text ++ 'm' :: rest) = shownChars false rest := by
  induction text with
  | nil => rfl
  | cons c text ih =>
    rw [List.cons_append, shownChars, letterless c List.mem_cons_self]
    exact ih fun d member => letterless d (List.mem_cons_of_mem _ member)

/-- Escape sequences of display codes, one after the other. Each begins with an escape character
and a bracket and ends with its first letter; between them there are digits and the marks that
separate numbers. -/
inductive DisplayCodes : List Char → Prop
  | nil : DisplayCodes []
  | cons {parameters rest : List Char} (numeric : ∀ c ∈ parameters, c.isDigit = true ∨ c = ';')
      (more : DisplayCodes rest) : DisplayCodes ('\x1b' :: '[' :: (parameters ++ 'm' :: rest))

theorem isAlpha_of_numeric {c : Char} (numeric : c.isDigit = true ∨ c = ';') :
    c.isAlpha = false := by
  rcases numeric with digit | rfl
  · obtain ⟨low, high⟩ : 48 ≤ c.toNat ∧ c.toNat ≤ 57 := by
      simpa [Char.isDigit, UInt32.le_iff_toNat_le] using digit
    -- There are ten digits, and none of them is a letter.
    rw [← Char.ofNat_toNat c]
    generalize c.toNat = n at low high
    interval_cases n <;> rfl
  · rfl

namespace DisplayCodes

theorem shownChars_append (codes : DisplayCodes text) (rest : List Char) :
    shownChars false (text ++ rest) = shownChars false rest := by
  induction codes with
  | nil => rfl
  | cons numeric more ih =>
    rename_i parameters later
    have spelled : '\x1b' :: '[' :: (parameters ++ 'm' :: later) ++ rest =
        '\x1b' :: (('[' :: parameters) ++ 'm' :: (later ++ rest)) := by
      simp
    rw [spelled, shownChars, if_pos rfl, shownChars_of_inside, ih]
    rintro c (_ | ⟨_, member⟩)
    · rfl
    · exact isAlpha_of_numeric (numeric c member)

/-- There is no line break in an escape sequence. -/
theorem unbroken (codes : DisplayCodes text) : '\n' ∉ text := by
  induction codes with
  | nil => simp
  | cons numeric more ih =>
    simp only [List.mem_cons, List.mem_append, not_or]
    refine ⟨by decide, by decide, fun member => ?_, by decide, ih⟩
    exact absurd (numeric _ member) (by decide)

end DisplayCodes

namespace Painter

variable {Style : Type} {painter : Painter Style}

/-- What is relied on of a painter: a new style adds nothing to a text, and any style puts no
more than escape sequences around it, the same around every text. -/
structure Faithful (painter : Painter Style) : Prop where
  new : ∀ text, painter.paint painter.new text = text
  around : ∀ style, ∃ before after, DisplayCodes before ∧ DisplayCodes after ∧
    ∀ text, (painter.paint style text).toList = before ++ text.toList ++ after

theorem Faithful.unescaped_paint (faithful : painter.Faithful) (style : Style) {text : String}
    (clean : '\x1b' ∉ text.toList) : unescaped (painter.paint style text) = text := by
  obtain ⟨before, after, opening, closing, around⟩ := faithful.around style
  have ends : shownChars false after = [] := by
    have taken := closing.shownChars_append []
    rw [List.append_nil] at taken
    exact taken
  -- The sequences in front are taken out, the text is kept, and so on to the end.
  rw [unescaped, around, List.append_assoc, opening.shownChars_append,
    shownChars_append_of_unescaped clean, ends, List.append_nil, String.ofList_toList]

theorem Faithful.not_mem_paint (faithful : painter.Faithful) (style : Style) {text : String}
    (clean : '\n' ∉ text.toList) : '\n' ∉ (painter.paint style text).toList := by
  obtain ⟨before, after, opening, closing, around⟩ := faithful.around style
  rw [around]
  simp [opening.unbroken, closing.unbroken, clean]

/-! ### The painter of a terminal -/

theorem numeric_of_mem_decimalChars {n : Nat} {c : Char} (member : c ∈ decimalChars n) :
    c.isDigit = true ∨ c = ';' := by
  obtain ⟨d, digit, rfl⟩ := List.mem_map.mp member
  have small : d < 10 := lt_of_mem_digits (by decide) digit
  left
  interval_cases d <;> rfl

theorem numeric_of_mem_parameters (codes : List Nat) :
    ∀ c ∈ (";".intercalate (codes.map decimal)).toList, c.isDigit = true ∨ c = ';' := by
  rw [String.toList_intercalate, List.map_map]
  induction codes with
  | nil => simp
  | cons code others ih =>
    have digits : ∀ c ∈ (decimal code).toList, c.isDigit = true ∨ c = ';' := by
      intro c digit
      rw [decimal, String.toList_ofList] at digit
      exact numeric_of_mem_decimalChars digit
    cases others with
    | nil => simpa using digits
    | cons next more =>
      intro c member
      rw [List.map_cons, List.map_cons, List.intercalate_cons_cons, List.mem_append,
        List.mem_append] at member
      rcases member with (here | mark) | later
      · exact digits c here
      · right
        simpa using mark
      · exact ih c later

theorem displayCodes_escape {parameters : String}
    (numeric : ∀ c ∈ parameters.toList, c.isDigit = true ∨ c = ';') :
    DisplayCodes (escape parameters).toList := by
  have spelled : (escape parameters).toList =
      '\x1b' :: '[' :: (parameters.toList ++ 'm' :: []) := by
    simp [escape, String.toList_append]
  rw [spelled]
  exact .cons numeric .nil

theorem faithful_terminal : terminal.Faithful where
  new _ := rfl
  around style := by
    simp only [terminal, TerminalStyle.paint]
    split
    · exact ⟨[], [], .nil, .nil, by simp⟩
    · have off : ∀ c ∈ "0".toList, c.isDigit = true ∨ c = ';' := by
        intro c member
        obtain rfl : c = '0' := by simpa using member
        exact Or.inl rfl
      refine ⟨_, _, displayCodes_escape (numeric_of_mem_parameters style.codes),
        displayCodes_escape off, fun text => ?_⟩
      rw [String.toList_append, String.toList_append]

end Painter

/-! ### Characters of texts -/

/-- A character that no text of a word has. -/
structure Unwritten (c : Char) : Prop where
  noDigit : isHexDigit c = false
  unmarked : ∀ op ∈ Operation.all, .mark c ∉ op.form
  unheaded : c ∉ "inval  ".toList

theorem unwritten_escape : Unwritten '\x1b' := ⟨by decide, by decide +kernel, by decide⟩

theorem Unwritten.not_mem_fill {c : Char} (unwritten : Unwritten c) {o : Operands}
    {form : List Piece} (unmarked : .mark c ∉ form) : c ∉ Piece.fill o form := by
  intro member
  obtain ⟨piece, inside, shown⟩ := List.mem_flatMap.mp member
  cases piece with
  | mark d =>
    rw [Piece.chars, List.mem_singleton] at shown
    rw [shown] at unmarked
    exact unmarked inside
  | number k => exact not_mem_hexChars unwritten.noDigit _ _ _ shown

theorem Unwritten.not_mem_text {c : Char} (unwritten : Unwritten c) (i : Instruction) :
    c ∉ i.text.toList := by
  rw [Piece.toList_text]
  exact unwritten.not_mem_fill (unwritten.unmarked _ (Operation.mem_all _))

/-- No instruction has what stands in the first column for a word that is none. -/
theorem Instruction.text_ne_unknown (i : Instruction) (rest : String) :
    i.text ≠ "inval  " ++ rest := by
  have table : ∀ op ∈ Operation.all,
      (padRight 7 op.mnemonic).toList ≠ "inval  ".toList ∧
        (padRight 7 op.mnemonic).toList.length = "inval  ".toList.length := by
    decide +kernel
  obtain ⟨apart, column⟩ := table _ (Operation.mem_all i.operation)
  intro same
  have chars := congrArg String.toList same
  rw [text, String.toList_append, String.toList_append] at chars
  exact apart (List.append_inj chars column).1

/-! ### Texts of words -/

/-- The text of a word before it is painted. -/
def wordText (w : Word) : String :=
  match Instruction.decode w with
  | some i => i.text
  | none => "inval  " ++ hex .lower 4 w.toNat

theorem wordText_of_known {w : Word} {i : Instruction} (known : Instruction.decode w = some i) :
    wordText w = i.text := by
  rw [wordText, known]

theorem wordText_of_unknown {w : Word} (unknown : Instruction.decode w = none) :
    wordText w = "inval  " ++ hex .lower 4 w.toNat := by
  rw [wordText, unknown]

theorem not_mem_wordText {c : Char} (unwritten : Unwritten c) (w : Word) :
    c ∉ (wordText w).toList := by
  cases decoded : Instruction.decode w with
  | some i =>
    rw [wordText_of_known decoded]
    exact unwritten.not_mem_text i
  | none =>
    rw [wordText_of_unknown decoded, String.toList_append, Piece.toList_hex, List.mem_append,
      not_or]
    exact ⟨unwritten.unheaded, not_mem_hexChars unwritten.noDigit _ _ _⟩

theorem wordText_inj {v w : Word} (same : wordText v = wordText w) : v = w := by
  cases first : Instruction.decode v with
  | some i =>
    rw [wordText_of_known first] at same
    cases second : Instruction.decode w with
    | some j =>
      rw [wordText_of_known second] at same
      have instructions : i = j := Instruction.text_inj same
      -- A word that decodes is the encoding of its instruction.
      rw [← Instruction.encode_of_decode first, ← Instruction.encode_of_decode second, instructions]
    | none =>
      rw [wordText_of_unknown second] at same
      exact absurd same (i.text_ne_unknown _)
  | none =>
    rw [wordText_of_unknown first] at same
    cases second : Instruction.decode w with
    | some j =>
      rw [wordText_of_known second] at same
      exact absurd same.symm (j.text_ne_unknown _)
    | none =>
      rw [wordText_of_unknown second] at same
      have chars := congrArg String.toList same
      rw [String.toList_append, String.toList_append, Piece.toList_hex, Piece.toList_hex] at chars
      exact UInt16.toNat_inj.mp (hexChars_inj (List.append_cancel_left chars))

namespace Palette

variable {Style : Type} {painter : Painter Style}

/-- The style that a word is painted in. -/
def styleOf (palette : Palette Style) (w : Word) : Style :=
  if (Instruction.decode w).isSome then palette.known else palette.unknown

theorem once_eq (palette : Palette Style) (w : Word) :
    palette.once painter w = painter.paint (palette.styleOf w) (wordText w) := by
  unfold once wordText styleOf
  cases Instruction.decode w <;> rfl

theorem plain_once (faithful : painter.Faithful) (w : Word) :
    (plain painter).once painter w = wordText w := by
  have new : (plain painter).styleOf w = painter.new := ite_self _
  rw [once_eq, new, faithful.new]

/-- The escape sequences are all that painting adds. -/
theorem unescaped_once (faithful : painter.Faithful) (palette : Palette Style) (w : Word) :
    unescaped (palette.once painter w) = wordText w := by
  rw [once_eq]
  exact faithful.unescaped_paint _ (not_mem_wordText unwritten_escape w)

end Palette

/-- The text of an instruction tells the instruction, whatever its operands. Whatever painter is
used, if only it puts escape sequences around a text, the text of a word tells the word, whether
or not it is an instruction and however it is painted, and without its escape sequences a painted
text is the plain one. -/
theorem texts_are_unambiguous :
    (∀ i j : Instruction, i.text = j.text → i = j) ∧
    ∀ {Style : Type} (painter : Painter Style), painter.Faithful →
      (∀ (palette : Palette Style) (v w : Word),
        palette.once painter v = palette.once painter w → v = w) ∧
      ∀ (palette : Palette Style) (w : Word),
        unescaped (palette.once painter w) = (Palette.plain painter).once painter w := by
  refine ⟨fun i j => Instruction.text_inj, fun painter faithful => ⟨?_, ?_⟩⟩
  · intro palette v w same
    -- Equal painted texts have equal texts in them.
    have plain := congrArg unescaped same
    rw [Palette.unescaped_once faithful, Palette.unescaped_once faithful] at plain
    exact wordText_inj plain
  · intro palette w
    rw [Palette.unescaped_once faithful, Palette.plain_once faithful]

/-- The name of a timer starts with what may be a digit as well. -/
theorem moves_from_and_to_a_timer_differ :
    let painter := Painter.terminal
    let palette := Palette.colored painter
    (Instruction.register .readDelay 0xd).text ≠ (Instruction.register .setDelay 0xd).text ∧
      painter.Faithful ∧ palette.once painter 0xfd07 ≠ palette.once painter 0xfd15 ∧
      unescaped (palette.once painter 0xfd07) = (Palette.plain painter).once painter 0xfd07 := by
  intro painter palette
  obtain ⟨instructions, words⟩ := texts_are_unambiguous
  obtain ⟨apart, plain⟩ := words painter Painter.faithful_terminal
  refine ⟨fun same => ?_, Painter.faithful_terminal, fun same => ?_, plain palette 0xfd07⟩
  · cases instructions _ _ same
  · exact absurd (apart _ _ _ same) (by decide)

end Chip8
