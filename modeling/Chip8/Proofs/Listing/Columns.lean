import Chip8.Proofs.Instruction.Operands
import Chip8.Proofs.Listing.Painting
import Chip8.Proofs.Words

/-!
# Columns of a listing

A line shows the address in three digits, then the text of the word, then the word itself in
four digits. The text has a column of thirty-six characters. An operand is written with no
more digits than its pattern has, so no instruction is longer than seventeen characters, and
the column is wide enough for every text, its escape characters included, if the painter adds
no more than nineteen. Then every column begins at a fixed place, and the words are read back
from the ends of the lines, whatever the style. The painter of a terminal adds eleven at most.
-/
namespace Chip8

open Numeral

/-! ### Lengths of texts -/

namespace Piece

/-- The number of characters that a piece has at most, as long as the operands are narrow. -/
def width : Piece → Nat
  | .mark _ => 1
  | .number .a => 3
  | .number .b => 2
  | .number _ => 1

theorem length_chars_le {o : Operands} (narrow : o.Narrow) (piece : Piece) :
    (piece.chars o).length ≤ piece.width := by
  cases piece with
  | mark c => exact Nat.le_refl 1
  | number k =>
    cases k with
    | a => exact length_hexChars_le 3 (by decide) narrow.a
    | b => exact length_hexChars_le 2 (by decide) o.b.toNat_lt
    | n => exact length_hexChars_le 1 (by decide) narrow.n
    | x => exact length_hexChars_le 1 (by decide) narrow.x
    | y => exact length_hexChars_le 1 (by decide) narrow.y

theorem length_fill_le {o : Operands} (narrow : o.Narrow) (form : List Piece) :
    (fill o form).length ≤ (form.map width).sum := by
  induction form with
  | nil => exact Nat.le_refl 0
  | cons piece rest ih =>
    have first := length_chars_le narrow piece
    simp only [fill, List.flatMap_cons, List.length_append, List.map_cons, List.sum_cons] at ih ⊢
    omega

end Piece

theorem Instruction.length_text_le {i : Instruction} (narrow : i.operands.Narrow) :
    i.text.length ≤ 17 := by
  -- The widths depend on the operation only, and there are few of these.
  have table : ∀ op ∈ Operation.all, (op.form.map Piece.width).sum ≤ 17 := by decide +kernel
  rw [← String.length_toList, Piece.toList_text]
  exact Nat.le_trans (Piece.length_fill_le narrow _) (table _ (Operation.mem_all _))

/-! ### Painted texts -/

namespace Painter

variable {Style : Type} {painter : Painter Style}

/-- No text becomes longer by more than `limit` characters when it is painted in the style. -/
def AddsAtMost (painter : Painter Style) (limit : Nat) (style : Style) : Prop :=
  ∀ text, (painter.paint style text).length ≤ text.length + limit

/-- What the columns rely on: few characters are added in the styles that listings are painted
in. -/
structure Brief (painter : Painter Style) (limit : Nat) : Prop where
  green : painter.AddsAtMost limit (painter.green painter.new)
  red : painter.AddsAtMost limit (painter.red (painter.bold painter.new))

theorem length_terminal_paint {style : TerminalStyle} (colored : style.codes.isEmpty = false)
    (text : String) :
    (terminal.paint style text).length = (terminal.paint style "").length + text.length := by
  simp only [terminal, TerminalStyle.paint, colored, Bool.false_eq_true, if_false,
    String.length_append, String.length_empty]
  omega

theorem brief_terminal : terminal.Brief 19 where
  green text := by
    have added : (terminal.paint (terminal.green terminal.new) "").length = 9 := by decide +kernel
    rw [length_terminal_paint rfl, added]
    omega
  red text := by
    have added : (terminal.paint (terminal.red (terminal.bold terminal.new)) "").length = 11 := by
      decide +kernel
    rw [length_terminal_paint rfl, added]
    omega

end Painter

theorem length_wordText_le (w : Word) : (wordText w).length ≤ 17 := by
  cases decoded : Instruction.decode w with
  | some i =>
    rw [wordText_of_known decoded]
    exact i.length_text_le (Instruction.narrow_of_decode decoded)
  | none =>
    -- A word that is no instruction is shown behind a heading, in four digits.
    have digits : (hex .lower 4 w.toNat).length = 4 := by
      rw [← String.length_toList, Piece.toList_hex]
      exact length_hexChars (by decide) w.toNat_lt
    have heading : "inval  ".length = 7 := by decide
    rw [wordText_of_unknown decoded, String.length_append, digits, heading]
    omega

theorem unwritten_break : Unwritten '\n' := ⟨by decide, by decide +kernel, by decide⟩

namespace Palette

variable {Style : Type} {painter : Painter Style}

/-- Both styles add so little that every text keeps to its column. -/
structure Modest (painter : Painter Style) (palette : Palette Style) : Prop where
  known : painter.AddsAtMost 19 palette.known
  unknown : painter.AddsAtMost 19 palette.unknown

theorem modest_of_mem (faithful : painter.Faithful) (brief : painter.Brief 19)
    {palette : Palette Style} (offered : palette ∈ [plain painter, colored painter]) :
    palette.Modest painter := by
  have new : painter.AddsAtMost 19 painter.new := by
    intro text
    rw [faithful.new]
    omega
  simp only [List.mem_cons, List.not_mem_nil, or_false] at offered
  rcases offered with rfl | rfl
  · exact ⟨new, new⟩
  · exact ⟨brief.green, brief.red⟩

variable {palette : Palette Style}

theorem Modest.length_once_le (modest : palette.Modest painter) (w : Word) :
    (palette.once painter w).length ≤ 36 := by
  have short := length_wordText_le w
  have painted : painter.AddsAtMost 19 (palette.styleOf w) := by
    unfold styleOf
    split
    · exact modest.known
    · exact modest.unknown
  have added := painted (wordText w)
  rw [once_eq]
  omega

theorem not_mem_once (faithful : painter.Faithful) (palette : Palette Style) (w : Word) :
    '\n' ∉ (palette.once painter w).toList := by
  rw [once_eq]
  exact faithful.not_mem_paint _ (not_mem_wordText unwritten_break w)

/-! ### Lines -/

/-- A line of three columns, each of a fixed width: an address, the text of a word and the
word. -/
structure Columns (line : String) (address : Nat) (text : String) (w : Word) : Prop where
  spelled : line.toList =
    hexChars .lower 3 address ++ [':', ' '] ++
      (text.toList ++ List.replicate (36 - text.length) ' ') ++ [' '] ++ hexChars .lower 4 w.toNat
  address : (hexChars .lower 3 address).length = 3
  text : text.length ≤ 36
  word : (hexChars .lower 4 w.toNat).length = 4

theorem Columns.length {line : String} {address : Nat} {text : String} {w : Word}
    (columns : Columns line address text w) : line.length = 46 := by
  have fits := columns.text
  rw [← String.length_toList, columns.spelled]
  simp only [List.length_append, List.length_cons, List.length_nil, List.length_replicate,
    String.length_toList, columns.address, columns.word]
  omega

theorem toList_line (palette : Palette Style) (address : Nat) (w : Word) :
    (palette.line painter address w).toList =
      hexChars .lower 3 (address % 4096) ++ [':', ' '] ++
        ((palette.once painter w).toList ++
          List.replicate (36 - (palette.once painter w).length) ' ') ++
        [' '] ++ hexChars .lower 4 w.toNat := by
  simp only [line, padRight, String.toList_append, Piece.toList_hex, String.toList_ofList,
    List.rightpad, String.length_toList]
  rfl

theorem Modest.columns (modest : palette.Modest painter) (address : Nat) (w : Word) :
    Columns (palette.line painter address w) (address % 4096) (palette.once painter w) w where
  spelled := palette.toList_line address w
  address := length_hexChars (by decide) (Nat.mod_lt _ (by decide))
  text := modest.length_once_le w
  word := length_hexChars (by decide) w.toNat_lt

theorem not_mem_line (faithful : painter.Faithful) (palette : Palette Style) (address : Nat)
    (w : Word) :
    '\n' ∉ (palette.line painter address w).toList := by
  have digits (width n : Nat) : '\n' ∉ hexChars .lower width n :=
    not_mem_hexChars (by decide) .lower width n
  rw [toList_line]
  simp [digits, not_mem_once faithful palette w]

theorem getElem?_lines (palette : Palette Style) (address : Nat) (words : List Word) (k : Nat) :
    (palette.lines painter address words)[k]? =
      words[k]?.map (palette.line painter (address + 2 * k)) := by
  induction words generalizing address k with
  | nil => rfl
  | cons w rest ih =>
    cases k with
    | zero => rfl
    | succ k =>
      have later : address + 2 * (k + 1) = address + 2 + 2 * k := by omega
      rw [lines, List.getElem?_cons_succ, List.getElem?_cons_succ, ih, later]

theorem length_lines (palette : Palette Style) (address : Nat) (words : List Word) :
    (palette.lines painter address words).length = words.length := by
  induction words generalizing address with
  | nil => rfl
  | cons w rest ih => simp [lines, ih]

/-- The later lines of a listing are a listing of the later words, from their own address on. -/
theorem lines_drop (palette : Palette Style) (address : Nat) (words : List Word) (count : Nat) :
    palette.lines painter (address + 2 * count) (words.drop count) =
      (palette.lines painter address words).drop count := by
  apply List.ext_getElem?
  intro k
  have later : address + 2 * count + 2 * k = address + 2 * (count + k) := by omega
  rw [List.getElem?_drop, getElem?_lines, getElem?_lines, List.getElem?_drop, later]

/-- Addresses are shown up to the size of memory. -/
theorem lines_congr (palette : Palette Style) {a b : Nat} (same : a % 4096 = b % 4096)
    (words : List Word) : palette.lines painter a words = palette.lines painter b words := by
  apply List.ext_getElem?
  intro k
  have place : (a + 2 * k) % 4096 = (b + 2 * k) % 4096 := by omega
  have shown : palette.line painter (a + 2 * k) = palette.line painter (b + 2 * k) := by
    funext w
    simp only [line, place]
  rw [getElem?_lines, getElem?_lines, shown]

/-! ### Words read back -/

/-- The word in the last column of a line. -/
def lastWord? (line : String) : Option Word :=
  match read 16 0xffff (line.toList.drop (line.length - 4)) with
  | .ok value => some (UInt16.ofNat value)
  | .error _ => none

/-- The bytes of the words in the last columns of several lines. -/
def programOf? (lines : List String) : Option (List UInt8) :=
  (lines.mapM lastWord?).map fun words => words.flatMap Word.bytes

theorem Columns.lastWord? {line : String} {address : Nat} {text : String} {w : Word}
    (columns : Columns line address text w) : lastWord? line = some w := by
  -- Whatever the text is, forty-two characters stand in front of the last column.
  have front : (hexChars .lower 3 address ++ [':', ' '] ++
      (text.toList ++ List.replicate (36 - text.length) ' ') ++ [' ']).length = 42 := by
    have whole := columns.length
    have last := columns.word
    rw [← String.length_toList, columns.spelled, List.length_append] at whole
    omega
  have digits : line.toList.drop (line.length - 4) = hexChars .lower 4 w.toNat := by
    rw [columns.length, columns.spelled]
    exact List.drop_left' front
  have bound : w.toNat ≤ 0xffff := Nat.le_of_lt_succ w.toNat_lt
  rw [Palette.lastWord?, digits, read_hexChars .lower 4 bound]
  simp

theorem Modest.mapM_lastWord? (modest : palette.Modest painter) (address : Nat)
    (words : List Word) :
    (palette.lines painter address words).mapM lastWord? = some words := by
  induction words generalizing address with
  | nil => rfl
  | cons w rest ih =>
    rw [lines, List.mapM_cons, (modest.columns address w).lastWord?, ih]
    rfl

end Palette

end Chip8
