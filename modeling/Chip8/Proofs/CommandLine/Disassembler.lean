import Chip8.CommandLine.Disassembler
import Chip8.Proofs.Lines
import Chip8.Proofs.Listing.Columns

/-!
# Offsets into a program

The disassembler leaves out the bytes in front of an offset and moves the addresses by as
much. The address is a word and wraps when the offset is added, but a word can wrap no other
way than by whole memories, and lines show addresses up to the size of memory. So with an
even offset the command prints the same lines as without one, from some line on: an offset
past the end leaves none of them, however large it is.
-/
namespace Chip8

namespace Palette

variable {Style : Type} {painter : Painter Style} {palette : Palette Style}
  {program : List UInt8}

/-- The listing of a program whose first words are left out. -/
theorem listing_drop (palette : Palette Style) (address : Word) (program : List UInt8)
    (count : Nat) :
    palette.listing painter (address + UInt16.ofNat (2 * count)) (program.drop (2 * count)) =
      (palette.listing painter address program).drop count := by
  -- Words wrap at a multiple of the size of memory, so cutting the offset down is not seen.
  have same : (address + UInt16.ofNat (2 * count)).toNat % 4096 =
      (address.toNat + 2 * count) % 4096 := by
    rw [UInt16.toNat_add, UInt16.toNat_ofNat']
    omega
  rw [listing, listing, Word.ofByteList_drop, ← lines_drop, palette.lines_congr same]

theorem length_listing (palette : Palette Style) (address : Word) (program : List UInt8) :
    (palette.listing painter address program).length = program.length / 2 := by
  rw [listing, length_lines, Word.length_ofByteList]

theorem Modest.columns_of_bytes (modest : palette.Modest painter) (address : Word) {k : Nat}
    {high low : UInt8} (first : program[2 * k]? = some high)
    (second : program[2 * k + 1]? = some low) :
    ∃ line, (palette.listing painter address program)[k]? = some line ∧
      Columns line ((address.toNat + 2 * k) % 4096) (palette.once painter (Word.ofBytes high low))
        (Word.ofBytes high low) := by
  refine ⟨_, ?_, modest.columns _ _⟩
  rw [listing, getElem?_lines, Word.getElem?_ofByteList first second]
  rfl

theorem Modest.programOf?_listing (modest : palette.Modest painter) (address : Word)
    (program : List UInt8) :
    programOf? (palette.listing painter address program) =
      some (program.take (2 * (program.length / 2))) := by
  rw [programOf?, listing, modest.mapM_lastWord?, Option.map_some, Word.flatMap_bytes_ofByteList]

theorem unbroken (faithful : painter.Faithful) (palette : Palette Style) (address : Word)
    {line : List Char}
    (shown : line ∈ (palette.listing painter address program).map String.toList) :
    '\n' ∉ line := by
  obtain ⟨text, member, rfl⟩ := List.mem_map.mp shown
  -- A line of a listing is known by its number.
  obtain ⟨k, found⟩ := List.getElem?_of_mem member
  rw [listing, getElem?_lines, Option.map_eq_some_iff] at found
  obtain ⟨w, _, rfl⟩ := found
  exact not_mem_line faithful palette _ w

end Palette

namespace CommandLine.Disassembler

variable {Style : Type} {painter : Painter Style} {o : Options}

theorem Options.length_lines (o : Options) (program : List UInt8) :
    (o.lines painter program).length = (program.length - o.offset) / 2 := by
  rw [lines, Palette.length_listing, List.length_drop]

/-- An even offset leaves out lines, and changes none. -/
theorem Options.lines_of_even (even : o.offset % 2 = 0) (program : List UInt8) :
    o.lines painter program =
      ({ o with offset := 0 }.lines painter program).drop (o.offset / 2) := by
  have twice : o.offset = 2 * (o.offset / 2) := by omega
  have whole : { o with offset := 0 }.lines painter program =
      (o.palette painter).listing painter o.address program := by
    rw [lines]
    simp [palette]
  rw [whole, ← Palette.listing_drop, ← twice, lines]

/-- The output is the listing, one line after the other. -/
theorem Options.output_of_contents (faithful : painter.Faithful) (o : Options)
    (program : List UInt8) :
    ∃ text, o.run painter (.ok program) = ⟨0, text, ""⟩ ∧
      MadeOfLines text ((o.lines painter program).map String.toList) := by
  refine ⟨_, rfl, madeOfLines_of_toList ?_ fun line => Palette.unbroken faithful _ _⟩
  simp only [String.toList_join, List.flatMap_map, String.toList_append]
  rfl

end CommandLine.Disassembler

open CommandLine.Disassembler (Options)

variable {Style : Type} {painter : Painter Style}

/-- A listing has a line for every two bytes. Whatever painter is used, if it puts nothing but
escape sequences around a text, and not too many of them, then a line is forty-six characters
wide: it shows the address, counted on by two and wrapped, the text of the word in a column that
no text is too long for, and the word, so that the last columns of all lines spell the program
again, but for a last odd byte. The disassembler prints the listing from its offset on. If the
offset is even, these are the lines that it prints without one, but for the first ones, also if
the offset is past the end or does not fit in a word. -/
theorem listings_are_lossless (faithful : painter.Faithful) (brief : painter.Brief 19) :
    (∀ palette ∈ [Palette.plain painter, Palette.colored painter],
      ∀ (address : Word) (program : List UInt8),
      let lines := palette.listing painter address program
      lines.length = program.length / 2 ∧
      (∀ k high low, program[2 * k]? = some high → program[2 * k + 1]? = some low →
        let w := Word.ofBytes high low
        ∃ line, lines[k]? = some line ∧ line.length = 46 ∧
          Palette.Columns line ((address.toNat + 2 * k) % 4096) (palette.once painter w) w) ∧
      Palette.programOf? lines = some (program.take (2 * (program.length / 2)))) ∧
    ∀ (o : Options) (program : List UInt8),
      ∃ text printed wholeText whole,
        o.run painter (.ok program) = ⟨0, text, ""⟩ ∧ MadeOfLines text printed ∧
        { o with offset := 0 }.run painter (.ok program) = ⟨0, wholeText, ""⟩ ∧
        MadeOfLines wholeText whole ∧
        printed = ((o.palette painter).listing painter (o.address + UInt16.ofNat o.offset)
          (program.drop o.offset)).map String.toList ∧
        printed.length = (program.length - o.offset) / 2 ∧
        (o.offset % 2 = 0 → printed = whole.drop (o.offset / 2)) := by
  constructor
  · intro palette offered address program lines
    have modest := Palette.modest_of_mem faithful brief offered
    refine ⟨palette.length_listing address program, ?_, modest.programOf?_listing address program⟩
    intro k high low first second w
    obtain ⟨line, found, columns⟩ := modest.columns_of_bytes address first second
    exact ⟨line, found, columns.length, columns⟩
  · intro o program
    obtain ⟨text, output, made⟩ := o.output_of_contents faithful program
    obtain ⟨wholeText, wholeOutput, wholeMade⟩ :=
      { o with offset := 0 }.output_of_contents faithful program
    refine ⟨text, _, wholeText, _, output, made, wholeOutput, wholeMade, ?_, ?_, ?_⟩
    · rw [Options.lines]
    · rw [List.length_map, o.length_lines]
    · intro even
      rw [Options.lines_of_even even, List.map_drop]

/-- The address wraps between the first line and the second, and the offset is larger than a
word. -/
theorem listing_around_the_end :
    let painter := Painter.terminal
    let palette := Palette.colored painter
    let program : List UInt8 := [0x00, 0xe0, 0x12, 0x00, 0xff]
    let o : Options := { offset := 65538 }
    painter.Faithful ∧ painter.Brief 19 ∧ palette ∈ [Palette.plain painter, palette] ∧
      program[2 * 1]? = some 0x12 ∧ program[2 * 1 + 1]? = some 0x00 ∧
      (∃ line, (palette.listing painter 0xffff program)[1]? = some line ∧ line.length = 46 ∧
        Palette.Columns line 1 (palette.once painter 0x1200) 0x1200) ∧
      o.offset % 2 = 0 ∧
      ∃ text printed wholeText whole,
        o.run painter (.ok (List.replicate 65542 0xff)) = ⟨0, text, ""⟩ ∧
        MadeOfLines text printed ∧
        { o with offset := 0 }.run painter (.ok (List.replicate 65542 0xff)) =
          ⟨0, wholeText, ""⟩ ∧
        MadeOfLines wholeText whole ∧ printed.length = 2 ∧ printed = whole.drop 32769 := by
  intro painter palette program o
  obtain ⟨listings, command⟩ :=
    listings_are_lossless Painter.faithful_terminal Painter.brief_terminal
  have offered : palette ∈ [Palette.plain painter, palette] := by simp
  obtain ⟨_, lines, _⟩ := listings palette offered 0xffff program
  obtain ⟨text, printed, wholeText, whole, output, made, wholeOutput, wholeMade, _, length, drop⟩ :=
    command o (List.replicate 65542 0xff)
  have even : o.offset % 2 = 0 := by decide
  have half : o.offset / 2 = 32769 := by decide
  have two : (65542 - o.offset) / 2 = 2 := by decide
  rw [List.length_replicate, two] at length
  rw [half] at drop
  exact ⟨Painter.faithful_terminal, Painter.brief_terminal, offered, rfl, rfl,
    lines 1 0x12 0x00 rfl rfl, even, text, printed, wholeText, whole, output, made, wholeOutput,
    wholeMade, length, drop even⟩

end Chip8
