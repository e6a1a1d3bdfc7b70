/-!
# Lines of a text

Whoever prints line by line ends every line with a line break. As long as no line has one
inside, a text is in as many pieces as it has line breaks, and one more, which is empty. So
the lines are found again in the text, and two texts that are equal have the same lines.
-/
namespace Chip8

/-- The text consists of these lines, each of them ended by a line break. -/
def MadeOfLines (text : String) (lines : List (List Char)) : Prop :=
  text.toList.splitOn '\n' = lines ++ [[]]

variable {text : String} {lines others : List (List Char)}

/-- A line break behind every line is a line break between all lines and an empty one. -/
theorem flatMap_append_break (lines : List (List Char)) :
    lines.flatMap (· ++ ['\n']) = ['\n'].intercalate (lines ++ [[]]) := by
  induction lines with
  | nil => rfl
  | cons line rest ih =>
    rw [List.flatMap_cons, ih, List.cons_append, List.intercalate_cons_of_ne_nil (by simp),
      List.append_assoc]

theorem madeOfLines_of_toList (spelled : text.toList = lines.flatMap (· ++ ['\n']))
    (unbroken : ∀ line ∈ lines, '\n' ∉ line) : MadeOfLines text lines := by
  rw [MadeOfLines, spelled, flatMap_append_break]
  apply List.splitOn_intercalate
  · intro line member
    -- What stands behind the last break is one more piece, which is empty.
    rcases List.mem_append.mp member with shown | last
    · exact unbroken line shown
    · rw [List.mem_singleton.mp last]
      exact List.not_mem_nil
  · simp

/-- Line breaks may as well be put between the lines first, and one behind the last of them. -/
theorem madeOfLines_of_intercalate (spelled : text.toList = ['\n'].intercalate lines ++ ['\n'])
    (some : lines ≠ []) (unbroken : ∀ line ∈ lines, '\n' ∉ line) : MadeOfLines text lines := by
  have pieces := List.splitOn_intercalate '\n' unbroken some
  unfold List.splitOn at pieces
  rw [MadeOfLines, spelled, List.splitOn, List.splitOnP_append_cons _ _ (by simp), pieces,
    List.splitOnP_nil]

theorem MadeOfLines.unique (first : MadeOfLines text lines) (second : MadeOfLines text others) :
    lines = others :=
  List.append_cancel_right (first.symm.trans second)

end Chip8
