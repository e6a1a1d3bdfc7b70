import Chip8.Proofs.Screen.Canvas
import Chip8.Screen.Picture

/-!
# All pictures show the same pixels

A pixel has its place in the row of all pixels, in a line of the framed picture, and among the
eight dots of a braille character. All of them are counted from the coordinates, and the
coordinates are counted back from the place in the row when the canvas is drawn on. So each
picture tells every pixel, and screens that look the same are the same.
-/
namespace Chip8.Screen

variable {α : Type} {canvas : Canvas α} {on : α → (x y : Nat) → Bool} {s t : Screen} {x y : Nat}

/-- The character at a place of a text, with lines and columns counted from zero. -/
def charAt? (lines : List (List Char)) (line column : Nat) : Option Char :=
  lines[line]?.bind fun chars => chars[column]?

theorem charAt?_map_range {lines line column : Nat} {row : Nat → List Char}
    (inside : line < lines) :
    charAt? ((List.range lines).map row) line column = (row line)[column]? := by
  simp [charAt?, inside]

/-! ### Pixels -/

theorem get_add (s : Screen) (x y i j : Nat) : s.get (x + 64 * i) (y + 32 * j) = s.get x y := by
  have column : (x + 64 * i) % 64 = x % 64 := Nat.add_mul_mod_self_left ..
  have row : (y + 32 * j) % 32 = y % 32 := Nat.add_mul_mod_self_left ..
  simp only [get, Pixel.ofXY, Pixel.width, Pixel.height, column, row]

theorem getElem?_snapshot (s : Screen) (column : x < 64) (row : y < 32) :
    s.snapshot[64 * y + x]? = some (s.get x y) := by
  have inside : 64 * y + x < 2048 := by omega
  have place : Pixel.ofXY x y = ⟨64 * y + x, inside⟩ := by
    ext
    simp only [Pixel.ofXY, Pixel.width, Pixel.height]
    omega
  rw [snapshot, Vector.getElem?_toList, Vector.getElem?_eq_getElem inside, get, place]
  rfl

theorem length_snapshot (s : Screen) : s.snapshot.length = 2048 := Vector.length_toList

/-- The coordinates of a place in the row of all pixels are those of its pixel. -/
theorem mem_litPlaces (s : Screen) (x y : Nat) :
    (x, y) ∈ s.litPlaces ↔ (x < 64 ∧ y < 32) ∧ s.get x y = true := by
  simp only [litPlaces, List.mem_map, List.mem_filter, Prod.exists, Prod.mk.injEq, Pixel.width]
  constructor
  · rintro ⟨lit, index, ⟨member, rfl⟩, rfl, rfl⟩
    rw [List.mk_mem_zipIdx_iff_getElem?] at member
    have inside : index < 2048 := by
      rw [← s.length_snapshot]
      exact (List.getElem?_eq_some_iff.mp member).1
    -- Counted back and forth, the coordinates lead to the same place again.
    have bounds : index % 64 < 64 ∧ index / 64 < 32 := by omega
    have place : 64 * (index / 64) + index % 64 = index := Nat.div_add_mod index 64
    have pixel := s.getElem?_snapshot bounds.1 bounds.2
    rw [place, member] at pixel
    exact ⟨bounds, (Option.some.inj pixel).symm⟩
  · rintro ⟨⟨column, row⟩, lit⟩
    have pixel := s.getElem?_snapshot column row
    rw [lit] at pixel
    refine ⟨true, 64 * y + x, ⟨List.mk_mem_zipIdx_iff_getElem?.mpr pixel, rfl⟩, ?_, ?_⟩
    · omega
    · omega

theorem pixels_eq_of_get (same : ∀ x < 64, ∀ y < 32, t.get x y = s.get x y) :
    t.pixels = s.pixels := by
  apply Cells.ext
  intro p
  have column : p.val % 64 < 64 := Nat.mod_lt _ (by decide)
  have row : p.val / 64 < 32 := by
    have inside := p.isLt
    omega
  have place : Pixel.ofXY (p.val % 64) (p.val / 64) = p := by
    ext
    simp only [Pixel.ofXY, Pixel.width, Pixel.height]
    omega
  have pixel := same _ column _ row
  simp only [get, place] at pixel
  exact pixel

/-! ### Framed picture -/

/-- A line of the framed picture without its line break. -/
def framedRow (s : Screen) (y : Nat) : List Char :=
  '|' :: (List.range 64).map (fun x => pixelChar (s.get x y)) ++ ['|']

theorem pixelChar_inj {a b : Bool} (same : pixelChar a = pixelChar b) : a = b := by
  cases a <;> cases b <;> first | rfl | exact absurd same (by decide)

theorem madeOfLines_framed (s : Screen) :
    MadeOfLines s.framed ((List.range 32).map s.framedRow) := by
  apply madeOfLines_of_toList
  · rw [framed, String.toList_ofList, framedChars, List.flatMap_map]
    rfl
  · intro line shown
    obtain ⟨y, _, rfl⟩ := List.mem_map.mp shown
    have unbroken (on : Bool) : pixelChar on ≠ '\n' := by cases on <;> decide
    simp [framedRow, unbroken]

theorem getElem?_framedRow (s : Screen) (column : x < 64) (y : Nat) :
    (s.framedRow y)[x + 1]? = some (pixelChar (s.get x y)) := by
  simp [framedRow, List.getElem?_append, column]

/-! ### Braille picture -/

/-- The dots of a picture that shows all pixels of the screen and nothing else. -/
def lit (s : Screen) (x y : Nat) : Bool := decide (x < 64 ∧ y < 32) && s.get x y

/-- The lines of the braille picture. -/
def brailleRows (s : Screen) : List (List Char) :=
  Canvas.rows fun column line => Canvas.braille (Canvas.dotBits s.lit column line)

theorem lit_of_faithful (faithful : canvas.Faithful on) (s : Screen) :
    on (canvas.plot s.litPlaces) = s.lit := by
  funext x y
  rw [faithful.plot, lit, Bool.eq_iff_iff]
  simp [mem_litPlaces]

theorem brailleRow_unbroken (s : Screen) {line : List Char} (shown : line ∈ s.brailleRows) :
    '\n' ∉ line := by
  obtain ⟨row, _, rfl⟩ := List.mem_map.mp shown
  intro member
  obtain ⟨column, _, same⟩ := List.mem_map.mp member
  exact Canvas.braille_ne_break (Canvas.dotBits_lt s.lit column row) same

theorem madeOfLines_printedOn (faithful : canvas.Faithful on) (s : Screen) :
    MadeOfLines (s.printedOn canvas) s.brailleRows := by
  -- A canvas is only relied on for dots on the screen, so this has to be known first.
  have bounded : ∀ x y, on (canvas.plot s.litPlaces) x y = true → x < 64 ∧ y < 32 := by
    intro x y shown
    rw [lit_of_faithful faithful, lit, Bool.and_eq_true, decide_eq_true_eq] at shown
    exact shown.1
  apply madeOfLines_of_intercalate
  · rw [printedOn, String.toList_ofList, faithful.frame _ bounded, lit_of_faithful faithful]
    rfl
  · simp [brailleRows, Canvas.rows, Canvas.lines]
  · intro line shown
    exact s.brailleRow_unbroken shown

theorem charAt?_brailleRows (s : Screen) {column line : Nat} (left : column < 33)
    (high : line < 9) :
    charAt? s.brailleRows line column =
      some (Canvas.braille (Canvas.dotBits s.lit column line)) := by
  have rows : line < Canvas.lines := high
  have columns : column < Canvas.columns := left
  rw [brailleRows, Canvas.rows, charAt?_map_range rows]
  simp [columns]

/-- A pixel is a dot of the character that covers its place. -/
theorem showsDot_brailleRows (s : Screen) (column : x < 64) (row : y < 32) :
    (charAt? s.brailleRows (y / 4) (x / 2)).map (Canvas.showsDot · (x % 2) (y % 4)) =
      some (s.get x y) := by
  have dot : (x % 2, y % 4) ∈ Canvas.places :=
    Canvas.mem_places (Nat.mod_lt _ (by decide)) (Nat.mod_lt _ (by decide))
  have bit : (Canvas.dotBits s.lit (x / 2) (y / 4)).testBit (Canvas.dotPlace (x % 2) (y % 4)) =
      s.lit (2 * (x / 2) + x % 2) (4 * (y / 4) + y % 4) := Canvas.testBit_dotBits dot
  have across : 2 * (x / 2) + x % 2 = x := Nat.div_add_mod x 2
  have down : 4 * (y / 4) + y % 4 = y := Nat.div_add_mod y 4
  have pixel : s.lit x y = s.get x y := by simp [lit, column, row]
  rw [across, down, pixel] at bit
  rw [charAt?_brailleRows s (by omega) (by omega), Option.map_some,
    Canvas.showsDot_braille (Canvas.dotBits_lt ..), bit]

/-- No pixel has its place in the last line or the last column. -/
theorem brailleRows_blank (s : Screen) {column line : Nat} (left : column < 33) (high : line < 9)
    (margin : column = 32 ∨ line = 8) : charAt? s.brailleRows line column = some ' ' := by
  have off : Canvas.dotBits s.lit column line = 0 := by
    apply Canvas.dotBits_eq_zero
    intro p _
    have outside : ¬ (2 * column + p.1 < 64 ∧ 4 * line + p.2 < 32) := by omega
    simp [lit, outside]
  rw [charAt?_brailleRows s left high, off]
  rfl

/-! ### Pictures told apart -/

theorem pixels_eq_of_framed (same : t.framed = s.framed) : t.pixels = s.pixels := by
  have lines : (List.range 32).map t.framedRow = (List.range 32).map s.framedRow := by
    have made := t.madeOfLines_framed
    rw [same] at made
    exact made.unique s.madeOfLines_framed
  apply pixels_eq_of_get
  intro x column y row
  have chars := congrArg (charAt? · y (x + 1)) lines
  simp only [charAt?_map_range row, getElem?_framedRow _ column, Option.some.injEq] at chars
  exact pixelChar_inj chars

theorem pixels_eq_of_printedOn (faithful : canvas.Faithful on)
    (same : t.printedOn canvas = s.printedOn canvas) : t.pixels = s.pixels := by
  -- Equal texts have equal lines, and these tell each pixel by its dot.
  have lines : t.brailleRows = s.brailleRows := by
    have made := madeOfLines_printedOn faithful t
    rw [same] at made
    exact made.unique (madeOfLines_printedOn faithful s)
  apply pixels_eq_of_get
  intro x column y row
  have dots := t.showsDot_brailleRows column row
  rw [lines, s.showsDot_brailleRows column row] at dots
  exact (Option.some.inj dots).symm

/-- A pixel is the same wherever it is looked for: at its coordinates, also beyond the edges, in
the row of all pixels, in the framed picture, and as a dot of the braille picture, whatever
canvas that is drawn on. The framed picture has thirty-two lines of sixty-four characters
between bars; the braille picture has nine lines of thirty-three characters, the last of them
blank, as is the last line. Either picture tells all pixels. -/
theorem renderings_agree (faithful : canvas.Faithful on) (s : Screen) :
    ∃ framed printed,
      MadeOfLines s.framed framed ∧ framed.length = 32 ∧
      (∀ line ∈ framed, ∃ cells, line = '|' :: cells ++ ['|'] ∧ cells.length = 64) ∧
      MadeOfLines (s.printedOn canvas) printed ∧ printed.length = 9 ∧
      (∀ line ∈ printed, line.length = 33) ∧
      s.snapshot.length = 2048 ∧
      (∀ x < 64, ∀ y < 32,
        (∀ i j, s.get (x + 64 * i) (y + 32 * j) = s.get x y) ∧
        s.snapshot[64 * y + x]? = some (s.get x y) ∧
        charAt? framed y (x + 1) = some (if s.get x y then '█' else ' ') ∧
        (charAt? printed (y / 4) (x / 2)).map (Canvas.showsDot · (x % 2) (y % 4)) =
          some (s.get x y)) ∧
      (∀ column < 33, ∀ line < 9, column = 32 ∨ line = 8 →
        charAt? printed line column = some ' ') ∧
      ∀ t : Screen, t.framed = s.framed ∨ t.printedOn canvas = s.printedOn canvas →
        t.pixels = s.pixels := by
  refine ⟨_, _, s.madeOfLines_framed, by simp, ?_, madeOfLines_printedOn faithful s, rfl, ?_,
    s.length_snapshot, ?_, ?_, ?_⟩
  · intro line shown
    obtain ⟨y, _, rfl⟩ := List.mem_map.mp shown
    exact ⟨_, rfl, by simp⟩
  · intro line shown
    obtain ⟨row, _, rfl⟩ := List.mem_map.mp shown
    simp [Canvas.columns]
  · intro x column y row
    refine ⟨s.get_add x y, s.getElem?_snapshot column row, ?_, s.showsDot_brailleRows column row⟩
    rw [charAt?_map_range row, getElem?_framedRow s column]
    rfl
  · intro column left line high margin
    exact s.brailleRows_blank left high margin
  · rintro t (same | same)
    · exact pixels_eq_of_framed same
    · exact pixels_eq_of_printedOn faithful same

/-- One pixel in the lower right corner of the screen is the last dot of its character, on the
canvas that keeps its dots in cells. -/
theorem corner_is_last_dot :
    let s := (blank.toggle 63 31).2
    Canvas.cells.Faithful Canvas.litIn ∧ s.get 63 31 = true ∧
      ∃ printed, MadeOfLines s.braille printed ∧
        (charAt? printed 7 31).map (Canvas.showsDot · 1 3) = some true ∧
        (charAt? printed 7 31).map (Canvas.showsDot · 0 3) = some false := by
  intro s
  have on : s.get 63 31 = true := by decide +kernel
  have off : s.get 62 31 = false := by decide +kernel
  obtain ⟨_, printed, _, _, _, made, _, _, _, pixels, _, _⟩ :=
    renderings_agree Canvas.faithful_cells s
  obtain ⟨_, _, _, corner⟩ := pixels 63 (by decide) 31 (by decide)
  obtain ⟨_, _, _, beside⟩ := pixels 62 (by decide) 31 (by decide)
  rw [on] at corner
  rw [off] at beside
  exact ⟨Canvas.faithful_cells, on, printed, made, corner, beside⟩

end Chip8.Screen
