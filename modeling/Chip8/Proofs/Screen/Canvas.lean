import Chip8.Proofs.Lines
import Chip8.Screen.Canvas

/-!
# What a canvas shows

The eight dots of a braille character have places of their own in its number, so each of them
can be read off the character. A faithful canvas shows the dots that have been turned on, and no
others: this is all that is relied on, whatever it keeps in the meantime. The canvas that keeps
one cell for each character is faithful.
-/
namespace Chip8.Canvas

variable {α : Type} {canvas : Canvas α} {on : α → (x y : Nat) → Bool}

/-! ### Dots of a character -/

/-- The dots of a character, by column and row. -/
def places : List (Nat × Nat) :=
  [(0, 0), (0, 1), (0, 2), (0, 3), (1, 0), (1, 1), (1, 2), (1, 3)]

theorem mem_places {dx dy : Nat} (column : dx < 2) (row : dy < 4) : (dx, dy) ∈ places := by
  have table : ∀ column < 2, ∀ row < 4, (column, row) ∈ places := by decide
  exact table dx column dy row

theorem dotPlace_inj : ∀ p ∈ places, ∀ q ∈ places,
    dotPlace p.1 p.2 = dotPlace q.1 q.2 → p = q := by
  decide

theorem dotPlace_lt : ∀ p ∈ places, dotPlace p.1 p.2 < 8 := by decide

theorem exists_dotPlace_eq : ∀ place < 8, ∃ p ∈ places, dotPlace p.1 p.2 = place := by decide

/-- The number of the dots of a character that are on in a picture. -/
def dotBits (on : (x y : Nat) → Bool) (column line : Nat) : Nat :=
  (places.filter fun (dx, dy) => on (2 * column + dx) (4 * line + dy)).foldl
    (fun bits (dx, dy) => bits ||| 1 <<< dotPlace dx dy) 0

theorem testBit_foldl_or (bits : Nat) (ps : List (Nat × Nat)) (place : Nat) :
    (ps.foldl (fun bits (dx, dy) => bits ||| 1 <<< dotPlace dx dy) bits).testBit place =
      (bits.testBit place || ps.any fun p => dotPlace p.1 p.2 = place) := by
  induction ps generalizing bits with
  | nil => simp
  | cons p rest ih =>
    rw [List.foldl_cons, ih, Nat.testBit_or, Nat.one_shiftLeft, Nat.testBit_two_pow,
      List.any_cons, Bool.or_assoc]

theorem testBit_dotBits {on : (x y : Nat) → Bool} {column line : Nat} {p : Nat × Nat}
    (dot : p ∈ places) :
    (dotBits on column line).testBit (dotPlace p.1 p.2) =
      on (2 * column + p.1) (4 * line + p.2) := by
  rw [dotBits, testBit_foldl_or, Nat.zero_testBit, Bool.false_or, Bool.eq_iff_iff,
    List.any_eq_true]
  constructor
  · rintro ⟨q, shown, same⟩
    obtain ⟨member, lit⟩ := List.mem_filter.mp shown
    -- No other dot has the same place.
    rw [← dotPlace_inj q member p dot (of_decide_eq_true same)]
    exact lit
  · intro lit
    exact ⟨p, List.mem_filter.mpr ⟨dot, lit⟩, decide_eq_true rfl⟩

theorem dotBits_lt (on : (x y : Nat) → Bool) (column line : Nat) :
    dotBits on column line < 256 := by
  apply Nat.lt_pow_two_of_testBit (n := 8)
  intro place large
  rw [dotBits, testBit_foldl_or, Nat.zero_testBit, Bool.false_or, List.any_eq_false]
  intro p shown
  have small := dotPlace_lt p (List.mem_filter.mp shown).1
  simp only [decide_eq_true_eq]
  omega

/-- The number of a character is told by its dots. -/
theorem eq_dotBits {on : (x y : Nat) → Bool} {column line bits : Nat} (small : bits < 256)
    (shown : ∀ p ∈ places, bits.testBit (dotPlace p.1 p.2) =
      on (2 * column + p.1) (4 * line + p.2)) :
    bits = dotBits on column line := by
  apply Nat.eq_of_testBit_eq
  intro place
  -- Every place below eight is that of a dot, and both numbers have nothing above.
  by_cases known : place < 8
  · obtain ⟨p, dot, rfl⟩ := exists_dotPlace_eq place known
    rw [shown p dot, testBit_dotBits dot]
  · have high : 2 ^ 8 ≤ 2 ^ place := Nat.pow_le_pow_right (by decide) (Nat.le_of_not_lt known)
    rw [Nat.testBit_lt_two_pow (Nat.lt_of_lt_of_le small high),
      Nat.testBit_lt_two_pow (Nat.lt_of_lt_of_le (dotBits_lt on column line) high)]

theorem dotBits_eq_zero {on : (x y : Nat) → Bool} {column line : Nat}
    (off : ∀ p ∈ places, on (2 * column + p.1) (4 * line + p.2) = false) :
    dotBits on column line = 0 := by
  symm
  apply eq_dotBits (by decide)
  intro p dot
  rw [off p dot, Nat.zero_testBit]

/-! ### Characters -/

/-- Whether a character shows a dot; a blank shows none. -/
def showsDot (c : Char) (dx dy : Nat) : Bool :=
  c ≠ ' ' && (c.toNat - 0x2800).testBit (dotPlace dx dy)

theorem toNat_braille {dots : Nat} (some : 0 < dots) (few : dots < 256) :
    (braille dots).toNat = 0x2800 + dots := by
  have valid : (0x2800 + dots).isValidChar := by
    left
    omega
  rw [braille, if_neg (Nat.ne_of_gt some), Char.ofNat, dif_pos valid]
  rfl

theorem showsDot_braille {dots : Nat} (few : dots < 256) (dx dy : Nat) :
    showsDot (braille dots) dx dy = dots.testBit (dotPlace dx dy) := by
  unfold showsDot
  rcases Nat.eq_zero_or_pos dots with rfl | some
  · simp [braille]
  · have number := toNat_braille some few
    have shown : braille dots ≠ ' ' := by
      intro blank
      rw [blank] at number
      have code : ' '.toNat = 32 := rfl
      omega
    simp [shown, number]

theorem braille_ne_break {dots : Nat} (few : dots < 256) : braille dots ≠ '\n' := by
  rcases Nat.eq_zero_or_pos dots with rfl | some
  · decide
  · intro same
    have number := toNat_braille some few
    rw [same] at number
    have code : '\n'.toNat = 10 := rfl
    omega

/-! ### Faithful canvases -/

/-- The canvas shows the dots that have been turned on, and no others, as long as all of them
have a place on the screen. -/
structure Faithful (canvas : Canvas α) (on : α → (x y : Nat) → Bool) : Prop where
  blank : ∀ x y, on canvas.blank x y = false
  set : ∀ drawn x y column row,
    on (canvas.set drawn x y) column row = (decide (x = column ∧ y = row) || on drawn column row)
  frame : ∀ drawn, (∀ x y, on drawn x y = true → x < 64 ∧ y < 32) →
    canvas.frame drawn =
      ['\n'].intercalate (rows fun column line => braille (dotBits (on drawn) column line))

theorem Faithful.foldl_set (faithful : canvas.Faithful on) (drawn : α) (dots : List (Nat × Nat))
    (x y : Nat) :
    on (dots.foldl (fun drawn (x, y) => canvas.set drawn x y) drawn) x y =
      (decide ((x, y) ∈ dots) || on drawn x y) := by
  induction dots generalizing drawn with
  | nil => simp
  | cons dot rest ih =>
    obtain ⟨column, row⟩ := dot
    rw [List.foldl_cons, ih, faithful.set, ← Bool.or_assoc]
    congr 1
    simp only [List.mem_cons, Prod.mk.injEq, Bool.decide_or, eq_comm, Bool.or_comm]

theorem Faithful.plot (faithful : canvas.Faithful on) (dots : List (Nat × Nat)) (x y : Nat) :
    on (canvas.plot dots) x y = decide ((x, y) ∈ dots) := by
  rw [Canvas.plot, faithful.foldl_set, faithful.blank, Bool.or_false]

/-- Whether a dot is on in the cell that has its place. -/
def litIn (drawn : Std.HashMap (Nat × Nat) UInt8) (x y : Nat) : Bool :=
  (drawn.getD (x / 2, y / 4) 0).toNat.testBit (dotPlace (x % 2) (y % 4))

theorem litIn_set (drawn : Std.HashMap (Nat × Nat) UInt8) (x y column row : Nat) :
    litIn (cells.set drawn x y) column row =
      (decide (x = column ∧ y = row) || litIn drawn column row) := by
  -- Another cell is left alone, and in the same cell one bit is set.
  have here : (x % 2, y % 4) ∈ places :=
    mem_places (Nat.mod_lt _ (by decide)) (Nat.mod_lt _ (by decide))
  have there : (column % 2, row % 4) ∈ places :=
    mem_places (Nat.mod_lt _ (by decide)) (Nat.mod_lt _ (by decide))
  simp only [litIn, cells, Std.HashMap.getD_insert, beq_iff_eq, Prod.mk.injEq]
  split
  next cell =>
    have bit : (UInt8.ofNat (1 <<< dotPlace (x % 2) (y % 4))).toNat =
        2 ^ dotPlace (x % 2) (y % 4) := by
      have small := Nat.pow_lt_pow_right (show 1 < 2 by decide) (dotPlace_lt _ here)
      rw [UInt8.toNat_ofNat', Nat.one_shiftLeft]
      exact Nat.mod_eq_of_lt small
    -- Two dots of one cell are the same if their places are.
    have same : dotPlace (x % 2) (y % 4) = dotPlace (column % 2) (row % 4) ↔
        x = column ∧ y = row := by
      constructor
      · intro places
        have dots := Prod.mk.inj (dotPlace_inj _ here _ there places)
        omega
      · rintro ⟨rfl, rfl⟩
        rfl
    rw [UInt8.toNat_or, Nat.testBit_or, bit, Nat.testBit_two_pow, cell.1, cell.2, Bool.or_comm]
    simp only [same]
  next other =>
    have apart : ¬ (x = column ∧ y = row) := by
      rintro ⟨rfl, rfl⟩
      exact other ⟨rfl, rfl⟩
    simp [apart]

theorem faithful_cells : cells.Faithful litIn where
  blank x y := by simp [litIn, cells]
  set := litIn_set
  frame drawn _ := by
    have cell (column line : Nat) : (drawn.getD (column, line) 0).toNat =
        dotBits (litIn drawn) column line := by
      apply eq_dotBits (UInt8.toNat_lt _)
      rintro ⟨dx, dy⟩ dot
      -- The dots of a character are found again in its own cell.
      obtain ⟨left, low⟩ : dx < 2 ∧ dy < 4 := by
        simp only [places, List.mem_cons, Prod.mk.injEq, List.not_mem_nil, or_false] at dot
        omega
      have place : ((2 * column + dx) / 2, (4 * line + dy) / 4) = (column, line) := by
        ext
        · show (2 * column + dx) / 2 = column
          omega
        · show (4 * line + dy) / 4 = line
          omega
      have x : (2 * column + dx) % 2 = dx := by omega
      have y : (4 * line + dy) % 4 = dy := by omega
      rw [litIn, place, x, y]
    simp only [cells, cell]

end Chip8.Canvas
