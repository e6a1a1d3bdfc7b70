import Chip8.Proofs.Screen.Drawing

/-!
# What the counter of a screen tells

Draws and clears are counted, and a toggle is not. So as long as the counter stays the same,
no more than single pixels have been toggled, and each of them is turned over by the parity of
its toggles. Whoever redraws a screen only when its counter has changed misses these, and
nothing else.
-/
namespace Chip8.Screen

/-- The ways in which a screen is changed. -/
inductive Change
  | draw (x y : UInt8) (rows : List UInt8)
  | clear
  | toggle (x y : Nat)
deriving DecidableEq, Repr

namespace Change

def counted : Change → Bool
  | .draw _ _ _ => true
  | .clear => true
  | .toggle _ _ => false

/-- Whether the change is a toggle of this pixel. -/
def toggles (p : Pixel) : Change → Bool
  | .toggle x y => Pixel.ofXY x y = p
  | _ => false

end Change

def change (s : Screen) : Change → Screen
  | .draw x y rows => (s.draw x y rows).2
  | .clear => s.clear
  | .toggle x y => (s.toggle x y).2

def changeAll (s : Screen) (changes : List Change) : Screen := changes.foldl change s

variable {s t : Screen} {changes : List Change}

/-! ### The counter -/

theorem generation_change (s : Screen) (c : Change) :
    (s.change c).generation = s.generation + UInt64.ofNat ([c].countP Change.counted) := by
  cases c with
  | draw x y rows =>
    have kept := s.generation_toggleAll (spritePixels x.toNat y.toNat rows)
    simp only [change, Screen.draw, bump, kept]
    rfl
  | clear => exact s.generation_clear
  | toggle x y => exact (UInt64.add_zero _).symm

theorem generation_changeAll (s : Screen) (changes : List Change) :
    (s.changeAll changes).generation =
      s.generation + UInt64.ofNat (changes.countP Change.counted) := by
  induction changes generalizing s with
  | nil => exact (UInt64.add_zero _).symm
  | cons c rest ih =>
    have later : (s.changeAll (c :: rest)).generation =
        (s.change c).generation + UInt64.ofNat (rest.countP Change.counted) := ih (s.change c)
    have split : (c :: rest).countP Change.counted =
        [c].countP Change.counted + rest.countP Change.counted := by
      rw [← List.countP_append, List.singleton_append]
    rw [later, generation_change, split, UInt64.ofNat_add, UInt64.add_assoc]

/-- The counter comes back to the same value only after as many changes as it has values. -/
theorem generation_eq_iff (few : changes.length < UInt64.size) :
    (s.changeAll changes).generation = s.generation ↔
      ∀ c ∈ changes, c.counted = false := by
  have bound : changes.countP Change.counted < UInt64.size :=
    Nat.lt_of_le_of_lt List.countP_le_length few
  have none : (∀ c ∈ changes, c.counted = false) ↔ changes.countP Change.counted = 0 := by
    simp [List.countP_eq_zero]
  rw [none, generation_changeAll]
  constructor
  · intro same
    -- The counter may wrap, but not all the way round in so few changes.
    have values := congrArg UInt64.toNat same
    have small := s.generation.toNat_lt
    rw [UInt64.toNat_add, UInt64.toNat_ofNat'] at values
    unfold UInt64.size at bound
    omega
  · intro zero
    rw [zero]
    exact UInt64.add_zero _

/-! ### The pixels -/

theorem read_change_of_toggle (s : Screen) {c : Change} (alone : c.counted = false) (p : Pixel) :
    (s.change c).pixels.read p = (s.pixels.read p ^^ decide (Odd ([c].countP (·.toggles p)))) := by
  cases c with
  | draw x y rows => cases alone
  | clear => cases alone
  | toggle x y =>
    -- One toggle is an odd number of them for its own pixel, and none for any other.
    rw [change, toggle, read_togglePixel]
    by_cases same : Pixel.ofXY x y = p <;> simp [Change.toggles, same]

/-- Toggles turn over the pixels that they toggle an odd number of times. -/
theorem read_changeAll_of_toggles (s : Screen) (alone : ∀ c ∈ changes, c.counted = false)
    (p : Pixel) :
    (s.changeAll changes).pixels.read p =
      (s.pixels.read p ^^ decide (Odd (changes.countP (·.toggles p)))) := by
  induction changes generalizing s with
  | nil => simp [changeAll]
  | cons c rest ih =>
    have first := alone c List.mem_cons_self
    have later : (s.changeAll (c :: rest)).pixels.read p =
        ((s.change c).pixels.read p ^^ decide (Odd (rest.countP (·.toggles p)))) :=
      ih (s.change c) fun other member => alone other (List.mem_cons_of_mem _ member)
    have split : (c :: rest).countP (·.toggles p) =
        [c].countP (·.toggles p) + rest.countP (·.toggles p) := by
      rw [← List.countP_append, List.singleton_append]
    rw [later, read_change_of_toggle s first, split, odd_add_eq, Bool.xor_assoc]

theorem snapshot_eq_iff : t.snapshot = s.snapshot ↔ ∀ p, t.pixels.read p = s.pixels.read p := by
  rw [snapshot, snapshot, Vector.toList_inj]
  constructor
  · intro same p
    rw [same]
  · exact Cells.ext

/-- The counter of a screen is the same at two moments exactly if there has been nothing but
toggles of single pixels in between. The picture is then the same as well exactly if each pixel
has been toggled an even number of times. -/
theorem counter_passes_over_toggles (earlier later : List Change)
    (few : later.length < UInt64.size) :
    let s := blank.changeAll earlier
    let t := s.changeAll later
    (t.generation = s.generation ↔ ∀ c ∈ later, c.counted = false) ∧
      (t.generation = s.generation →
        (t.snapshot = s.snapshot ↔ ∀ p, Even (later.countP (·.toggles p)))) := by
  intro s t
  have only : t.generation = s.generation ↔ ∀ c ∈ later, c.counted = false :=
    generation_eq_iff few
  refine ⟨only, ?_⟩
  intro same
  rw [snapshot_eq_iff]
  apply forall_congr'
  intro p
  rw [read_changeAll_of_toggles s (only.mp same) p]
  cases s.pixels.read p <;> simp

/-- A pixel that has been drawn and is then toggled, by coordinates beyond the edges. -/
theorem toggle_back_is_not_counted :
    let s := blank.changeAll [.draw 0 0 [0x80]]
    let t := s.changeAll [.toggle 64 32]
    [Change.toggle 64 32].length < UInt64.size ∧
      t.generation = s.generation ∧ t.snapshot ≠ s.snapshot := by
  intro s t
  have few : [Change.toggle 64 32].length < UInt64.size := by decide
  obtain ⟨only, told⟩ := counter_passes_over_toggles [.draw 0 0 [0x80]] [.toggle 64 32] few
  have same : t.generation = s.generation := only.mpr (by simp [Change.counted])
  refine ⟨few, same, ?_⟩
  intro unchanged
  have even := (told same).mp unchanged (Pixel.ofXY 0 0)
  exact absurd even (by decide)

/-- Not every change of a picture shows in the counter. -/
theorem same_counter_with_other_pixels :
    ¬ ∀ earlier later : List Change, later.length < UInt64.size →
      let s := blank.changeAll earlier
      let t := s.changeAll later
      t.generation = s.generation → t.snapshot = s.snapshot := by
  intro sound
  have same := sound [] [.toggle 0 0] (by decide) rfl
  have pixel := snapshot_eq_iff.mp same (Pixel.ofXY 0 0)
  exact absurd pixel (by decide +kernel)

end Chip8.Screen
