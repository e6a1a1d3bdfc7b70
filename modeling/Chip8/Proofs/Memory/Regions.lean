import Chip8.Proofs.Memory.Circle

/-!
# Regions of memory

A region does not wrap, so data that fits in it is written from its start on, byte by byte, and
no other byte is touched: not the rest of the region, not the other region, and nothing between
them. Clearing a region is to write as many zeros as it is long.
-/
namespace Chip8

namespace Region

theorem start_add_size (r : Region) : r.start + r.size = r.stop := by cases r <;> rfl

theorem stop_le (r : Region) : r.stop ≤ memorySize := by cases r <;> decide

theorem apart {r other : Region} (distinct : other ≠ r) :
    other.stop ≤ r.start ∨ r.stop ≤ other.start := by
  cases r with
  | charset =>
    cases other with
    | charset => exact absurd rfl distinct
    | program => exact Or.inr (by decide)
  | program =>
    cases other with
    | charset => exact Or.inl (by decide)
    | program => exact absurd rfl distinct

end Region

namespace Memory

variable {m n : Memory} {r : Region} {data : List UInt8}

/-! ### Reading a region -/

theorem region_eq_ok_iff {bytes : List UInt8} :
    m.region r = .ok bytes ↔
      r.stop ≤ m.size ∧ bytes.length = r.size ∧
        ∀ j < r.size, bytes[j]? = m.bytes[r.start + j]? := by
  have ends := r.start_add_size
  have taken (j : Nat) (inside : j < r.size) :
      ((m.bytes.toList.drop r.start).take r.size)[j]? = m.bytes[r.start + j]? := by
    rw [List.getElem?_take_of_lt inside, List.getElem?_drop, Array.getElem?_toList]
  unfold region
  split
  next room =>
    have long : ((m.bytes.toList.drop r.start).take r.size).length = r.size := by
      have size : r.stop ≤ m.bytes.size := room
      rw [List.length_take, List.length_drop, Array.length_toList]
      omega
    rw [Except.ok.injEq]
    constructor
    · rintro rfl
      exact ⟨room, long, taken⟩
    · rintro ⟨-, same, agree⟩
      apply List.ext_getElem?
      intro j
      by_cases inside : j < r.size
      · rw [taken j inside, agree j inside]
      · rw [List.getElem?_eq_none (by omega), List.getElem?_eq_none (by omega)]
  next short => exact iff_of_false nofun fun read => short read.1

theorem exists_region (room : r.stop ≤ m.size) : ∃ bytes, m.region r = .ok bytes :=
  ⟨_, if_pos room⟩

/-! ### Writing to a region -/

/-- What data that fits leaves of memory if it is loaded into a region. -/
structure Loaded (m n : Memory) (r : Region) (data : List UInt8) : Prop where
  size : n.size = m.size
  first : ∀ j < data.length, n.bytes[r.start + j]? = data[j]?
  rest : ∀ place, place < r.start ∨ r.start + data.length ≤ place →
    n.bytes[place]? = m.bytes[place]?

theorem Written.loaded (fits : data.length ≤ r.size) (written : Written m n r.start data) :
    Loaded m n r data := by
  have ends := r.start_add_size
  have bound := r.stop_le
  -- The region ends in front of the place where memory wraps.
  have straight {j : Nat} (inside : j < data.length) :
      (r.start + j) % memorySize = r.start + j := Nat.mod_eq_of_lt (by omega)
  refine ⟨written.size, fun j inside => ?_, fun place outside => ?_⟩
  · rw [← straight inside]
    exact written.getElem?_of_short (by omega) inside
  · apply written.untouched
    intro j inside
    rw [straight inside]
    omega

theorem exists_loaded (room : memorySize ≤ m.size) (fits : data.length ≤ r.size) :
    ∃ n, m.writeBytes r.start data = (.ok (), n) ∧ Loaded m n r data := by
  obtain ⟨n, done, written⟩ := exists_written room r.start data
  exact ⟨n, done, written.loaded fits⟩

theorem exists_loadRegion (room : memorySize ≤ m.size) (fits : data.length ≤ r.size) :
    ∃ n, m.loadRegion r data = (.ok (), n) ∧ Loaded m n r data := by
  rw [loadRegion, if_pos (r.stop_le.trans room), if_pos fits]
  exact exists_loaded room fits

theorem loadRegion_of_large (room : memorySize ≤ m.size) (large : r.size < data.length) :
    m.loadRegion r data = (.error (.fault (.programTooLarge data.length r.size)), m) := by
  rw [loadRegion, if_pos (r.stop_le.trans room), if_neg (Nat.not_le_of_lt large)]

theorem loaded_of_loadRegion (room : memorySize ≤ m.size)
    (done : m.loadRegion r data = (.ok (), n)) : data.length ≤ r.size ∧ Loaded m n r data := by
  by_cases fits : data.length ≤ r.size
  · obtain ⟨memory, load, loaded⟩ := exists_loadRegion room fits
    cases done.symm.trans load
    exact ⟨fits, loaded⟩
  · cases done.symm.trans (loadRegion_of_large room (Nat.lt_of_not_le fits))

theorem exists_clearRegion (room : memorySize ≤ m.size) (r : Region) :
    ∃ n, m.clearRegion r = (.ok (), n) ∧ Loaded m n r (List.replicate r.size 0) := by
  rw [clearRegion, fillRegion, if_pos (r.stop_le.trans room)]
  exact exists_loaded room (List.length_replicate ..).le

namespace Loaded

/-- The data stands in front of what is left of the old contents. -/
theorem region (loaded : Loaded m n r data) (fits : data.length ≤ r.size) {old : List UInt8}
    (had : m.region r = .ok old) : n.region r = .ok (data ++ old.drop data.length) := by
  obtain ⟨room, long, agree⟩ := region_eq_ok_iff.mp had
  refine region_eq_ok_iff.mpr ⟨loaded.size.symm ▸ room, ?_, fun j inside => ?_⟩
  · rw [List.length_append, List.length_drop]
    omega
  · by_cases covered : j < data.length
    · rw [List.getElem?_append_left covered, loaded.first j covered]
    · rw [List.getElem?_append_right (by omega), List.getElem?_drop,
        Nat.add_sub_cancel' (by omega), agree j inside, loaded.rest _ (Or.inr (by omega))]

/-- Of the old contents nothing is left behind as many zeros as the region is long. -/
theorem region_of_cleared (cleared : Loaded m n r (List.replicate r.size 0))
    (room : memorySize ≤ m.size) : n.region r = .ok (List.replicate r.size 0) := by
  have long : (List.replicate r.size (0 : UInt8)).length = r.size := List.length_replicate
  obtain ⟨old, had⟩ := exists_region (r.stop_le.trans room)
  have covered : old.length ≤ r.size := (region_eq_ok_iff.mp had).2.1.le
  rw [cleared.region long.le had, long, List.drop_eq_nil_of_le covered, List.append_nil]

theorem other (loaded : Loaded m n r data) (fits : data.length ≤ r.size)
    (room : memorySize ≤ m.size) {other : Region} (distinct : other ≠ r) :
    n.region other = m.region other := by
  obtain ⟨old, had⟩ := exists_region (other.stop_le.trans room)
  obtain ⟨inside, long, agree⟩ := region_eq_ok_iff.mp had
  have apart := Region.apart distinct
  have endsOther := other.start_add_size
  have ends := r.start_add_size
  rw [had, region_eq_ok_iff]
  refine ⟨loaded.size.symm ▸ inside, long, fun j below => ?_⟩
  rw [agree j below, loaded.rest _ (by omega)]

/-- Nothing is written between the regions. -/
theorem gap (loaded : Loaded m n r data) (fits : data.length ≤ r.size) {place : Nat}
    (above : 0x50 ≤ place) (below : place < 0x200) : n.bytes[place]? = m.bytes[place]? := by
  apply loaded.rest
  cases r with
  | charset => exact Or.inr (Nat.le_trans (Nat.add_le_add_left fits _) above)
  | program => exact Or.inl below

end Loaded

end Memory

end Chip8
