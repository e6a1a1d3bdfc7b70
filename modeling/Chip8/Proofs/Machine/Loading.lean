import Chip8.Machine.History
import Chip8.Proofs.Memory.Regions

/-!
# Loading programs

A load clears the program region and then writes the program at its start, or refuses it. So
the region holds the program and zeros behind it, or nothing but zeros, whatever was there
before, and nothing else of the machine is touched. A load on the level of memory clears
nothing first: it writes all of its data or none of it.
-/
namespace Chip8

/-- What the program region holds after a load. -/
def programImage (program : List UInt8) : List UInt8 :=
  if program.length ≤ 3584 then program ++ List.replicate (3584 - program.length) 0
  else List.replicate 3584 0

/-- What a load makes of memory. -/
structure Memory.Replaced (m n : Memory) (program : List UInt8) : Prop where
  size : n.size = m.size
  region : n.region .program = .ok (programImage program)
  rest : ∀ place, place < 0x200 ∨ 0x1000 ≤ place → n.bytes[place]? = m.bytes[place]?

namespace Memory

variable {m cleared n : Memory} {program : List UInt8}

theorem Loaded.rest_of_zeros
    (zeros : Loaded m cleared .program (List.replicate Region.program.size 0)) {place : Nat}
    (outside : place < 0x200 ∨ 0x1000 ≤ place) : cleared.bytes[place]? = m.bytes[place]? := by
  apply zeros.rest
  rw [List.length_replicate]
  exact outside

theorem replaced_of_loaded (room : memorySize ≤ m.size)
    (zeros : Loaded m cleared .program (List.replicate Region.program.size 0))
    (fits : program.length ≤ 3584) (loaded : Loaded cleared n .program program) :
    Replaced m n program := by
  have start : Region.program.start = 0x200 := rfl
  refine ⟨loaded.size.trans zeros.size, ?_, fun place outside => ?_⟩
  · rw [loaded.region fits (zeros.region_of_cleared room), List.drop_replicate, programImage,
      if_pos fits]
    rfl
  · rw [loaded.rest place (by omega), zeros.rest_of_zeros outside]

theorem replaced_of_cleared (room : memorySize ≤ m.size)
    (zeros : Loaded m cleared .program (List.replicate Region.program.size 0))
    (large : 3584 < program.length) : Replaced m cleared program := by
  refine ⟨zeros.size, ?_, fun place => zeros.rest_of_zeros⟩
  rw [zeros.region_of_cleared room, programImage, if_neg (Nat.not_le_of_lt large)]
  rfl

end Memory

namespace Machine

variable {m : Machine}

theorem exists_replaced (room : memorySize ≤ m.memory.size) (program : List UInt8) :
    ∃ memory, m.memory.Replaced memory program ∧
      m.perform (.load program) =
        (if program.length ≤ 3584 then .done
          else .failed (.fault (.programTooLarge program.length 3584)), { m with memory }) := by
  obtain ⟨cleared, clear, zeros⟩ := Memory.exists_clearRegion room .program
  have roomy : memorySize ≤ cleared.size := zeros.size.symm ▸ room
  simp only [perform, loadProgram, clear, Attempt.andThen]
  by_cases fits : program.length ≤ 3584
  · obtain ⟨memory, load, loaded⟩ := Memory.exists_loadRegion (r := .program) roomy fits
    refine ⟨memory, Memory.replaced_of_loaded room zeros fits loaded, ?_⟩
    rw [load, if_pos fits]
    rfl
  · have large : 3584 < program.length := Nat.lt_of_not_le fits
    refine ⟨cleared, Memory.replaced_of_cleared room zeros large, ?_⟩
    rw [Memory.loadRegion_of_large (r := .program) roomy large, if_neg fits]
    rfl

theorem room_loads (room : memorySize ≤ m.memory.size) (programs : List (List UInt8)) :
    memorySize ≤ (m.performAll (programs.map .load)).memory.size := by
  induction programs generalizing m with
  | nil => exact room
  | cons program rest ih =>
    obtain ⟨memory, replaced, loads⟩ := exists_replaced room program
    have kept : memorySize ≤ (m.perform (.load program)).2.memory.size := by
      rw [loads]
      exact replaced.size.symm ▸ room
    exact ih kept

/-- A load that succeeds leaves the program and zeros behind it in the program region, and one
that is refused leaves zeros; nothing else of the machine changes. So after any loads the last
one tells what the region holds. On the level of memory, data that does not fit changes nothing,
data that fits changes the first bytes of its region, as many as it has, and neither this nor
clearing touches the other region or the gap between them. -/
theorem loading_replaces_the_program (room : 4096 ≤ m.memory.size) :
    (∀ program : List UInt8, ∃ memory,
      m.perform (.load program) =
        (if program.length ≤ 3584 then .done
          else .failed (.fault (.programTooLarge program.length 3584)), { m with memory }) ∧
      memory.region .program = .ok (programImage program) ∧
      ∀ place, place < 0x200 ∨ 0x1000 ≤ place → memory.bytes[place]? = m.memory.bytes[place]?) ∧
    (∀ earlier last,
      (m.performAll ((earlier ++ [last]).map .load)).memory.region .program =
        .ok (programImage last)) ∧
    ∀ r : Region,
      (∀ data : List UInt8, r.size < data.length →
        m.memory.loadRegion r data =
          (.error (.fault (.programTooLarge data.length r.size)), m.memory) ∧
        m.perform (.memory (.load r data)) =
          (.failed (.fault (.programTooLarge data.length r.size)), m)) ∧
      (∀ data : List UInt8, data.length ≤ r.size → ∃ memory,
        m.memory.loadRegion r data = (.ok (), memory) ∧ m.memory.Loaded memory r data) ∧
      (∃ memory, m.memory.clearRegion r = (.ok (), memory) ∧
        m.memory.Loaded memory r (List.replicate r.size 0)) ∧
      ∀ memory, m.memory.clearRegion r = (.ok (), memory) ∨
          (∃ data, m.memory.loadRegion r data = (.ok (), memory)) →
        (∀ other, other ≠ r → memory.region other = m.memory.region other) ∧
        ∀ place, 0x50 ≤ place → place < 0x200 →
          memory.bytes[place]? = m.memory.bytes[place]? := by
  refine ⟨fun program => ?_, fun earlier last => ?_, fun r => ⟨?_, ?_, ?_, ?_⟩⟩
  · obtain ⟨memory, replaced, loads⟩ := exists_replaced room program
    exact ⟨memory, loads, replaced.region, replaced.rest⟩
  · obtain ⟨memory, replaced, loads⟩ := exists_replaced (room_loads room earlier) last
    rw [List.map_append, performAll, List.foldl_append]
    exact (congrArg (fun turn => turn.2.memory.region .program) loads).trans replaced.region
  · intro data large
    have refused := Memory.loadRegion_of_large room large
    refine ⟨refused, ?_⟩
    simp only [perform, updateMemory, Memory.update, refused]
    rfl
  · intro data fits
    exact Memory.exists_loadRegion room fits
  · exact Memory.exists_clearRegion room r
  · intro memory written
    have within : ∃ data : List UInt8, data.length ≤ r.size ∧ m.memory.Loaded memory r data := by
      rcases written with clear | ⟨data, load⟩
      · obtain ⟨cleared, again, zeros⟩ := Memory.exists_clearRegion room r
        cases clear.symm.trans again
        exact ⟨_, (List.length_replicate ..).le, zeros⟩
      · exact ⟨data, Memory.loaded_of_loadRegion room load⟩
    obtain ⟨data, fits, loaded⟩ := within
    exact ⟨fun other => loaded.other fits room, fun place => loaded.gap fits⟩

/-- A program that is one byte too long takes away the one before it, which filled the region. -/
theorem refused_load_leaves_zeros :
    let first : List UInt8 := List.replicate 3584 0xaa
    let second : List UInt8 := List.replicate 3585 0xbb
    4096 ≤ (new { }).memory.size ∧
      ((new { }).performAll ([first, second].map .load)).memory.region .program =
        .ok (List.replicate 3584 0) := by
  intro first second
  have room : 4096 ≤ (new { }).memory.size := Memory.full_initial.room
  have large : ¬ second.length ≤ 3584 := by
    rw [List.length_replicate]
    decide
  have image : programImage second = List.replicate 3584 0 := if_neg large
  obtain ⟨-, last, -⟩ := loading_replaces_the_program room
  refine ⟨room, ?_⟩
  rw [← image]
  exact last [first] second

end Machine

end Chip8
