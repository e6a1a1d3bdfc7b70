import Chip8.Proofs.Machine.Room
import Chip8.Proofs.Memory.Restored

/-!
# Machines with restored memories

A host may put any memory that it has obtained into a machine. If there is a byte for every
address, no request is a trap from then on, however long the memory is. If there are fewer, the
machine need only be sent to the address behind the last of them: the next tick does not find
its instruction.
-/
namespace Chip8.Machine

variable {m : Machine}

/-- Nothing is fetched from behind the last byte. -/
theorem tick_of_short (running : m.status = .running) (short : m.memory.size < memorySize)
    (behind : m.registers.pc.toNat = m.memory.size) (random : UInt8)
    (arrivals : List (List Event)) :
    (m.perform (.tick random arrivals)).1 = .failed (.trap (.memoryIndex m.memory.size)) := by
  have absent : m.counted.fetch = .error (.trap (.memoryIndex m.memory.size)) := by
    show m.memory.readWord m.registers.pc.toNat = _
    rw [behind, Memory.readWord, Memory.read_size_of_short short]
    rfl
  have begun := beginTick_of_running running random
  rw [absent] at begun
  have ended := Session.tick_of_finished (s := { machine := m, arrivals }) begun
  simp only [perform, ended]
  rfl

/-- After a reset a machine can be sent to any place in memory. -/
theorem trap_of_short (short : m.memory.size < memorySize) (random : UInt8)
    (arrivals : List (List Event)) :
    ((m.performAll [.reset, .setPc (UInt16.ofNat m.memory.size)]).perform
      (.tick random arrivals)).1 = .failed (.trap (.memoryIndex m.memory.size)) := by
  have sent : m.performAll [.reset, .setPc (UInt16.ofNat m.memory.size)] =
      m.reset.setPc (UInt16.ofNat m.memory.size) := rfl
  -- The address is smaller than memory could be, so it is not wrapped on the way.
  have below : m.memory.size < 4096 := short
  have behind : (wrapAddress (UInt16.ofNat m.memory.size)).toNat = m.memory.size := by
    rw [toNat_wrapAddress, UInt16.toNat_ofNat']
    unfold memorySize
    omega
  rw [sent, reset_eq]
  apply tick_of_short
  · rfl
  · exact short
  · exact behind

/-- A memory may have been restored with any number of bytes, and it keeps them. Accesses, and
the requests to a machine that is given the memory, are free of traps exactly if it has a byte
for every address. -/
theorem size_of_memory_decides (count : Nat) :
    (∃ memory, Memory.Obtained memory count) ∧
      ∀ memory, Memory.Obtained memory count →
        memory.size = count ∧
        (4096 ≤ count →
          (∀ access trap, memory.access access ≠ .error (.trap trap)) ∧
            ∀ m : Machine, m.Reachable → ∀ requests request trap,
              (({ m with memory }.performAll requests).perform request).1 ≠
                .failed (.trap trap)) ∧
        (count < 4096 →
          memory.access (.byte count) = .error (.trap (.memoryIndex count)) ∧
            ∀ (m : Machine) (random : UInt8) (arrivals : List (List Event)),
              (({ m with memory }.performAll [.reset, .setPc (UInt16.ofNat count)]).perform
                (.tick random arrivals)).1 = .failed (.trap (.memoryIndex count))) := by
  constructor
  · -- Any bytes will do, as long as there are so many of them.
    have obtained := Memory.obtained_size ⟨Array.replicate count 0⟩
    rw [Memory.size, Array.size_replicate] at obtained
    exact ⟨_, obtained⟩
  · intro memory obtained
    obtain rfl := obtained.size
    refine ⟨rfl, fun room => ⟨Memory.access_ne_trap room, ?_⟩, fun short => ⟨?_, ?_⟩⟩
    · intro m reachable requests request
      have roomy : Roomy { m with memory } := ⟨reachable.wellFormed.registers, room⟩
      exact (unharmed_perform (roomy_performAll roomy requests) request).untrapped
    · rw [Memory.access, Memory.read_size_of_short short]
      rfl
    · intro m random arrivals
      exact trap_of_short (m := { m with memory }) short random arrivals

/-- One byte is too few, and those of a new machine are enough. -/
theorem one_byte_is_too_few :
    Memory.access ⟨#[0x12]⟩ (.byte 1) = .error (.trap (.memoryIndex 1)) ∧
      ∀ trap, ((new { }).perform (.tick 0 [])).1 ≠ .failed (.trap trap) := by
  have short : Memory.Obtained ⟨#[0x12]⟩ 1 := Memory.obtained_size _
  have full : Memory.Obtained Memory.initial 4096 := .initial
  obtain ⟨-, -, trapped⟩ := (size_of_memory_decides 1).2 _ short
  obtain ⟨-, untrapped, -⟩ := (size_of_memory_decides 4096).2 _ full
  have safe := (untrapped (Nat.le_refl _)).2 (new { }) (.new { }) [] (.tick 0 [])
  exact ⟨(trapped (by decide)).1, safe⟩

/-- An empty list is restored as a memory in which even the first instruction is missing. -/
theorem empty_list_is_restored :
    let memory : Memory := ⟨#[]⟩
    Memory.ofJson? (.object [("memory", .array [])]) = some memory ∧
      memory.size ≠ 4096 ∧ memory.access (.byte 0) = .error (.trap (.memoryIndex 0)) ∧
      ({ new { } with memory }.perform (.tick 0 [])).1 = .failed (.trap (.memoryIndex 512)) := by
  refine ⟨rfl, by decide, rfl, ?_⟩
  rfl

end Chip8.Machine
