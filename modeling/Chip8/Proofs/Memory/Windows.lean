import Chip8.Proofs.Memory.Full

/-!
# Windows of memory

A run of bytes covers a window of places, one for each byte. The window may wrap past
the last place, and a long one covers a place more than once. Writing the run leaves
everything outside its window as it was.
-/
namespace Chip8.Memory

variable {m n : Memory} {address : Nat}

/-- The places that a run of bytes covers. -/
def window (address count : Nat) (place : Nat) : Prop :=
  ∃ j < count, place = (address + j) % memorySize

theorem getElem?_write {value : UInt8} (written : m.write address value = (.ok (), n))
    (place : Nat) :
    n.bytes[place]? = if place = address % memorySize then some value else m.bytes[place]? := by
  unfold write at written
  split at written
  next inside =>
    cases written
    rw [Array.getElem?_set]
    simp only [eq_comm]
  next => cases written

/-- The window of the rest begins one place later. -/
theorem window_succ {count place : Nat} (within : window (address + 1) count place) :
    window address (count + 1) place := by
  obtain ⟨j, inside, same⟩ := within
  exact ⟨j + 1, Nat.succ_lt_succ inside, by rw [same, Nat.add_assoc, Nat.add_comm 1 j]⟩

theorem getElem?_writeBytes_outside {bytes : List UInt8} {place : Nat}
    (written : m.writeBytes address bytes = (.ok (), n))
    (outside : ¬ window address bytes.length place) : n.bytes[place]? = m.bytes[place]? := by
  induction bytes generalizing m address with
  | nil =>
    cases written
    rfl
  | cons value rest ih =>
    obtain ⟨_, first, here, written⟩ := Attempt.exists_of_andThen_eq_ok written
    rw [ih written fun later => outside (window_succ later), getElem?_write here, if_neg]
    intro same
    exact outside ⟨0, Nat.zero_lt_succ _, same⟩

theorem byte_eq_getD (m : Memory) (address : Nat) :
    m.byte address = m.bytes[address % memorySize]?.getD 0 :=
  Array.getD_eq_getD_getElem?

theorem byte_writeBytes_outside {other : Nat} {bytes : List UInt8}
    (written : m.writeBytes address bytes = (.ok (), n))
    (outside : ¬ window address bytes.length (other % memorySize)) :
    n.byte other = m.byte other := by
  rw [byte_eq_getD, byte_eq_getD, getElem?_writeBytes_outside written outside]

theorem eq_of_getElem?_eq (same : ∀ place : Nat, n.bytes[place]? = m.bytes[place]?) : n = m := by
  cases m
  cases n
  exact congrArg mk (Array.ext_getElem? same)

theorem getElem?_of_full (full : m.Full) {place : Nat} (inside : place < memorySize) :
    m.bytes[place]? = some (m.byte place) := by
  have found : place < m.bytes.size := Nat.lt_of_lt_of_le inside full.room
  rw [byte_eq_getD, Nat.mod_eq_of_lt inside, Array.getElem?_eq_getElem found, Option.getD_some]

/-- Full memories with the same bytes are the same. -/
theorem eq_of_byte_eq (full : m.Full) (stored : n.Full)
    (same : ∀ address, n.byte address = m.byte address) : n = m := by
  apply eq_of_getElem?_eq
  intro place
  by_cases inside : place < memorySize
  · rw [getElem?_of_full full inside, getElem?_of_full stored inside, same place]
  · have beyond : memorySize ≤ place := Nat.le_of_not_lt inside
    rw [Array.getElem?_eq_none (Nat.le_trans (Nat.le_of_eq stored) beyond),
      Array.getElem?_eq_none (Nat.le_trans (Nat.le_of_eq full) beyond)]

end Chip8.Memory
