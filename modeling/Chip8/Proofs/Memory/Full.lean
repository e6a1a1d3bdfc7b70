import Chip8.Memory

/-!
# Full memories

A memory is full if it has just the bytes that addresses can reach. There is room in it
for every access, as in a longer one: no access is a trap, and no write changes the
number of bytes. The only request that can fail is to load more than a region holds.
-/
namespace Chip8

/-- A computation that ends well has done so in both of its parts. -/
theorem exists_of_bind_eq_ok {α β : Type} {first : Except Abort α} {second : α → Except Abort β}
    {result : β} (done : first >>= second = .ok result) :
    ∃ value, first = .ok value ∧ second value = .ok result := by
  cases first with
  | error abort => cases done
  | ok value => exact ⟨value, rfl, done⟩

namespace Memory

def Full (m : Memory) : Prop := m.size = memorySize

/-- The byte that stands for an address; in a full memory every address has one. -/
def byte (m : Memory) (address : Nat) : UInt8 := m.bytes.getD (address % memorySize) 0

theorem full_initial : initial.Full := size_initial

theorem Full.room {m : Memory} (full : m.Full) : memorySize ≤ m.size := Nat.le_of_eq full.symm

/-- A memory may have more bytes than addresses can reach, as long as it has those. -/
theorem inside_of_room {m : Memory} (room : memorySize ≤ m.size) (address : Nat) :
    address % memorySize < m.size :=
  Nat.lt_of_lt_of_le (Nat.mod_lt _ (by decide)) room

theorem inside_of_full {m : Memory} (full : m.Full) (address : Nat) :
    address % memorySize < m.bytes.size :=
  inside_of_room full.room address

theorem stop_le_of_room {m : Memory} (room : memorySize ≤ m.size) (r : Region) :
    r.stop ≤ m.size := by
  refine Nat.le_trans ?_ room
  cases r <;> decide

/-- What keeps the number of bytes keeps a full memory full. -/
theorem exists_full {m : Memory} {attempt : Attempt Memory Unit} (full : m.Full)
    (kept : ∃ n, attempt = (.ok (), n) ∧ n.size = m.size) :
    ∃ n, attempt = (.ok (), n) ∧ n.Full := by
  obtain ⟨n, done, size⟩ := kept
  exact ⟨n, done, size.trans full⟩

/-! ### Reading -/

theorem read_of_inside {m : Memory} {address : Nat} (inside : address % memorySize < m.size) :
    m.read address = .ok (m.byte address) := by
  have found : address % memorySize < m.bytes.size := inside
  simp [read, byte, found]

theorem read_eq {m : Memory} (full : m.Full) (address : Nat) :
    m.read address = .ok (m.byte address) :=
  read_of_inside (inside_of_full full address)

theorem readWord_of_room {m : Memory} (room : memorySize ≤ m.size) (address : Nat) :
    m.readWord address = .ok (Word.ofBytes (m.byte address) (m.byte (address + 1))) := by
  unfold readWord
  rw [read_of_inside (inside_of_room room _), read_of_inside (inside_of_room room _)]
  rfl

theorem readWord_eq {m : Memory} (full : m.Full) (address : Nat) :
    m.readWord address = .ok (Word.ofBytes (m.byte address) (m.byte (address + 1))) :=
  readWord_of_room full.room address

/-- What has been read is what memory holds, also in a memory that is not full. -/
theorem byte_of_read {m : Memory} {address : Nat} {value : UInt8}
    (found : m.read address = .ok value) : m.byte address = value := by
  unfold read at found
  split at found
  next inside =>
    cases found
    rw [byte, Array.getD_eq_getD_getElem?, inside, Option.getD_some]
  next => cases found

theorem word_of_readWord {m : Memory} {address : Nat} {w : Word}
    (found : m.readWord address = .ok w) :
    Word.ofBytes (m.byte address) (m.byte (address + 1)) = w := by
  obtain ⟨first, high, rest⟩ := exists_of_bind_eq_ok found
  obtain ⟨second, low, rest⟩ := exists_of_bind_eq_ok rest
  rw [byte_of_read high, byte_of_read low]
  exact Except.ok.inj rest

/-- Only the bytes that are read have to be there. -/
theorem readBytes_of_inside {m : Memory} {address count : Nat}
    (inside : ∀ j < count, (address + j) % memorySize < m.size) :
    m.readBytes address count = .ok ((List.range count).map fun j => m.byte (address + j)) := by
  induction count generalizing address with
  | zero => rfl
  | succ count ih =>
    -- The rest is read from one place later, so its places are counted from one.
    have shifted (j : Nat) : address + 1 + j = address + (j + 1) := by omega
    have later :
        (fun j => m.byte (address + 1 + j)) = (fun j => m.byte (address + j)) ∘ Nat.succ := by
      funext j
      exact congrArg m.byte (shifted j)
    have rest : ∀ j < count, (address + 1 + j) % memorySize < m.size := by
      intro j below
      rw [shifted]
      exact inside (j + 1) (Nat.succ_lt_succ below)
    have first : m.read address = .ok (m.byte address) :=
      read_of_inside (inside 0 (Nat.zero_lt_succ count))
    simp only [readBytes, first, ih rest, later, List.range_succ_eq_map, List.map_cons,
      List.map_map, Nat.add_zero]
    rfl

theorem readBytes_eq {m : Memory} (full : m.Full) (address count : Nat) :
    m.readBytes address count = .ok ((List.range count).map fun j => m.byte (address + j)) :=
  readBytes_of_inside fun j _ => inside_of_full full (address + j)

/-! ### Writing -/

theorem exists_write_of_room {m : Memory} (room : memorySize ≤ m.size) (address : Nat)
    (value : UInt8) : ∃ n, m.write address value = (.ok (), n) ∧ n.size = m.size := by
  have inside : address % memorySize < m.bytes.size := inside_of_room room address
  have written : m.write address value =
      (.ok (), ⟨m.bytes.set (address % memorySize) value inside⟩) := by
    simp [write, inside]
  have size := size_write m address value
  rw [written] at size
  exact ⟨_, written, size⟩

theorem exists_write {m : Memory} (full : m.Full) (address : Nat) (value : UInt8) :
    ∃ n, m.write address value = (.ok (), n) ∧ n.Full :=
  exists_full full (exists_write_of_room full.room address value)

theorem exists_writeWord_of_room {m : Memory} (room : memorySize ≤ m.size) (address : Nat)
    (w : Word) : ∃ n, m.writeWord address w = (.ok (), n) ∧ n.size = m.size := by
  obtain ⟨first, high, same⟩ := exists_write_of_room room address (Word.high w)
  obtain ⟨second, low, size⟩ := exists_write_of_room (same.symm ▸ room) (address + 1) (Word.low w)
  refine ⟨second, ?_, size.trans same⟩
  simp only [writeWord, high, Attempt.andThen, low]

theorem exists_writeWord {m : Memory} (full : m.Full) (address : Nat) (w : Word) :
    ∃ n, m.writeWord address w = (.ok (), n) ∧ n.Full :=
  exists_full full (exists_writeWord_of_room full.room address w)

/-- A word that was written is read again, also if its second byte lies at the start
of memory. -/
theorem readWord_writeWord {m n : Memory} {address : Nat} {w : Word}
    (written : m.writeWord address w = (.ok (), n)) : n.readWord address = .ok w := by
  obtain ⟨_, first, high, written⟩ := Attempt.exists_of_andThen_eq_ok written
  -- The two bytes have different places, also if the second one wraps.
  have apart : address % memorySize ≠ (address + 1) % memorySize := by
    unfold memorySize
    omega
  have kept := (read_write_other written apart).trans (read_write_same high rfl)
  have last := read_write_same written (b := address + 1) rfl
  simp only [readWord, kept, last, bind, Except.bind, pure, Except.pure, Word.ofBytes_high_low]

theorem exists_writeBytes_of_room {m : Memory} (room : memorySize ≤ m.size) (address : Nat)
    (bytes : List UInt8) : ∃ n, m.writeBytes address bytes = (.ok (), n) ∧ n.size = m.size := by
  induction bytes generalizing m address with
  | nil => exact ⟨m, rfl, rfl⟩
  | cons value rest ih =>
    obtain ⟨first, written, same⟩ := exists_write_of_room room address value
    obtain ⟨last, more, size⟩ := ih (same.symm ▸ room) (address + 1)
    refine ⟨last, ?_, size.trans same⟩
    simp only [writeBytes, written, Attempt.andThen, more]

theorem exists_writeBytes {m : Memory} (full : m.Full) (address : Nat) (bytes : List UInt8) :
    ∃ n, m.writeBytes address bytes = (.ok (), n) ∧ n.Full :=
  exists_full full (exists_writeBytes_of_room full.room address bytes)

theorem exists_fillRegion_of_room {m : Memory} (room : memorySize ≤ m.size) (r : Region)
    (value : UInt8) : ∃ n, m.fillRegion r value = (.ok (), n) ∧ n.size = m.size := by
  rw [fillRegion, if_pos (stop_le_of_room room r)]
  exact exists_writeBytes_of_room room r.start _

theorem loadRegion_cases_of_room {m : Memory} (room : memorySize ≤ m.size) (r : Region)
    (data : List UInt8) :
    (∃ n, m.loadRegion r data = (.ok (), n) ∧ n.size = m.size) ∨
      m.loadRegion r data = (.error (.fault (.programTooLarge data.length r.size)), m) := by
  rw [loadRegion, if_pos (stop_le_of_room room r)]
  split
  · exact Or.inl (exists_writeBytes_of_room room r.start data)
  · exact Or.inr rfl

/-- A change from outside finds room for what it writes, unless it is refused. -/
theorem update_cases_of_room {m : Memory} (room : memorySize ≤ m.size) (update : Update) :
    (∃ n, m.update update = (.ok (), n) ∧ n.size = m.size) ∨
      ∃ fault, m.update update = (.error (.fault fault), m) := by
  cases update with
  | byte address value => exact Or.inl (exists_write_of_room room address value)
  | word address value => exact Or.inl (exists_writeWord_of_room room address value)
  | bytes address data => exact Or.inl (exists_writeBytes_of_room room address.toNat data)
  | fill r value => exact Or.inl (exists_fillRegion_of_room room r value)
  | load r data =>
    rcases loadRegion_cases_of_room room r data with loaded | refused
    · exact Or.inl loaded
    · exact Or.inr ⟨_, refused⟩

end Memory

end Chip8
