import Chip8.Snapshot
import Chip8.Proofs.Json
import Chip8.Proofs.Memory.Regions

/-!
# Restored memories

A document stands for a memory if it lists bytes, and it may list any number of them. No
change from outside adds a byte or takes one away, so a memory keeps the size that it was
obtained with. Accesses reckon with all the bytes that addresses can reach: if there are
fewer, the first address without a byte is already a trap.
-/
namespace Chip8

namespace Memory

variable {m : Memory} {j : Json}

/-! ### Documents -/

/-- A document is read as a memory just if it lists the numbers of its bytes. -/
theorem ofJson?_eq_some_iff :
    ofJson? j = some m ↔
      j.Holds "memory" (.array (m.bytes.toList.map fun byte => .ofNat byte.toNat)) := by
  unfold ofJson?
  constructor
  · intro read
    obtain ⟨values, record, read⟩ := Option.bind_eq_some_iff.mp read
    obtain ⟨value, rfl, held⟩ := Json.record?_singleton_eq_some_iff.mp record
    obtain ⟨bytes, listed, same⟩ := Option.bind_eq_some_iff.mp read
    cases same
    rw [← Json.list?_uint8?_eq_some_iff.mp listed]
    exact held
  · intro held
    -- Nothing but the numbers in range is asked for, and those of bytes are.
    have record := Json.record?_singleton_eq_some_iff.mpr ⟨_, rfl, held⟩
    have listed : Json.list? Json.uint8?
        (.array (m.bytes.toList.map fun byte => .ofNat byte.toNat)) = some m.bytes.toList :=
      Json.list?_uint8?_eq_some_iff.mpr rfl
    rw [record]
    simp only [Option.bind_eq_bind, Option.bind_some, listed]
    rfl

theorem ofJson?_toJson (m : Memory) : ofJson? m.toJson = some m :=
  ofJson?_eq_some_iff.mpr (.named rfl)

/-- As many bytes are read as the document lists. -/
theorem size_of_ofJson? {items : List Json} (held : j.Holds "memory" (.array items))
    (read : ofJson? j = some m) : m.size = items.length := by
  cases held.unique (ofJson?_eq_some_iff.mp read)
  rw [List.length_map, Array.length_toList, size]

/-! ### Sizes -/

theorem size_writeWord (m : Memory) (address : Nat) (w : Word) :
    (m.writeWord address w).2.size = m.size := by
  refine Attempt.snd_andThen (P := fun n : Memory => n.size = m.size) ?_ ?_
  · exact size_write m address (Word.high w)
  · intro _ n same
    exact (size_write n (address + 1) (Word.low w)).trans same

theorem size_fillRegion (m : Memory) (r : Region) (value : UInt8) :
    (m.fillRegion r value).2.size = m.size := by
  unfold fillRegion
  split
  next => exact size_writeBytes m r.start _
  next => rfl

theorem size_loadRegion (m : Memory) (r : Region) (data : List UInt8) :
    (m.loadRegion r data).2.size = m.size := by
  unfold loadRegion
  split
  next =>
    split
    next => exact size_writeBytes m r.start data
    next => rfl
  next => rfl

/-- No change from outside makes a memory longer or shorter, also if it fails halfway. -/
theorem size_update (m : Memory) (update : Update) : (m.update update).2.size = m.size := by
  cases update with
  | byte address value => exact size_write m address value
  | word address value => exact size_writeWord m address value
  | bytes address data => exact size_writeBytes m address.toNat data
  | fill r value => exact size_fillRegion m r value
  | load r data => exact size_loadRegion m r data

/-- The memories that a host can get hold of, with the number of bytes that they start with. -/
inductive Obtained : Memory → Nat → Prop
  | initial : Obtained initial memorySize
  | restored {j : Json} {items : List Json} {m : Memory}
      (held : j.Holds "memory" (.array items)) (read : ofJson? j = some m) :
      Obtained m items.length
  | updated {m : Memory} {count : Nat} (update : Update) (earlier : Obtained m count) :
      Obtained (m.update update).2 count

theorem Obtained.size {count : Nat} (obtained : Obtained m count) : m.size = count := by
  induction obtained with
  | initial => exact size_initial
  | restored held read => exact size_of_ofJson? held read
  | updated update earlier ih => exact (size_update _ update).trans ih

/-- Any memory there is can be restored from what it is written as. -/
theorem obtained_size (m : Memory) : Obtained m m.size := by
  -- The document that the memory is written as lists all of its bytes.
  have count : m.size = (m.bytes.toList.map fun byte => Json.ofNat byte.toNat).length := by
    rw [List.length_map, Array.length_toList, Memory.size]
  rw [count]
  exact .restored (.named rfl) (ofJson?_toJson m)

/-! ### Accesses -/

/-- What a host can do with a memory. -/
inductive Access
  | byte (address : Nat)
  | word (address : Nat)
  | bytes (address : Word) (count : Nat)
  | region (r : Region)
  | update (change : Update)

/-- Makes an access, only to see how it ends. -/
def access (m : Memory) : Access → Except Abort Unit
  | .byte address => (m.read address).map fun _ => ()
  | .word address => (m.readWord address).map fun _ => ()
  | .bytes address count => (m.readBytes address.toNat count).map fun _ => ()
  | .region r => (m.region r).map fun _ => ()
  | .update change => (m.update change).1

theorem access_ne_trap (room : memorySize ≤ m.size) (access : Access) (trap : Trap) :
    m.access access ≠ .error (.trap trap) := by
  cases access with
  | byte address => simp [Memory.access, read_of_inside (inside_of_room room address), Except.map]
  | word address => simp [Memory.access, readWord_of_room room, Except.map]
  | bytes address count =>
    have inside := fun j (_ : j < count) => inside_of_room room (address.toNat + j)
    simp [Memory.access, readBytes_of_inside inside, Except.map]
  | region r =>
    obtain ⟨bytes, read⟩ := exists_region (r.stop_le.trans room)
    simp [Memory.access, read, Except.map]
  | update change =>
    rcases update_cases_of_room room change with ⟨n, done, -⟩ | ⟨fault, refused⟩
    · simp [Memory.access, done]
    · simp [Memory.access, refused]

/-- In a memory with fewer bytes the address behind the last of them has none. -/
theorem read_size_of_short (short : m.size < memorySize) :
    m.read m.size = .error (.trap (.memoryIndex m.size)) := by
  have place : m.size % memorySize = m.size := Nat.mod_eq_of_lt short
  have absent : m.bytes[m.size]? = none := Array.getElem?_eq_none (Nat.le_refl _)
  rw [read, place, absent]

end Memory

end Chip8
