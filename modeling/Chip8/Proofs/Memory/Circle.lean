import Mathlib.Data.Nat.SuccPred
import Mathlib.Order.SuccPred.Archimedean
import Chip8.Proofs.Memory.Windows

/-!
# Memory as a circle

The place behind the last one is the first one. A run of bytes goes on from the one to the
other, as often as it is long, and where it meets itself the byte that comes last in it stays.
So a run that goes round once at most is read back as it was written, and two runs with
nothing in common may be written in any order. Words are runs of two bytes.

Addresses of sixty-four bits wrap at a multiple of the size of memory, so the address behind
the last of them stands for the first place as well.
-/
namespace Chip8.Memory

variable {m n o : Memory} {address : Nat}

/-! ### Bytes and words -/

theorem read_eq_ok_iff {value : UInt8} :
    m.read address = .ok value ↔ m.bytes[address % memorySize]? = some value := by
  unfold read
  cases m.bytes[address % memorySize]? <;> simp

theorem toNat_ofBytes (high low : UInt8) :
    (Word.ofBytes high low).toNat = 256 * high.toNat + low.toNat := by
  have boundHigh := high.toNat_lt
  have boundLow := low.toNat_lt
  simp only [Word.ofBytes, UInt16.toNat_ofNat']
  omega

theorem readWord_congr (m : Memory) {a b : Nat} (same : b % memorySize = a % memorySize) :
    m.readWord b = m.readWord a := by
  have next := Nat.add_mod_eq_add_mod_right 1 same
  simp only [readWord, read, same, next]

theorem getElem?_writeWord {w : Word} (written : m.writeWord address w = (.ok (), n))
    (place : Nat) :
    n.bytes[place]? =
      if place = address % memorySize then some (Word.high w)
      else if place = (address + 1) % memorySize then some (Word.low w)
      else m.bytes[place]? := by
  obtain ⟨_, first, high, low⟩ := Attempt.exists_of_andThen_eq_ok written
  rw [getElem?_write low, getElem?_write high]
  -- The two bytes have different places, so their order does not matter.
  have apart : address % memorySize ≠ (address + 1) % memorySize := by
    unfold memorySize
    omega
  split
  next second => rw [if_neg (second ▸ apart.symm)]
  next => rfl

theorem toNat_succ_mod (a : UInt64) : (a + 1).toNat % memorySize = (a.toNat + 1) % memorySize := by
  simp only [UInt64.toNat_add, UInt64.toNat_one, memorySize]
  omega

/-! ### Runs -/

/-- The bytes of a run that are written to a place, by their number in the run. -/
def covering (address count place : Nat) : Set Nat :=
  { j | j < count ∧ place = (address + j) % memorySize }

/-- What a run of bytes leaves in memory. -/
structure Written (m n : Memory) (address : Nat) (bytes : List UInt8) : Prop where
  size : n.size = m.size
  last : ∀ place j, IsGreatest (covering address bytes.length place) j →
    n.bytes[place]? = bytes[j]?
  rest : ∀ place, ¬ window address bytes.length place → n.bytes[place]? = m.bytes[place]?

theorem exists_last_of_window {count place : Nat} (within : window address count place) :
    ∃ j, IsGreatest (covering address count place) j := by
  apply BddAbove.exists_isGreatest_of_nonempty
  · exact ⟨count, fun j covers => covers.1.le⟩
  · exact within

/-- Without its first byte, a run covers places by bytes with numbers that are lower by one. -/
theorem isGreatest_covering_succ {count place j : Nat}
    (greatest : IsGreatest (covering address (count + 1) place) (j + 1)) :
    IsGreatest (covering (address + 1) count place) j := by
  have shifted (k : Nat) : address + 1 + k = address + (k + 1) := by omega
  obtain ⟨⟨inside, same⟩, bound⟩ := greatest
  refine ⟨⟨Nat.lt_of_succ_lt_succ inside, by rw [shifted, same]⟩, ?_⟩
  rintro k ⟨below, covers⟩
  rw [shifted] at covers
  exact Nat.le_of_succ_le_succ (bound ⟨Nat.succ_lt_succ below, covers⟩)

theorem getElem?_writeBytes_last {bytes : List UInt8} {place j : Nat}
    (written : m.writeBytes address bytes = (.ok (), n))
    (greatest : IsGreatest (covering address bytes.length place) j) :
    n.bytes[place]? = bytes[j]? := by
  induction bytes generalizing m address j with
  | nil => exact absurd greatest.1.1 (Nat.not_lt_zero j)
  | cons value rest ih =>
    obtain ⟨_, first, here, written⟩ := Attempt.exists_of_andThen_eq_ok written
    cases j with
    | zero =>
      -- No later byte comes to this place, so the first one stays.
      have outside : ¬ window (address + 1) rest.length place := by
        rintro ⟨k, inside, same⟩
        rw [Nat.add_assoc, Nat.add_comm 1 k] at same
        exact absurd (greatest.2 ⟨Nat.succ_lt_succ inside, same⟩) (Nat.not_succ_le_zero k)
      have start : place = address % memorySize := greatest.1.2
      rw [getElem?_writeBytes_outside written outside, getElem?_write here, if_pos start]
      rfl
    | succ j => exact ih written (isGreatest_covering_succ greatest)

theorem size_writeBytes (m : Memory) (address : Nat) (bytes : List UInt8) :
    (m.writeBytes address bytes).2.size = m.size := by
  induction bytes generalizing m address with
  | nil => rfl
  | cons value rest ih =>
    refine Attempt.snd_andThen (P := fun n : Memory => n.size = m.size) ?_ ?_
    · exact size_write m address value
    · intro _ n same
      exact (ih n (address + 1)).trans same

theorem written_of_writeBytes {bytes : List UInt8}
    (written : m.writeBytes address bytes = (.ok (), n)) : Written m n address bytes where
  size := by rw [← size_writeBytes m address bytes, written]
  last _ _ := getElem?_writeBytes_last written
  rest _ := getElem?_writeBytes_outside written

/-- The bytes of a run come to no other place than theirs. -/
theorem Written.untouched {bytes : List UInt8} (written : Written m n address bytes) {place : Nat}
    (outside : ∀ j < bytes.length, place ≠ (address + j) % memorySize) :
    n.bytes[place]? = m.bytes[place]? := by
  apply written.rest
  rintro ⟨j, inside, same⟩
  exact outside j inside same

theorem exists_written (room : memorySize ≤ m.size) (address : Nat) (bytes : List UInt8) :
    ∃ n, m.writeBytes address bytes = (.ok (), n) ∧ Written m n address bytes := by
  obtain ⟨n, written, -⟩ := exists_writeBytes_of_room room address bytes
  exact ⟨n, written, written_of_writeBytes written⟩

/-- A run that goes round once at most does not meet itself. -/
theorem isGreatest_covering_of_short {count j : Nat} (short : count ≤ memorySize)
    (inside : j < count) : IsGreatest (covering address count ((address + j) % memorySize)) j := by
  refine ⟨⟨inside, rfl⟩, ?_⟩
  rintro k ⟨below, same⟩
  unfold memorySize at short same
  omega

theorem Written.getElem?_of_short {bytes : List UInt8} (written : Written m n address bytes)
    (short : bytes.length ≤ memorySize) {j : Nat} (inside : j < bytes.length) :
    n.bytes[(address + j) % memorySize]? = bytes[j]? :=
  written.last _ j (isGreatest_covering_of_short short inside)

/-- Within its window, a run leaves the same bytes in any memory. -/
theorem Written.agree {bytes : List UInt8} {p q : Memory} (first : Written m n address bytes)
    (second : Written p q address bytes) {place : Nat}
    (within : window address bytes.length place) : q.bytes[place]? = n.bytes[place]? := by
  obtain ⟨j, greatest⟩ := exists_last_of_window within
  exact (second.last place j greatest).trans (first.last place j greatest).symm

/-! ### Reading back -/

theorem readBytes_eq_ok_iff {count : Nat} {bytes : List UInt8} :
    m.readBytes address count = .ok bytes ↔
      bytes.length = count ∧
        ∀ j < count, m.bytes[(address + j) % memorySize]? = bytes[j]? := by
  induction count generalizing address bytes with
  | zero => cases bytes <;> simp [readBytes]
  | succ count ih =>
    -- The rest is read from one place later, so its bytes are counted from one.
    have shifted (j : Nat) : address + 1 + j = address + (j + 1) := by omega
    constructor
    · intro done
      obtain ⟨value, here, done⟩ := exists_of_bind_eq_ok done
      obtain ⟨rest, later, done⟩ := exists_of_bind_eq_ok done
      cases done
      obtain ⟨long, agree⟩ := ih.mp later
      refine ⟨congrArg Nat.succ long, fun j below => ?_⟩
      cases j with
      | zero => exact read_eq_ok_iff.mp here
      | succ j =>
        rw [← shifted]
        exact agree j (Nat.lt_of_succ_lt_succ below)
    · rintro ⟨long, agree⟩
      cases bytes with
      | nil => cases long
      | cons value rest =>
        have here : m.read address = .ok value := read_eq_ok_iff.mpr (agree 0 (Nat.succ_pos count))
        have later : m.readBytes (address + 1) count = .ok rest := by
          refine ih.mpr ⟨Nat.succ.inj long, fun j below => ?_⟩
          rw [shifted]
          exact agree (j + 1) (Nat.succ_lt_succ below)
        simp only [readBytes, here, later, bind, Except.bind, pure, Except.pure]

theorem Written.readBytes {bytes : List UInt8} (written : Written m n address bytes)
    (short : bytes.length ≤ memorySize) {other : Nat}
    (same : other % memorySize = address % memorySize) :
    n.readBytes other bytes.length = .ok bytes := by
  rw [readBytes_congr n same, readBytes_eq_ok_iff]
  exact ⟨rfl, fun j inside => written.getElem?_of_short short inside⟩

/-- To write what is there changes nothing. -/
theorem write_of_read {value : UInt8} (found : m.read address = .ok value) :
    m.write address value = (.ok (), m) := by
  obtain ⟨inside, there⟩ := Array.getElem?_eq_some_iff.mp (read_eq_ok_iff.mp found)
  subst there
  simp only [write, inside, dite_true, Array.set_getElem_self]

theorem writeBytes_of_readBytes {count : Nat} {bytes : List UInt8}
    (found : m.readBytes address count = .ok bytes) : m.writeBytes address bytes = (.ok (), m) := by
  induction count generalizing address bytes with
  | zero =>
    cases found
    rfl
  | succ count ih =>
    obtain ⟨value, here, found⟩ := exists_of_bind_eq_ok found
    obtain ⟨rest, later, found⟩ := exists_of_bind_eq_ok found
    cases found
    simp only [writeBytes, write_of_read here, Attempt.andThen, ih later]

/-! ### Two runs -/

/-- Runs whose windows have nothing in common may be written in any order. -/
theorem writeBytes_comm (room : memorySize ≤ m.size) {a b : Nat} {data other : List UInt8}
    (apart : ∀ place, ¬ (window a data.length place ∧ window b other.length place)) :
    ∃ n, ((m.writeBytes a data).andThen fun _ p => p.writeBytes b other) = (.ok (), n) ∧
      ((m.writeBytes b other).andThen fun _ p => p.writeBytes a data) = (.ok (), n) := by
  obtain ⟨p, here, first⟩ := exists_written room a data
  obtain ⟨q, there, second⟩ := exists_written room b other
  obtain ⟨n, later, left⟩ := exists_written (first.size.symm ▸ room) b other
  obtain ⟨o, sooner, right⟩ := exists_written (second.size.symm ▸ room) a data
  have same : o = n := by
    apply eq_of_getElem?_eq
    intro place
    -- A place in one of the windows holds what that run brings, any other what it held.
    by_cases inData : window a data.length place
    · have outside : ¬ window b other.length place := fun inOther => apart place ⟨inData, inOther⟩
      rw [left.rest place outside]
      exact first.agree right inData
    · rw [right.rest place inData]
      by_cases inOther : window b other.length place
      · exact left.agree second inOther
      · rw [second.rest place inOther, left.rest place inOther, first.rest place inData]
  subst same
  refine ⟨o, ?_, ?_⟩
  · rw [here]
    exact later
  · rw [there]
    exact sooner

/-! ### All together -/

/-- A memory of 4096 bytes is a circle. A byte that is written changes one place. A word is its
two bytes, each of them at a place of its own, and is read back at any alias of its address. A
run of bytes leaves at each place the last of its bytes that come there, and what was there if
none does. It is read byte by byte; a run that goes round once at most is read back at any alias
of its address, and runs with disjoint windows commute. -/
theorem memory_is_circular {m : Memory} (full : m.size = 4096) :
    (∀ (a : UInt64) value, ∃ n, m.write a.toNat value = (.ok (), n) ∧
      ∀ place, n.bytes[place]? =
        if place = a.toNat % 4096 then some value else m.bytes[place]?) ∧
    (∀ a : UInt64, ∃ high low w,
      m.bytes[a.toNat % 4096]? = some high ∧ m.read a.toNat = .ok high ∧
      m.bytes[(a + 1).toNat % 4096]? = some low ∧ m.read (a + 1).toNat = .ok low ∧
      m.readWord a.toNat = .ok w ∧ w.toNat = 256 * high.toNat + low.toNat) ∧
    (∀ (a : UInt64) w, ∃ n, m.writeWord a.toNat w = (.ok (), n) ∧
      (∀ place, n.bytes[place]? =
        if place = a.toNat % 4096 then some (Word.high w)
        else if place = (a + 1).toNat % 4096 then some (Word.low w)
        else m.bytes[place]?) ∧
      ∀ b : UInt64, b.toNat % 4096 = a.toNat % 4096 → n.readWord b.toNat = .ok w) ∧
    (∀ (a : Word) data, ∃ n, m.writeBytes a.toNat data = (.ok (), n) ∧
      (∀ place j, IsGreatest { j | j < data.length ∧ place = (a.toNat + j) % 4096 } j →
        n.bytes[place]? = data[j]?) ∧
      (∀ place, (∀ j < data.length, place ≠ (a.toNat + j) % 4096) →
        n.bytes[place]? = m.bytes[place]?) ∧
      (data.length ≤ 4096 → ∀ b : Word, b.toNat % 4096 = a.toNat % 4096 →
        n.readBytes b.toNat data.length = .ok data)) ∧
    (∀ (a : Word) count, ∃ bytes, m.readBytes a.toNat count = .ok bytes ∧
      bytes.length = count ∧ ∀ j < count, bytes[j]? = m.bytes[(a.toNat + j) % 4096]?) ∧
    ∀ (a b : Word) data other,
      (∀ i < data.length, ∀ j < other.length,
        (a.toNat + i) % 4096 ≠ (b.toNat + j) % 4096) →
      ∃ n, ((m.writeBytes a.toNat data).andThen fun _ p => p.writeBytes b.toNat other) =
          (.ok (), n) ∧
        ((m.writeBytes b.toNat other).andThen fun _ p => p.writeBytes a.toNat data) =
          (.ok (), n) := by
  have room : memorySize ≤ m.size := Full.room full
  refine ⟨fun a value => ?_, fun a => ?_, fun a w => ?_, fun a data => ?_, fun a count => ?_,
    fun a b data other apart => ?_⟩
  · obtain ⟨n, written, -⟩ := exists_write_of_room room a.toNat value
    exact ⟨n, written, getElem?_write written⟩
  · have high := read_eq full a.toNat
    have low := read_eq full (a + 1).toNat
    have second : m.byte (a.toNat + 1) = m.byte (a + 1).toNat := by
      rw [byte, byte, toNat_succ_mod]
    refine ⟨_, _, _, read_eq_ok_iff.mp high, high, read_eq_ok_iff.mp low, low,
      readWord_eq full a.toNat, ?_⟩
    rw [second]
    exact toNat_ofBytes _ _
  · obtain ⟨n, written, -⟩ := exists_writeWord full a.toNat w
    refine ⟨n, written, fun place => ?_, fun b same => ?_⟩
    · have second : (a + 1).toNat % 4096 = (a.toNat + 1) % 4096 := toNat_succ_mod a
      rw [second]
      exact getElem?_writeWord written place
    · rw [readWord_congr n same]
      exact readWord_writeWord written
  · obtain ⟨n, done, written⟩ := exists_written room a.toNat data
    exact ⟨n, done, written.last, fun place => written.untouched,
      fun short b same => written.readBytes short same⟩
  · have done := readBytes_eq full a.toNat count
    obtain ⟨long, agree⟩ := readBytes_eq_ok_iff.mp done
    exact ⟨_, done, long, fun j below => (agree j below).symm⟩
  · apply writeBytes_comm room
    rintro place ⟨⟨i, inData, here⟩, j, inOther, there⟩
    exact apart i inData j inOther (here.symm.trans there)

/-- A run of 4097 bytes comes back to the place of its first byte with its last one. -/
theorem long_run_overwrites_itself :
    initial.size = 4096 ∧
      ∃ n, initial.writeBytes (0xfff : Word).toNat (List.replicate 4096 1 ++ [2]) = (.ok (), n) ∧
        n.bytes[0xfff]? = some 2 := by
  have full : initial.size = 4096 := size_initial
  have long : (List.replicate 4096 (1 : UInt8) ++ [2]).length = 4097 := by
    rw [List.length_append, List.length_replicate]
    rfl
  have final : (List.replicate 4096 (1 : UInt8) ++ [2])[4096]? = some 2 := by
    rw [List.getElem?_append_right (by rw [List.length_replicate]), List.length_replicate]
    rfl
  obtain ⟨-, -, -, runs, -, -⟩ := memory_is_circular full
  obtain ⟨n, done, last, -, -⟩ := runs 0xfff (List.replicate 4096 1 ++ [2])
  rw [long] at last
  refine ⟨full, n, done, (last 0xfff 4096 ⟨by decide, ?_⟩).trans final⟩
  rintro j ⟨inside, -⟩
  exact Nat.le_of_lt_succ inside

end Chip8.Memory
