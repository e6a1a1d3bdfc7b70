import Chip8.Proofs.Machine.Stores
import Chip8.Proofs.Memory.Circle

/-!
# Transfers between registers and memory

Three operations move bytes between the registers and the window of memory at the index
register: the registers from v0 up to vX are stored or loaded, and the decimal digits of vX are
stored. A window of at most sixteen bytes goes round memory less than once, so each of its bytes
has a place of its own, whether it wraps or not, and what is stored is what is loaded.

Between a store and a load anything may be executed but another store. Memory is then what the
store has left of it, also if that is the program which goes on, so the load gives the registers
their old values.
-/
namespace Chip8

/-! ### Decimal digits -/

/-- Three digits that spell a byte, the hundreds first. -/
structure SpellsDecimal (value a b c : UInt8) : Prop where
  digits : a ≤ 9 ∧ b ≤ 9 ∧ c ≤ 9
  sum : 100 * a.toNat + 10 * b.toNat + c.toNat = value.toNat

theorem spellsDecimal_digits (value : UInt8) :
    SpellsDecimal value (value / 100 % 10) (value / 10 % 10) (value % 10) := by
  have bound := value.toNat_lt
  constructor
  · simp only [UInt8.le_iff_toNat_le, UInt8.toNat_mod, UInt8.toNat_div, UInt8.reduceToNat]
    omega
  · simp only [UInt8.toNat_mod, UInt8.toNat_div, UInt8.reduceToNat]
    omega

namespace Registers

variable {r : Registers} {x : Fin 16}

theorem getElem?_upTo {j : Fin 16} (below : j ≤ x) : (r.upTo x)[j.val]? = some (r.v.read j) := by
  have inside : j.val < x.val + 1 := Nat.lt_succ_of_le below
  rw [upTo, List.getElem?_take_of_lt inside]
  simp [Cells.read]

theorem length_upTo_le (r : Registers) (x : Fin 16) : (r.upTo x).length ≤ memorySize := by
  have bound := x.isLt
  rw [length_upTo, memorySize]
  omega

end Registers

namespace Machine

variable {m n : Machine} {x : UInt64}

/-! ### Instructions -/

/-- The store of a run of bytes at the index register. -/
theorem exists_stored (room : memorySize ≤ m.memory.size) (bytes : List UInt8) :
    ∃ memory,
      executeRegister.store m bytes = (.ok .done, { m with memory }) ∧
      m.memory.writeBytes m.registers.i.toNat bytes = (.ok (), memory) := by
  obtain ⟨memory, written, -⟩ := Memory.exists_writeBytes_of_room room m.registers.i.toNat bytes
  refine ⟨memory, ?_, written⟩
  rw [executeRegister.store, written]
  rfl

theorem execute_storeRegisters (room : memorySize ≤ m.memory.size) (narrow : x.toNat < 16)
    (random : UInt8) :
    ∃ memory, m.execute random (.register .storeRegisters x) = (.ok .done, { m with memory }) ∧
      m.memory.writeBytes m.registers.i.toNat (m.registers.upTo ⟨x.toNat, narrow⟩) =
        (.ok (), memory) := by
  rw [execute_register m random x .storeRegisters narrow]
  exact exists_stored room _

theorem execute_storeDecimal (room : memorySize ≤ m.memory.size) (narrow : x.toNat < 16)
    (random : UInt8) :
    ∃ memory, m.execute random (.register .storeDecimal x) = (.ok .done, { m with memory }) ∧
      m.memory.writeBytes m.registers.i.toNat
        (decimalDigits (m.registers.v.read ⟨x.toNat, narrow⟩)) = (.ok (), memory) := by
  rw [execute_register m random x .storeDecimal narrow]
  exact exists_stored room _

/-- Register values that have been loaded from the index register on. -/
structure Fetched (m : Machine) (x : UInt64) (v : Cells UInt8 16) : Prop where
  first : ∀ j : Fin 16, j.val ≤ x.toNat →
    m.memory.bytes[(m.registers.i.toNat + j) % memorySize]? = some (v.read j)
  rest : ∀ j : Fin 16, x.toNat < j.val → v.read j = m.registers.v.read j

theorem execute_loadRegisters (room : memorySize ≤ m.memory.size) (narrow : x.toNat < 16)
    (random : UInt8) :
    ∃ v, m.execute random (.register .loadRegisters x) =
        (.ok .done, m.withRegisters { m.registers with v }) ∧ m.Fetched x v := by
  rw [execute_register m random x .loadRegisters narrow]
  have found := Memory.readBytes_of_inside fun j (_ : j < x.toNat + 1) =>
    Memory.inside_of_room room (m.registers.i.toNat + j)
  generalize (List.range (x.toNat + 1)).map _ = values at found
  obtain ⟨long, agree⟩ := Memory.readBytes_eq_ok_iff.mp found
  -- A register takes the byte that stands for it among the values, or keeps its own if none does.
  refine ⟨.tabulate fun j => values.getD j.val (m.registers.v.read j), ?_, ?_, ?_⟩
  · simp only [executeRegister, found, Attempt.finding, Registers.setUpTo, long, if_true]
    rfl
  · intro j below
    have inside : j.val < values.length := by omega
    rw [agree j (by omega), Cells.read_tabulate, List.getD_eq_getElem?_getD,
      List.getElem?_eq_getElem inside, Option.getD_some]
  · intro j above
    have outside : values.length ≤ j.val := by omega
    rw [Cells.read_tabulate, List.getD_eq_getElem?_getD, List.getElem?_eq_none outside,
      Option.getD_none]

/-- To store registers where they have been loaded from is to write what is there. -/
theorem execute_storeRegisters_of_fetched (room : memorySize ≤ m.memory.size)
    (narrow : x.toNat < 16) (fetched : m.Fetched x m.registers.v) (random : UInt8) :
    m.execute random (.register .storeRegisters x) = (.ok .done, m) := by
  have found : m.memory.readBytes m.registers.i.toNat (x.toNat + 1) =
      .ok (m.registers.upTo ⟨x.toNat, narrow⟩) := by
    refine Memory.readBytes_eq_ok_iff.mpr ⟨Registers.length_upTo _ _, fun j below => ?_⟩
    have small : j < 16 := by omega
    have named : (⟨j, small⟩ : Fin 16) ≤ ⟨x.toNat, narrow⟩ := Nat.le_of_lt_succ below
    rw [fetched.first ⟨j, small⟩ named, ← Registers.getElem?_upTo named]
  obtain ⟨memory, done, stored⟩ := execute_storeRegisters room narrow random
  rw [Memory.writeBytes_of_readBytes found] at stored
  cases stored
  exact done

/-! ### What is stored -/

section
variable {r : Registers} {y : Fin 16} {value : UInt8} {memory : Memory} {address : Nat}

theorem getElem?_stored (stored : m.memory.writeBytes address (r.upTo y) = (.ok (), memory))
    {j : Fin 16} (below : j ≤ y) :
    memory.bytes[(address + j) % memorySize]? = some (r.v.read j) := by
  have inside : j.val < (r.upTo y).length := by
    rw [Registers.length_upTo]
    exact Nat.lt_succ_of_le below
  rw [← Registers.getElem?_upTo below]
  exact (Memory.written_of_writeBytes stored).getElem?_of_short (r.length_upTo_le y) inside

theorem getElem?_not_stored (stored : m.memory.writeBytes address (r.upTo y) = (.ok (), memory))
    {place : Nat} (outside : ∀ j ≤ y.val, place ≠ (address + j) % memorySize) :
    memory.bytes[place]? = m.memory.bytes[place]? := by
  apply (Memory.written_of_writeBytes stored).untouched
  intro j inside
  rw [Registers.length_upTo] at inside
  exact outside j (Nat.le_of_lt_succ inside)

theorem three_le_memorySize : 3 ≤ memorySize := by decide

theorem getElem?_digits
    (stored : m.memory.writeBytes address (decimalDigits value) = (.ok (), memory)) {j : Nat}
    (below : j < 3) :
    memory.bytes[(address + j) % memorySize]? = (decimalDigits value)[j]? :=
  (Memory.written_of_writeBytes stored).getElem?_of_short three_le_memorySize below

/-- What has been stored is loaded at any alias of its address. -/
theorem Fetched.getElem?_stored {before : Memory} {w : Cells UInt8 16} {bytes : List UInt8}
    (fetched : m.Fetched x w) (stored : before.writeBytes address bytes = (.ok (), m.memory))
    (short : bytes.length ≤ memorySize)
    (place : m.registers.i.toNat % memorySize = address % memorySize) {j : Fin 16}
    (below : j.val ≤ x.toNat) (inside : j.val < bytes.length) :
    bytes[j.val]? = some (w.read j) := by
  have same := Nat.add_mod_eq_add_mod_right j.val place
  have written := Memory.written_of_writeBytes stored
  rw [← written.getElem?_of_short short inside, ← same]
  exact fetched.first j below

theorem execute_loadRegisters_of_digits {before : Memory}
    (stored : before.writeBytes m.registers.i.toNat (decimalDigits value) = (.ok (), m.memory))
    (room : memorySize ≤ m.memory.size) (random : UInt8) :
    ∃ v, m.execute random (.register .loadRegisters 2) =
        (.ok .done, m.withRegisters { m.registers with v }) ∧
      SpellsDecimal value (v.read 0) (v.read 1) (v.read 2) := by
  obtain ⟨v, done, fetched⟩ := execute_loadRegisters room (x := 2) (by decide) random
  have digit {j : Fin 16} (below : j.val < 3) : (decimalDigits value)[j.val]? = some (v.read j) :=
    fetched.getElem?_stored stored three_le_memorySize rfl (Nat.le_of_lt_succ below) below
  have hundreds : _ = v.read 0 := Option.some.inj (digit (j := 0) (by decide))
  have tens : _ = v.read 1 := Option.some.inj (digit (j := 1) (by decide))
  have ones : _ = v.read 2 := Option.some.inj (digit (j := 2) (by decide))
  have spelt := spellsDecimal_digits value
  rw [hundreds, tens, ones] at spelt
  exact ⟨v, done, spelt⟩

end

/-! ### Ticks -/

theorem narrow_of_upcoming {op : RegisterOp} (upcoming : m.upcoming? = some (.register op x)) :
    x.toNat < 16 :=
  (Instruction.narrow_of_decode upcoming).x

section
variable (running : m.status = .running) (room : memorySize ≤ m.memory.size) (random : UInt8)
  (arrivals : List (List Event))
include running room

theorem tick_storeRegisters (upcoming : m.upcoming? = some (.register .storeRegisters x)) :
    ∃ memory, m.perform (.tick random arrivals) = (.done, { m.counted.advance with memory }) ∧
      m.memory.writeBytes m.registers.i.toNat
        (m.registers.upTo ⟨x.toNat, narrow_of_upcoming upcoming⟩) = (.ok (), memory) := by
  obtain ⟨memory, done, written⟩ :=
    execute_storeRegisters (m := m.counted) room (narrow_of_upcoming upcoming) random
  exact ⟨memory, tick_of_done running room upcoming done arrivals, written⟩

theorem tick_loadRegisters (upcoming : m.upcoming? = some (.register .loadRegisters x)) :
    ∃ v, m.perform (.tick random arrivals) =
        (.done, m.counted.advance.withRegisters { m.registers.advance with v }) ∧
      m.Fetched x v := by
  obtain ⟨v, done, fetched⟩ :=
    execute_loadRegisters (m := m.counted) room (narrow_of_upcoming upcoming) random
  exact ⟨v, tick_of_done running room upcoming done arrivals, fetched.first, fetched.rest⟩

theorem tick_transfer {op : RegisterOp}
    (moves : op ∈ [.storeRegisters, .loadRegisters, .storeDecimal])
    (upcoming : m.upcoming? = some (.register op x)) :
    ∃ n, m.counted.execute random (.register op x) = (.ok .done, n) ∧
      m.perform (.tick random arrivals) = (.done, n.advance) := by
  have narrow := narrow_of_upcoming upcoming
  have executed : ∃ n, m.counted.execute random (.register op x) = (.ok .done, n) := by
    simp only [List.mem_cons, List.not_mem_nil, or_false] at moves
    rcases moves with rfl | rfl | rfl
    · obtain ⟨memory, done, -⟩ := execute_storeRegisters (m := m.counted) room narrow random
      exact ⟨_, done⟩
    · obtain ⟨v, done, -⟩ := execute_loadRegisters (m := m.counted) room narrow random
      exact ⟨_, done⟩
    · obtain ⟨memory, done, -⟩ := execute_storeDecimal (m := m.counted) room narrow random
      exact ⟨_, done⟩
  obtain ⟨n, done⟩ := executed
  exact ⟨n, done, tick_of_done running room upcoming done arrivals⟩

end

/-- A store of registers leaves each of them in its place and nothing else in memory changes; a
load takes each of them from its place and no other register changes; the digits of a byte spell
it in their three places. Each place wraps on its own. Registers that are loaded and stored again
leave memory as it was, and digits that are stored and loaded again come into v0, v1 and v2. A
tick that comes to one of the three executes it and goes on. -/
theorem transfers_are_exact (room : 4096 ≤ m.memory.size) (narrow : x.toNat < 16)
    (random : UInt8) :
    let i := m.registers.i.toNat
    let v := m.registers.v.read
    let vX := v ⟨x.toNat, narrow⟩
    (∃ memory, m.execute random (.register .storeRegisters x) = (.ok .done, { m with memory }) ∧
      (∀ j : Fin 16, j.val ≤ x.toNat → memory.bytes[(i + j) % 4096]? = some (v j)) ∧
      ∀ place, (∀ j ≤ x.toNat, place ≠ (i + j) % 4096) →
        memory.bytes[place]? = m.memory.bytes[place]?) ∧
    (∃ w,
      let n := m.withRegisters { m.registers with v := w }
      m.execute random (.register .loadRegisters x) = (.ok .done, n) ∧
      (∀ j : Fin 16, j.val ≤ x.toNat → m.memory.bytes[(i + j) % 4096]? = some (w.read j)) ∧
      (∀ j : Fin 16, x.toNat < j.val → w.read j = v j) ∧
      ∀ random, n.execute random (.register .storeRegisters x) = (.ok .done, n)) ∧
    (∃ memory a b c,
      let n := { m with memory }
      m.execute random (.register .storeDecimal x) = (.ok .done, n) ∧ SpellsDecimal vX a b c ∧
      memory.bytes[i % 4096]? = some a ∧ memory.bytes[(i + 1) % 4096]? = some b ∧
      memory.bytes[(i + 2) % 4096]? = some c ∧
      (∀ place, (∀ j < 3, place ≠ (i + j) % 4096) →
        memory.bytes[place]? = m.memory.bytes[place]?) ∧
      ∀ random, ∃ w,
        n.execute random (.register .loadRegisters 2) =
          (.ok .done, n.withRegisters { n.registers with v := w }) ∧
        SpellsDecimal vX (w.read 0) (w.read 1) (w.read 2)) ∧
    ∀ op ∈ [RegisterOp.storeRegisters, .loadRegisters, .storeDecimal],
      m.status = .running → m.upcoming? = some (.register op x) → ∀ arrivals,
        ∃ n, m.counted.execute random (.register op x) = (.ok .done, n) ∧
          m.perform (.tick random arrivals) = (.done, n.advance) := by
  have room : memorySize ≤ m.memory.size := room
  refine ⟨?_, ?_, ?_, fun op moves running upcoming arrivals => ?_⟩
  · obtain ⟨memory, done, stored⟩ := execute_storeRegisters room narrow random
    exact ⟨memory, done, fun j below => getElem?_stored stored below,
      fun place => getElem?_not_stored stored⟩
  · obtain ⟨w, done, fetched⟩ := execute_loadRegisters room narrow random
    refine ⟨w, done, fetched.first, fetched.rest, ?_⟩
    -- What has been loaded is what the new registers would load again.
    exact execute_storeRegisters_of_fetched (m := m.withRegisters { m.registers with v := w }) room
      narrow ⟨fetched.first, fun _ _ => rfl⟩
  · obtain ⟨memory, done, stored⟩ := execute_storeDecimal room narrow random
    have digit {j : Nat} (below : j < 3) := getElem?_digits stored below
    have roomy : memorySize ≤ memory.size := by
      rw [← Memory.size_writeBytes, stored] at room
      exact room
    refine ⟨memory, _, _, _, done, spellsDecimal_digits _, digit (j := 0) (by decide),
      digit (j := 1) (by decide), digit (j := 2) (by decide), fun place outside => ?_,
      execute_loadRegisters_of_digits (m := { m with memory }) stored roomy⟩
    exact (Memory.written_of_writeBytes stored).untouched outside
  · exact tick_transfer running room random arrivals moves upcoming

/-- The index register holds an alias of the last place, so the digits of 254 come there and to
the first two places. -/
theorem digits_across_the_end :
    let m := (fresh 0xf133).withRegisters { Registers.initial with i := 0xffff, v := .fill 16 254 }
    4096 ≤ m.memory.size ∧ (1 : UInt64).toNat < 16 ∧
      m.status = .running ∧ m.upcoming? = some (.register .storeDecimal 1) ∧
      ∃ n : Machine, m.perform (.tick 0 []) = (.done, n.advance) ∧ n.memory.bytes[4095]? = some 2 ∧
        n.memory.bytes[0]? = some 5 ∧ n.memory.bytes[1]? = some 4 := by
  obtain ⟨f, same, reachable, running, registers, here⟩ := exists_fresh 0xf133
  have room : 4096 ≤ f.memory.size := reachable.wellFormed.memory.room
  rw [same]
  rw [word, registers] at here
  intro m
  have here : m.word = 0xf133 := here
  have upcoming : m.upcoming? = some (.register .storeDecimal 1) := by
    rw [upcoming?, here]
    rfl
  have narrow : (1 : UInt64).toNat < 16 := by decide
  have value : (m.registers.v.read ⟨_, narrow⟩).toNat = 254 :=
    congrArg UInt8.toNat (Cells.read_fill (254 : UInt8) _)
  have address : m.counted.registers.i.toNat = 0xffff := rfl
  obtain ⟨-, -, digits, -⟩ := transfers_are_exact (m := m.counted) room narrow 0
  obtain ⟨memory, a, b, c, done, ⟨⟨smallA, smallB, smallC⟩, sum⟩, first, second, third, -⟩ := digits
  obtain ⟨-, -, -, ticks⟩ := transfers_are_exact (m := m) room narrow 0
  obtain ⟨n, executed, moved⟩ := ticks .storeDecimal (by decide) running upcoming []
  cases executed.symm.trans done
  have total : 100 * a.toNat + 10 * b.toNat + c.toNat = 254 := sum.trans value
  simp only [UInt8.le_iff_toNat_le, UInt8.reduceToNat] at smallA smallB smallC
  have hundreds : a = 2 := UInt8.toNat_inj.mp (by simp only [UInt8.reduceToNat]; omega)
  have tens : b = 5 := UInt8.toNat_inj.mp (by simp only [UInt8.reduceToNat]; omega)
  have ones : c = 4 := UInt8.toNat_inj.mp (by simp only [UInt8.reduceToNat]; omega)
  subst hundreds tens ones
  rw [address] at first second third
  exact ⟨room, narrow, running, upcoming, _, moved, first, second, third⟩

/-! ### Stored now and loaded later -/

theorem upcoming_of_executed? {random : UInt8} {arrivals : List (List Event)} {i : Instruction}
    (executed : m.executed? (.tick random arrivals) = some i) :
    m.status = .running ∧ m.upcoming? = some i := by
  cases status : m.status with
  | halted => simp [executed?_of_halted status] at executed
  | running =>
    rw [executed?_tick status] at executed
    split at executed
    next => exact ⟨rfl, executed⟩
    next => cases executed

/-- A load of as many registers as have been stored, at an alias of their address, gives them the
values that they had at the store, and no other register changes, whatever has been requested and
executed in between, as long as nothing else has been stored in memory. The window of the store
may wrap, and the program that goes on may lie in it. -/
theorem stored_registers_are_loaded (reachable : m.Reachable) {random : UInt8}
    {arrivals : List (List Event)}
    (stores : m.executed? (.tick random arrivals) = some (.register .storeRegisters x))
    {requests : List Request} (aside : ∀ request ∈ requests, request.sparesMemory = true)
    (spares : ∀ op ∈ (m.perform (.tick random arrivals)).2.operationsOfAll requests,
      op.stores = false) :
    let n := (m.perform (.tick random arrivals)).2.performAll requests
    ∀ random arrivals,
      n.executed? (.tick random arrivals) = some (.register .loadRegisters x) →
      n.registers.i.toNat % 4096 = m.registers.i.toNat % 4096 →
      ∀ j : Fin 16, (n.perform (.tick random arrivals)).2.registers.v.read j =
        if j.val ≤ x.toNat then m.registers.v.read j else n.registers.v.read j := by
  intro n random' arrivals' loads place j
  have wellFormed := reachable.wellFormed
  have ready := (safe_perform wellFormed (.tick random arrivals)).wellFormed
  have whole : n.WellFormed := wellFormed_performAll ready requests
  obtain ⟨running, upcoming⟩ := upcoming_of_executed? stores
  obtain ⟨memory, done, stored⟩ :=
    tick_storeRegisters running wellFormed.memory.room random arrivals upcoming
  -- Nothing has been stored since, so memory is still what the store has left.
  have kept : n.memory = memory :=
    (memory_performAll ready aside spares).trans (congrArg (fun turn => turn.2.memory) done)
  rw [← kept] at stored
  obtain ⟨again, following⟩ := upcoming_of_executed? loads
  obtain ⟨w, loaded, fetched⟩ :=
    tick_loadRegisters again whole.memory.room random' arrivals' following
  have values : (n.perform (.tick random' arrivals')).2.registers.v = w :=
    congrArg (fun turn => turn.2.registers.v) loaded
  rw [values]
  split
  next below =>
    have inside : j.val < (m.registers.upTo ⟨x.toNat, narrow_of_upcoming upcoming⟩).length := by
      rw [Registers.length_upTo]
      exact Nat.lt_succ_of_le below
    have same := fetched.getElem?_stored stored (Registers.length_upTo_le _ _) place below inside
    rw [Registers.getElem?_upTo below] at same
    exact (Option.some.inj same).symm
  next above => exact fetched.rest j (Nat.lt_of_not_le above)

/-- The registers that are stored spell the instruction that loads them again, and are stored
where the program goes on. -/
theorem store_writes_its_own_load :
    let m := (fresh 0xf155).performAll [.setRegister 0 0xf1, .setRegister 1 0x65, .setIndex 0x202]
    let n := (m.perform (.tick 0 [])).2.performAll [.setRegister 0 7, .setRegister 1 9]
    m.Reachable ∧ m.executed? (.tick 0 []) = some (.register .storeRegisters 1) ∧
      n.executed? (.tick 0 []) = some (.register .loadRegisters 1) ∧
      (n.perform (.tick 0 [])).2.registers.v.read 0 = 0xf1 ∧
      (n.perform (.tick 0 [])).2.registers.v.read 1 = 0x65 := by
  obtain ⟨f, same, start, status, registers, here⟩ := exists_fresh 0xf155
  rw [same]
  intro m
  have reachable : m.Reachable := .perform _ (.perform _ (.perform _ start nofun) nofun) nofun
  have running : m.status = .running := status
  have here : m.word = 0xf155 := here
  have counter : m.registers.pc = 0x200 := congrArg Registers.pc registers
  have index : m.registers.i = 0x202 := rfl
  have set : m.registers.v = ((f.registers.setV 0 0xf1).setV 1 0x65).v := rfl
  rw [registers] at set
  have first : m.registers.v.read 0 = 0xf1 := by
    rw [set]
    decide
  have second : m.registers.v.read 1 = 0x65 := by
    rw [set]
    decide
  clear_value m
  generalize named : (m.perform (.tick 0 [])).2.performAll [.setRegister 0 7, .setRegister 1 9] = n
  have wellFormed := reachable.wellFormed
  have upcoming : m.upcoming? = some (.register .storeRegisters 1) := by
    rw [upcoming?, here]
    rfl
  have stores := executed?_of_ordinary wellFormed running upcoming rfl 0 []
  obtain ⟨memory, done, stored⟩ := tick_storeRegisters running wellFormed.memory.room 0 [] upcoming
  -- Setting registers leaves everything else as the store has left it.
  have after := named
  rw [done] at after
  have kept : n.memory = memory := congrArg Machine.memory after.symm
  have next : n.registers.pc.toNat = 0x202 := by
    have moved : n.registers.pc = m.registers.advance.pc := congrArg (·.registers.pc) after.symm
    rw [moved, Registers.advance, counter]
    rfl
  have high : n.memory.byte 0x202 = 0xf1 := by
    have found := getElem?_stored (j := 0) stored (Fin.zero_le _)
    rw [first, index] at found
    rw [Memory.byte_eq_getD, kept]
    exact congrArg (·.getD 0) found
  have low : n.memory.byte 0x203 = 0x65 := by
    have found := getElem?_stored (j := 1) stored (Nat.le_refl 1)
    rw [second, index] at found
    rw [Memory.byte_eq_getD, kept]
    exact congrArg (·.getD 0) found
  have following : n.upcoming? = some (.register .loadRegisters 1) := by
    rw [upcoming?, word, next, high, low]
    rfl
  have again : n.status = .running := (congrArg Machine.status after.symm).trans running
  have whole : n.WellFormed :=
    named ▸ wellFormed_performAll (safe_perform wellFormed (.tick 0 [])).wellFormed _
  have loads := executed?_of_ordinary whole again following rfl 0 []
  have place : n.registers.i.toNat % 4096 = m.registers.i.toNat % 4096 :=
    congrArg (·.registers.i.toNat % 4096) after.symm
  have aside : ∀ request ∈ [Request.setRegister 0 7, .setRegister 1 9],
      request.sparesMemory = true := by decide
  have loaded := stored_registers_are_loaded reachable stores aside (List.forall_mem_nil _)
    0 []
  rw [named] at loaded
  have restored {j : Fin 16} (below : j.val ≤ (1 : UInt64).toNat) :
      (n.perform (.tick 0 [])).2.registers.v.read j = m.registers.v.read j :=
    (loaded loads place j).trans (if_pos below)
  exact ⟨reachable, stores, loads, (restored (Nat.zero_le _)).trans first,
    (restored (Nat.le_refl 1)).trans second⟩

end Machine

end Chip8
