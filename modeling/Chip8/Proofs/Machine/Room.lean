import Chip8.Proofs.Machine.Invariant
import Chip8.Proofs.Machine.Lockstep

/-!
# More memory than addresses reach

Bytes behind the last one that an address reaches are never looked at. So a machine whose
memory goes on there does what it does without these bytes, tick by tick, and they stay where
they are. What a full memory is enough for, a longer one is enough for as well.
-/
namespace Chip8

namespace Memory

variable {m : Memory} (full : m.Full) (extra : Array UInt8)

/-- The memory with more bytes behind its last one. -/
def extend (m : Memory) (extra : Array UInt8) : Memory := ⟨m.bytes ++ extra⟩

theorem exists_extend_of_room (room : memorySize ≤ m.size) :
    ∃ (base : Memory) (extra : Array UInt8), base.Full ∧ m = base.extend extra := by
  have long : memorySize ≤ m.bytes.size := room
  refine ⟨⟨m.bytes.extract 0 memorySize⟩, m.bytes.extract memorySize m.bytes.size, ?_, ?_⟩
  · simp only [Full, size, Array.size_extract]
    omega
  · rw [extend, Array.extract_append_extract, Nat.zero_min, Nat.max_eq_right long,
      Array.extract_size]

include full

theorem read_extend (address : Nat) : (m.extend extra).read address = m.read address := by
  have inside := inside_of_full full address
  simp [read, extend, Array.getElem?_append_left inside]

theorem write_extend (address : Nat) (byte : UInt8) :
    (m.extend extra).write address byte = (m.write address byte).within (·.extend extra) := by
  have inside := inside_of_full full address
  have longer : address % memorySize < (m.extend extra).bytes.size := by
    rw [extend, Array.size_append]
    omega
  rw [write, write, dif_pos inside, dif_pos longer]
  simp [extend, Attempt.within, Array.set_append_left inside]

theorem readWord_extend (address : Nat) :
    (m.extend extra).readWord address = m.readWord address := by
  simp only [readWord, read_extend full]

theorem readBytes_extend (address count : Nat) :
    (m.extend extra).readBytes address count = m.readBytes address count := by
  induction count generalizing address with
  | zero => rfl
  | succ count ih => simp only [readBytes, read_extend full, ih]

theorem writeBytes_extend (address : Nat) (bytes : List UInt8) :
    (m.extend extra).writeBytes address bytes =
      (m.writeBytes address bytes).within (·.extend extra) := by
  induction bytes generalizing m address with
  | nil => rfl
  | cons byte rest ih =>
    -- The first write succeeds, and leaves a memory that is full as well.
    obtain ⟨first, written, stored⟩ := exists_write full address byte
    have longer := write_extend full extra address byte
    rw [written] at longer
    simp only [writeBytes, longer, written, Attempt.within, Attempt.andThen]
    exact ih stored (address + 1)

end Memory

namespace Machine
open Attempt (within_finding)

/-- The machine with more bytes behind the end of its memory. -/
def extend (m : Machine) (extra : Array UInt8) : Machine :=
  { m with memory := m.memory.extend extra }

/-- The second machine is the first one with more bytes. -/
abbrev Extended (extra : Array UInt8) (m n : Machine) : Prop := n = m.extend extra

section
variable {m : Machine} (extra : Array UInt8)

theorem memory_extend : (m.extend extra).memory = m.memory.extend extra := rfl

theorem keypad_extend : (m.extend extra).keypad = m.keypad := rfl

theorem registers_extend : (m.extend extra).registers = m.registers := rfl

/-! ### Instructions -/

theorem executePlain_extend (op : PlainOp) :
    (m.extend extra).executePlain op = (m.executePlain op).within (·.extend extra) := by
  cases op with
  | clearScreen => rfl
  | ret =>
    unfold executePlain
    simp only [registers_extend]
    obtain ⟨abort | address, registers⟩ := m.registers.pop <;> rfl

theorem executeAddress_extend (a : Word) (op : AddressOp) :
    (m.extend extra).executeAddress a op = (m.executeAddress a op).within (·.extend extra) := by
  cases op with
  | call =>
    unfold executeAddress
    simp only [registers_extend]
    obtain ⟨abort | _, registers⟩ := m.registers.push m.registers.pc <;> rfl
  | _ => rfl

theorem executeImmediate_extend (random : UInt8) (x : Fin 16) (b : UInt8) (op : ImmediateOp) :
    (m.extend extra).executeImmediate random x b op =
      (m.executeImmediate random x b op).extend extra := by
  cases op <;> rfl

theorem executeCompare_extend (x y : Fin 16) (op : CompareOp) :
    (m.extend extra).executeCompare x y op = (m.executeCompare x y op).extend extra := by
  cases op <;> rfl

variable (full : m.memory.Full)
include full

theorem executeDraw_extend (x y : Fin 16) (n : UInt8) :
    (m.extend extra).executeDraw x y n = (m.executeDraw x y n).within (·.extend extra) := by
  have sprite := Memory.readBytes_eq full m.registers.i.toNat n.toNat
  have longer := (Memory.readBytes_extend full extra _ _).trans sprite
  simp only [executeDraw, memory_extend, registers_extend, sprite, longer]
  rfl

theorem store_extend (bytes : List UInt8) :
    executeRegister.store (m.extend extra) bytes =
      (executeRegister.store m bytes).within (·.extend extra) := by
  have longer := Memory.writeBytes_extend full extra m.registers.i.toNat bytes
  simp only [executeRegister.store, memory_extend, registers_extend, longer]
  obtain ⟨abort | _, memory⟩ := m.memory.writeBytes m.registers.i.toNat bytes <;> rfl

theorem executeRegister_extend (x : Fin 16) (op : RegisterOp) :
    (m.extend extra).executeRegister x op =
      (m.executeRegister x op).within (·.extend extra) := by
  cases op with
  | setSound =>
    have vx : executeRegister.vx (m.extend extra) x = executeRegister.vx m x := rfl
    simp only [executeRegister, vx]
    by_cases short : executeRegister.vx m x = 1
    · simp only [short, if_true]
      rfl
    · simp only [short, if_false]
      rfl
  | storeDecimal => exact store_extend extra full _
  | storeRegisters => exact store_extend extra full _
  | loadRegisters =>
    have values := Memory.readBytes_eq full m.registers.i.toNat (x.val + 1)
    have longer := (Memory.readBytes_extend full extra _ _).trans values
    simp only [executeRegister, memory_extend, registers_extend, values, longer, Attempt.finding]
    obtain ⟨abort | _, registers⟩ := m.registers.setUpTo x _ <;> rfl
  | _ => rfl

theorem execute_extend (random : UInt8) (i : Instruction) :
    (m.extend extra).execute random i =
      (m.execute random i).within (·.extend extra) := by
  have step {first second : Attempt Machine Unit}
      (same : first = second.within (·.extend extra)) :
      first.andThen finish = (second.andThen finish).within (·.extend extra) := by
    rw [same]
    obtain ⟨abort | _, n⟩ := second <;> rfl
  -- The groups of `execute`; most of them do not look at memory at all.
  cases i with
  | plain op => exact step (executePlain_extend extra op)
  | address op a => exact step (executeAddress_extend extra a op)
  | immediate op x b =>
    simp only [execute, within_finding, executeImmediate_extend]
    rfl
  | compare op x y =>
    simp only [execute, within_finding, executeCompare_extend]
    rfl
  | arithmetic op x y =>
    simp only [execute, within_finding]
    rfl
  | draw x y n =>
    simp only [execute, within_finding, step (executeDraw_extend extra full _ _ n)]
  | register op x =>
    simp only [execute, within_finding, executeRegister_extend extra full]

/-! ### Ticks -/

theorem turn_extend (random : UInt8) (w : Word) :
    Turn.Related (Extended extra) (m.turn random w) ((m.extend extra).turn random w) := by
  unfold turn
  cases Instruction.decode w with
  | none => exact .finished _ rfl
  | some i =>
    simp only [execute_extend extra full]
    match m.execute random i with
    | (.ok .done, n) => exact .finished _ rfl
    | (.ok (.waiting x), n) => exact .waiting x rfl
    | (.error (.fault fault), n) => exact .finished _ rfl
    | (.error (.trap trap), n) => exact .finished _ rfl

theorem beginTick_extend (random : UInt8) :
    Turn.Related (Extended extra) (m.beginTick random) ((m.extend extra).beginTick random) := by
  cases status : m.status with
  | halted =>
    rw [beginTick_of_halted status, beginTick_of_halted (m := m.extend extra) status]
    exact .finished _ rfl
  | running =>
    rw [beginTick_of_running status, beginTick_of_running (m := m.extend extra) status]
    have fetched : m.counted.fetch = .ok m.word := fetch_eq full
    have same : (m.extend extra).counted.fetch = .ok m.word :=
      (Memory.readWord_extend full extra _).trans fetched
    rw [fetched, same]
    exact turn_extend (m := m.counted) extra full random m.word

omit full in
theorem awaits_extend (x : Fin 16) (arrivals : List (List Event)) :
    Vigil.Related (Extended extra) (SameEnd (Extended extra))
      (awaitResult (wake? x) (applyAll apply) m arrivals)
      (awaitResult (wake? x) (applyAll apply) (m.extend extra) arrivals) := by
  -- Neither the latch nor what others do has anything to do with memory.
  refine awaitResult_related (R := Extended extra) ?_ (fun _ _ events related =>
    applyAll_related (R := Extended extra) ?_ related events) rfl arrivals
  · rintro m _ rfl
    simp only [wake?, keypad_extend]
    cases m.keypad.keyOrInterruption? with
    | none => exact .none
    | some answer =>
      cases answer with
      | ok key => exact .some ⟨rfl, rfl⟩
      | error fault => exact .some ⟨rfl, rfl⟩
  · rintro m _ event rfl
    cases event with
    | countDown timer => cases timer <;> exact ⟨rfl, rfl⟩
    | _ => exact ⟨rfl, rfl⟩

end

/-- A machine whose addresses lie in memory, and whose memory has a byte for each of them. -/
structure Roomy (m : Machine) : Prop where
  registers : m.registers.Bounded
  memory : memorySize ≤ m.memory.size

variable {m : Machine}

theorem WellFormed.roomy_extend (wellFormed : m.WellFormed) (extra : Array UInt8) :
    (m.extend extra).Roomy := by
  refine ⟨wellFormed.registers, ?_⟩
  have longer : m.memory.size ≤ (m.extend extra).memory.size := by
    simp [memory_extend, Memory.extend, Memory.size]
  exact Nat.le_trans wellFormed.memory.room longer

theorem Roomy.exists_extend (roomy : m.Roomy) :
    ∃ base extra, WellFormed base ∧ m = base.extend extra := by
  obtain ⟨memory, extra, full, same⟩ := Memory.exists_extend_of_room roomy.memory
  refine ⟨{ m with memory }, extra, ⟨roomy.registers, full⟩, ?_⟩
  simp only [extend, ← same]

end Machine

namespace Session
open Machine

theorem tick_extend {s : Session} (wellFormed : s.machine.WellFormed) (extra : Array UInt8)
    (random : UInt8) :
    Joint (Extended extra) (fun _ _ => True) (s.tick random)
      (tick { s with machine := s.machine.extend extra } random) := by
  have lockstep : Lockstep (Extended extra) (fun _ _ => True) s
      { s with machine := s.machine.extend extra } := ⟨rfl, rfl, rfl, trivial⟩
  refine lockstep.tick_of_begun (fun _ _ _ => trivial) ?_ ?_
  · exact beginTick_extend extra wellFormed.memory random
  · rintro x m _ rfl
    exact awaits_extend extra x s.arrivals

theorem tick_of_roomy {s : Session} (roomy : s.machine.Roomy) (random : UInt8) :
    (s.tick random).2.machine.Roomy ∧ ∀ trap, (s.tick random).1 ≠ .failed (.trap trap) := by
  obtain ⟨base, extra, wellFormed, same⟩ := roomy.exists_extend
  -- The session with the shorter memory ticks in the same way.
  have joint := tick_extend (s := { s with machine := base }) wellFormed extra random
  simp only [← same] at joint
  obtain ⟨outcome, machine, -⟩ := joint
  have ticked := wellFormed_tick (s := { s with machine := base }) wellFormed random
  rw [machine, outcome]
  exact ⟨ticked.roomy_extend extra, tick_ne_trap wellFormed random⟩

end Session

namespace Machine

/-- A request that leaves a machine with room and is not answered by a trap. -/
structure Unharmed (turn : Outcome × Machine) : Prop where
  roomy : turn.2.Roomy
  untrapped : ∀ trap, turn.1 ≠ .failed (.trap trap)

variable {m : Machine}

/-- What is safe without the bytes behind the end is harmless with them. -/
theorem Safe.unharmed {turn : Outcome × Machine} (safe : Safe turn) (extra : Array UInt8) :
    Unharmed (turn.1, turn.2.extend extra) :=
  ⟨safe.wellFormed.roomy_extend extra, safe.untrapped⟩

theorem Stores.unharmed {turn : Outcome × Machine} {memory : Memory}
    (stores : Stores m turn memory) (roomy : m.Roomy) : Unharmed turn := by
  refine ⟨?_, stores.untrapped⟩
  rw [stores.machine]
  exact ⟨roomy.registers, stores.size.symm ▸ roomy.memory⟩

theorem unharmed_run (roomy : m.Roomy) (world : World) (count : Nat)
    (arrivals : List (List Event)) :
    Unharmed (m.perform (.run world count arrivals)) := by
  have after (m : Machine) (event : Event) (roomy : m.Roomy) : (m.apply event).2.Roomy := by
    have inside := sameInside_apply m event
    refine ⟨?_, ?_⟩
    · rw [inside.registers]
      exact roomy.registers
    · rw [inside.memory]
      exact roomy.memory
  have tick (s : Session) (random : UInt8) (roomy : s.machine.Roomy) :=
    Session.tick_of_roomy roomy random
  constructor
  · exact Session.run_induction world after (fun m roomy => ⟨roomy.registers, roomy.memory⟩)
      (fun s random roomy => (tick s random roomy).1) count 0 roomy
  · exact Session.run_ne_trap_of world after (fun s random roomy => (tick s random roomy).1)
      (fun s random trap roomy => (tick s random roomy).2 trap) count 0 roomy

/-- Whatever a host requests of a machine with room, it goes on to have room. -/
theorem unharmed_perform (roomy : m.Roomy) (request : Request) :
    Unharmed (m.perform request) := by
  -- A request that leaves memory alone does the same without the bytes behind the end.
  obtain ⟨base, extra, wellFormed, same⟩ := roomy.exists_extend
  have safe := (safe_perform wellFormed request).unharmed extra
  cases request with
  | load program =>
    obtain ⟨_, stores⟩ := exists_stores_load roomy.memory program
    exact stores.unharmed roomy
  | memory update =>
    obtain ⟨_, stores⟩ := exists_stores_memory roomy.memory update
    exact stores.unharmed roomy
  | tick random arrivals =>
    have ticked := Session.tick_of_roomy (s := { machine := m, arrivals }) roomy random
    exact ⟨ticked.1, ticked.2⟩
  | run world count arrivals => exact unharmed_run roomy world count arrivals
  | setRegister register value =>
    subst same
    simp only [perform, setRegister] at safe ⊢
    by_cases known : register < 16
    · simp only [known, dite_true] at safe ⊢
      exact safe
    · simp only [known, dite_false] at safe ⊢
      exact safe
  | event event =>
    subst same
    cases event with
    | countDown timer => cases timer <;> exact safe
    | _ => exact safe
  | reset =>
    subst same
    simp only [perform, reset_eq] at safe ⊢
    exact safe
  | _ =>
    subst same
    exact safe

theorem roomy_performAll (roomy : m.Roomy) (requests : List Request) :
    (m.performAll requests).Roomy := by
  induction requests generalizing m with
  | nil => exact roomy
  | cons request rest ih => exact ih (unharmed_perform roomy request).roomy

end Machine

end Chip8
