import Chip8.Machine.History
import Chip8.Proofs.Machine.Rounds
import Chip8.Proofs.Machine.Ticks

/-!
# No machine gets out of bounds

Every machine that a host can make is well-formed: its addresses lie in memory, its
stack pointer counts slots, and its memory is full. A return takes a slot for the
program counter as it is, so the invariant has to bound all slots, used or not; and
it asks nothing of the bytes in memory, since any of them may be executed. Pixels
are in bounds by their type. It follows that no request is ever answered by a trap.
-/
namespace Chip8

/-! ### Ticks -/

namespace Machine

theorem wellFormed_new (settings : Settings) : (new settings).WellFormed :=
  ⟨Registers.bounded_initial, Memory.full_initial⟩

theorem WellFormed.advance {m : Machine} (wellFormed : m.WellFormed) : m.advance.WellFormed :=
  ⟨wellFormed.registers.advance, wellFormed.memory⟩

theorem WellFormed.raiseStop {m : Machine} (wellFormed : m.WellFormed) : m.raiseStop.WellFormed :=
  ⟨wellFormed.registers, wellFormed.memory⟩

theorem WellFormed.interruptKeypad {m : Machine} (wellFormed : m.WellFormed) :
    m.interruptKeypad.WellFormed :=
  ⟨wellFormed.registers, wellFormed.memory⟩

theorem WellFormed.reset {m : Machine} (wellFormed : m.WellFormed) : m.reset.WellFormed := by
  rw [reset_eq]
  exact ⟨Registers.bounded_initial, wellFormed.memory⟩

theorem WellFormed.after {m : Machine} (wellFormed : m.WellFormed) (events : List Event) :
    (m.after events).WellFormed := by
  have inside := sameInside_after m events
  constructor
  · rw [inside.registers]
    exact wellFormed.registers
  · rw [inside.memory]
    exact wellFormed.memory

theorem Ordinary.wellFormed {m n : Machine} (kept : Ordinary m n) (wellFormed : m.WellFormed) :
    n.WellFormed := by
  refine ⟨⟨?_, ?_, ?_⟩, kept.memory⟩
  · rcases kept.pc with same | ⟨target, wrapped⟩
    · rw [same]
      exact wellFormed.registers.pc
    · rw [wrapped]
      exact wrapAddress_lt target
  · rw [kept.sp]
    exact wellFormed.registers.sp
  · rw [kept.stack]
    exact wellFormed.registers.stack

theorem Executed.wellFormed {m n : Machine} {i : Instruction}
    (executed : Executed m i (.ok .done, n)) (wellFormed : m.WellFormed) : n.WellFormed := by
  cases executed with
  | returned occupied popped => exact ⟨wellFormed.registers.pop popped, wellFormed.memory⟩
  | called free pushed =>
    -- The address that is pushed is bounded because the program counter is.
    have pushed := wellFormed.registers.push wellFormed.registers.pc pushed
    exact ⟨pushed.branch _, wellFormed.memory⟩
  | ordinary kind kept => exact kept.wellFormed wellFormed

theorem WellFormed.ticked {m n : Machine} (wellFormed : m.WellFormed) {random : UInt8}
    {arrivals : List (List Event)} {outcome : Outcome}
    (ticked : Ticked m random arrivals outcome n) :
    n.WellFormed := by
  cases ticked with
  | unknown undecodable => exact ⟨wellFormed.registers, wellFormed.memory⟩
  | refused decoded failed => exact ⟨wellFormed.registers, wellFormed.memory⟩
  | executed decoded done =>
    have executed := wellFormed.executed decoded done
    exact (executed.wellFormed wellFormed.counted).advance
  | @pressed x key met rest narrow decoded split awaits =>
    -- The key goes into the registers from before the wait, which no event changes.
    have waited := wellFormed.armed.after met.flatten
    have registers : (m.registers.setV ⟨x.toNat, narrow⟩ key).Bounded :=
      ⟨wellFormed.registers.pc, wellFormed.registers.sp, wellFormed.registers.stack⟩
    exact WellFormed.advance ⟨registers, waited.memory⟩
  | @interrupted x met rest decoded split awaits =>
    have waited := wellFormed.armed.after met.flatten
    exact ⟨waited.registers, waited.memory⟩
  | blocked decoded awaits => exact wellFormed.armed.after arrivals.flatten

/-- The ways in which a tick may end: not by a trap, and blocked only in a wait for a key. -/
theorem Ticked.outcome_cases {m n : Machine} {random : UInt8} {arrivals : List (List Event)}
    {outcome : Outcome} (ticked : Ticked m random arrivals outcome n) :
    outcome = .done ∨ (∃ fault, outcome = .failed (.fault fault)) ∨
      outcome = .blocked ∧ ∃ x, m.upcoming? = some (.register .waitKey x) := by
  cases ticked with
  | unknown undecodable => exact Or.inr (Or.inl ⟨_, rfl⟩)
  | refused decoded failed => exact Or.inr (Or.inl ⟨_, rfl⟩)
  | executed decoded done => exact Or.inl rfl
  | pressed narrow decoded split awaits => exact Or.inl rfl
  | interrupted decoded split awaits => exact Or.inr (Or.inl ⟨_, rfl⟩)
  | blocked decoded awaits => exact Or.inr (Or.inr ⟨rfl, _, decoded⟩)

end Machine

namespace Session
open Machine

theorem wellFormed_tick {s : Session} (wellFormed : s.machine.WellFormed) (random : UInt8) :
    (s.tick random).2.machine.WellFormed := by
  cases status : s.machine.status with
  | halted =>
    rw [tick_of_halted status]
    exact wellFormed
  | running => exact wellFormed.ticked (ticked_tick wellFormed status random)

theorem tick_cases {s : Session} (wellFormed : s.machine.WellFormed) (random : UInt8) :
    (s.tick random).1 = .done ∨ (∃ fault, (s.tick random).1 = .failed (.fault fault)) ∨
      (s.tick random).1 = .blocked ∧ ∃ x, s.machine.upcoming? = some (.register .waitKey x) := by
  cases status : s.machine.status with
  | halted =>
    rw [tick_of_halted status]
    exact Or.inl rfl
  | running => exact (ticked_tick wellFormed status random).outcome_cases

theorem tick_ne_trap {s : Session} (wellFormed : s.machine.WellFormed) (random : UInt8)
    (trap : Trap) : (s.tick random).1 ≠ .failed (.trap trap) := by
  rcases tick_cases wellFormed random with done | ⟨fault, failed⟩ | ⟨blocked, _⟩
  · simp [done]
  · simp [failed]
  · simp [blocked]

/-! ### Requests -/

theorem wellFormed_round {s : Session} (wellFormed : s.machine.WellFormed) (world : World)
    (number : Nat) : (s.round world number).2.machine.WellFormed :=
  wellFormed_tick (s := s.before world number) (wellFormed.after _) (world.random number)

theorem wellFormed_run {s : Session} (wellFormed : s.machine.WellFormed) (world : World)
    (count first : Nat) : (run world count first s).2.machine.WellFormed :=
  run_induction world (fun _ event wellFormed => wellFormed.after [event])
    (fun _ wellFormed => ⟨wellFormed.registers, wellFormed.memory⟩)
    (fun _ random wellFormed => wellFormed_tick wellFormed random) count first wellFormed

/-- Runs do not trap if ticks do not, and if that stays so. -/
theorem run_ne_trap_of {P : Machine → Prop} (world : World)
    (apply : ∀ m event, P m → P (m.apply event).2)
    (tick : ∀ (s : Session) random, P s.machine → P (s.tick random).2.machine)
    (untrapped : ∀ (s : Session) random trap, P s.machine →
      (s.tick random).1 ≠ .failed (.trap trap))
    (count first : Nat) {s : Session} (holds : P s.machine) (trap : Trap) :
    (run world count first s).1 ≠ .failed (.trap trap) := by
  induction count generalizing first s with
  | zero => simp [run]
  | succ count ih =>
    cases running : s.machine.status with
    | halted => simp [run_of_halted running]
    | running =>
      have met : P (s.before world first).machine := after_induction apply _ holds
      cases stopped : (s.before world first).machine.stopRequested with
      | true => simp [run_of_stopped running stopped]
      | false =>
        -- A round can only trap in its tick.
        have round : (s.round world first).1 ≠ .failed (.trap trap) := untrapped _ _ trap met
        have ticked : P (s.round world first).2.machine := tick _ _ met
        rcases s.round_cases world first with ⟨t, ended⟩ | ⟨outcome, t, ended, last⟩
        · rw [ended] at ticked
          rw [run_of_done running stopped ended]
          exact ih (first + 1) ticked
        · rw [ended] at round
          rcases run_cases_of_ended running stopped ended last with same | finished
          · rw [same]
            exact round
          · simp [finished]

theorem run_ne_trap {s : Session} (wellFormed : s.machine.WellFormed) (world : World)
    (count first : Nat) (trap : Trap) : (run world count first s).1 ≠ .failed (.trap trap) :=
  run_ne_trap_of world (fun _ event wellFormed => wellFormed.after [event])
    (fun _ random wellFormed => wellFormed_tick wellFormed random)
    (fun _ random trap wellFormed => tick_ne_trap wellFormed random trap) count first wellFormed
    trap

end Session

namespace Machine

/-- A request that leaves a well-formed machine and is not answered by a trap. -/
structure Safe (turn : Outcome × Machine) : Prop where
  wellFormed : turn.2.WellFormed
  untrapped : ∀ trap, turn.1 ≠ .failed (.trap trap)

theorem safe_done {m : Machine} (wellFormed : m.WellFormed) : Safe (.done, m) :=
  ⟨wellFormed, by simp⟩

theorem safe_fault {m : Machine} (wellFormed : m.WellFormed) (fault : Fault) :
    Safe (.failed (.fault fault), m) :=
  ⟨wellFormed, by simp⟩

theorem WellFormed.withMemory {m : Machine} (wellFormed : m.WellFormed) {memory : Memory}
    (full : memory.Full) : { m with memory }.WellFormed :=
  ⟨wellFormed.registers, full⟩

/-- A request that does no more than store bytes in memory, each in its place. -/
structure Stores (m : Machine) (turn : Outcome × Machine) (memory : Memory) : Prop where
  machine : turn.2 = { m with memory }
  size : memory.size = m.memory.size
  untrapped : ∀ trap, turn.1 ≠ .failed (.trap trap)

theorem stores_done {m : Machine} {memory : Memory} (size : memory.size = m.memory.size) :
    Stores m (.done, { m with memory }) memory :=
  ⟨rfl, size, by simp⟩

theorem stores_fault {m : Machine} {memory : Memory} (size : memory.size = m.memory.size)
    (fault : Fault) : Stores m (.failed (.fault fault), { m with memory }) memory :=
  ⟨rfl, size, by simp⟩

theorem exists_stores_load {m : Machine} (room : memorySize ≤ m.memory.size)
    (program : List UInt8) : ∃ memory, Stores m (m.perform (.load program)) memory := by
  obtain ⟨cleared, clear, emptied⟩ := Memory.exists_fillRegion_of_room room .program 0
  have left : memorySize ≤ cleared.size := emptied.symm ▸ room
  -- The region is cleared first, so a refused program leaves another memory as well.
  change m.memory.clearRegion .program = (.ok (), cleared) at clear
  simp only [perform, loadProgram, clear, Attempt.andThen]
  rcases Memory.loadRegion_cases_of_room left .program program with ⟨loaded, load, size⟩ | refused
  · rw [load]
    exact ⟨loaded, stores_done (size.trans emptied)⟩
  · rw [refused]
    exact ⟨cleared, stores_fault emptied _⟩

theorem exists_stores_memory {m : Machine} (room : memorySize ≤ m.memory.size)
    (update : Memory.Update) : ∃ memory, Stores m (m.perform (.memory update)) memory := by
  simp only [perform, updateMemory]
  rcases Memory.update_cases_of_room room update with ⟨updated, done, size⟩ | ⟨fault, refused⟩
  · rw [done]
    exact ⟨updated, stores_done size⟩
  · rw [refused]
    exact ⟨m.memory, stores_fault rfl fault⟩

theorem Stores.safe {m : Machine} {turn : Outcome × Machine} {memory : Memory}
    (stores : Stores m turn memory) (wellFormed : m.WellFormed) : Safe turn := by
  refine ⟨?_, stores.untrapped⟩
  rw [stores.machine]
  exact wellFormed.withMemory (stores.size.trans wellFormed.memory)

theorem safe_setRegister {m : Machine} (wellFormed : m.WellFormed) (register : Nat)
    (value : UInt8) : Safe (m.perform (.setRegister register value)) := by
  simp only [perform, setRegister]
  by_cases known : register < 16
  · simp only [known, dite_true]
    have ⟨pc, sp, stack⟩ := wellFormed.registers
    exact safe_done ⟨⟨pc, sp, stack⟩, wellFormed.memory⟩
  · simp only [known, dite_false]
    exact safe_fault wellFormed _

theorem safe_event {m : Machine} (wellFormed : m.WellFormed) (event : Event) :
    Safe (m.perform (.event event)) := by
  have after : (m.apply event).2.WellFormed := wellFormed.after [event]
  simp only [perform]
  cases (m.apply event).1 with
  | ok answer => exact safe_done after
  | error fault => exact safe_fault after fault

/-- Whatever a host requests of a well-formed machine, it stays well-formed and no
access misses its place. -/
theorem safe_perform {m : Machine} (wellFormed : m.WellFormed) (request : Request) :
    Safe (m.perform request) := by
  cases request with
  | load program =>
    obtain ⟨_, stores⟩ := exists_stores_load wellFormed.memory.room program
    exact stores.safe wellFormed
  | setRegister register value => exact safe_setRegister wellFormed register value
  | setPc pc => exact safe_done ⟨wellFormed.registers.withPc pc, wellFormed.memory⟩
  | setIndex i =>
    have ⟨pc, sp, stack⟩ := wellFormed.registers
    exact safe_done ⟨⟨pc, sp, stack⟩, wellFormed.memory⟩
  | memory update =>
    obtain ⟨_, stores⟩ := exists_stores_memory wellFormed.memory.room update
    exact stores.safe wellFormed
  | event event => exact safe_event wellFormed event
  | tick random arrivals =>
    exact ⟨Session.wellFormed_tick wellFormed random, Session.tick_ne_trap wellFormed random⟩
  | run world count arrivals =>
    exact ⟨Session.wellFormed_run wellFormed world count 0,
      Session.run_ne_trap wellFormed world count 0⟩
  | reset => exact safe_done wellFormed.reset
  | toggleDebug => exact safe_done ⟨wellFormed.registers, wellFormed.memory⟩
  | observeTone id => exact safe_done ⟨wellFormed.registers, wellFormed.memory⟩
  | shutdown => exact safe_done ⟨wellFormed.registers, wellFormed.memory⟩

theorem Reachable.wellFormed {m : Machine} (reachable : m.Reachable) : m.WellFormed := by
  induction reachable with
  | new settings => exact wellFormed_new settings
  | perform request earlier completed ih => exact (safe_perform ih request).wellFormed

/-- The bounds of all machines that a host can make, in numbers. They do not depend
on what is in memory: with any other bytes there, a tick still ends without a trap,
and so does every other request. -/
theorem reachable_in_bounds {m : Machine} (reachable : m.Reachable) :
    m.registers.pc.toNat < 4096 ∧ m.registers.sp.toNat ≤ 16 ∧
      (∀ slot, (m.registers.stack.read slot).toNat < 4096) ∧ m.memory.size = 4096 ∧
      ∀ memory : Memory, memory.size = 4096 →
        (∀ request, Safe ({ m with memory }.perform request)) ∧
        ∀ random arrivals,
          let outcome := ({ m with memory }.perform (.tick random arrivals)).1
          outcome = .done ∨ (∃ fault, outcome = .failed (.fault fault)) ∨
            outcome = .blocked ∧
              ∃ x, { m with memory }.upcoming? = some (.register .waitKey x) := by
  have wellFormed := reachable.wellFormed
  have bounded := wellFormed.registers
  refine ⟨bounded.pc, bounded.sp, bounded.stack, wellFormed.memory, ?_⟩
  intro memory full
  have changed : { m with memory }.WellFormed := wellFormed.withMemory full
  refine ⟨safe_perform changed, ?_⟩
  intro random arrivals
  exact Session.tick_cases changed random

theorem wrapped_pc_in_bounds :
    let m := ((new { }).perform (.setPc 0xffff)).2
    m.Reachable ∧ m.registers.pc.toNat < 4096 ∧ Safe (m.perform (.tick 0 [])) := by
  intro m
  have reachable : m.Reachable := .perform (.setPc 0xffff) (.new { }) (by decide)
  have ⟨pc, _, _, full, safe⟩ := reachable_in_bounds reachable
  exact ⟨reachable, pc, (safe m.memory full).1 (.tick 0 [])⟩

end Machine

end Chip8
