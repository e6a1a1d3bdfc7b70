import Chip8.Proofs.Machine.Footprints
import Chip8.Proofs.Machine.Operations

/-!
# Ticks and their footprints

A tick that is done has executed one instruction and changed nothing outside its
footprint. Only two operations have places of memory in theirs. So memory, and with it
the program, stays as it is through any requests of which none writes memory from
outside and none executes one of these two, however often they tick.
-/
namespace Chip8

/-- Whether the operation writes memory. -/
def Operation.stores : Operation → Bool
  | .register .storeDecimal => true
  | .register .storeRegisters => true
  | _ => false

theorem Instruction.not_place_of_not_stores {i : Instruction} (spares : i.operation.stores = false)
    (r : Registers) (place : Nat) : ¬ (i.footprint r).place place := by
  cases i with
  | plain op => cases op <;> exact not_false
  | address op a => cases op <;> exact not_false
  | immediate op x b => cases op <;> exact not_false
  | compare op x y => exact not_false
  | arithmetic op x y => exact not_false
  | draw x y n => exact not_false
  | register op x =>
    cases op with
    | storeDecimal => cases spares
    | storeRegisters => cases spares
    | _ => exact not_false

namespace Machine

/-- Whether the request writes no memory from outside. -/
def Request.sparesMemory : Request → Bool
  | .load _ => false
  | .memory _ => false
  | _ => true

variable {m n : Machine}

/-! ### Ticks -/

/-- The machine that has taken its key is the one that others have left, but for the
key's register and the latch. -/
theorem changesOnly_pressed {x : UInt64} (key : UInt8) (met : List Event) (narrow : x.toNat < 16) :
    ChangesOnly (Instruction.footprint m.registers (.register .waitKey x)) (m.after met)
      ((m.armed.after met).withRegisters (m.registers.setV ⟨x.toNat, narrow⟩ key)).advance := by
  -- Arming touches the latch alone, so others leave both machines alike elsewhere.
  have inside := sameInside_after m met
  have armed := sameInside_after m.armed met
  have aside : SameOutside m m.armed := ⟨rfl, rfl, rfl, rfl⟩
  have outside := aside.after met
  have named : Names x ⟨x.toNat, narrow⟩ := Registers.index_eq narrow
  have registers : (m.after met).registers.ChangesOnly
      (Instruction.footprint m.registers (.register .waitKey x))
      (m.registers.setV ⟨x.toNat, narrow⟩ key).advance := by
    rw [inside.registers]
    exact (Registers.changesOnly_setV _ key named).trans (Registers.changesOnly_withPc _ _)
  have memory : (m.armed.after met).memory = (m.after met).memory :=
    armed.memory.trans inside.memory.symm
  have screen : (m.armed.after met).screen = (m.after met).screen :=
    armed.screen.trans inside.screen.symm
  exact {
    settings := armed.settings.trans inside.settings.symm
    status := armed.status.trans inside.status.symm
    stopRequested := outside.stopRequested
    held := outside.held
    registers
    place := fun address _ => congrArg (·.byte address) memory
    pixel := fun p _ => congrArg (·.pixels.read p) screen
    generation := fun _ => congrArg Screen.generation screen
    delay := Or.inl outside.delay
    sound := Or.inl outside.sound
    latch := fun outside => absurd trivial outside }

/-- A tick of a running machine, told by the events that it has met: only a wait meets
any. If it is done, it has changed nothing outside the footprint of its instruction. -/
structure Kept (m : Machine) (met : List Event) (outcome : Outcome) (n : Machine) : Prop where
  waits : met = [] ∨ ∃ x, m.upcoming? = some (.register .waitKey x)
  settings : n.settings = m.settings
  held : n.keypad.held = (m.after met).keypad.held
  stopRequested : n.stopRequested = (m.after met).stopRequested
  cycle : n.cycle = m.cycle + 1
  footprint : outcome = .done → ∃ i, m.upcoming? = some i ∧
    ChangesOnly (i.footprint m.registers) (m.after met) n

theorem Ticked.kept {random : UInt8} {arrivals : List (List Event)} {outcome : Outcome}
    (wellFormed : m.WellFormed) (ticked : Ticked m random arrivals outcome n) :
    ∃ met, met <+: arrivals ∧ Kept m met.flatten outcome n := by
  have aside : SameOutside m m.armed := ⟨rfl, rfl, rfl, rfl⟩
  cases ticked with
  | unknown undecodable =>
    exact ⟨[], List.nil_prefix, Or.inl rfl, rfl, rfl, rfl, rfl, nofun⟩
  | refused decoded failed =>
    exact ⟨[], List.nil_prefix, Or.inl rfl, rfl, rfl, rfl, rfl, nofun⟩
  | @executed i n decoded done =>
    have changes := (changesOnly_execute wellFormed.counted done).advance
    have cycle := (wellFormed.executed decoded done).untouched.cycle
    -- Counting the cycle has changed nothing that a footprint speaks of.
    refine ⟨[], List.nil_prefix, Or.inl rfl, changes.settings, changes.held,
      changes.stopRequested, cycle, fun _ => ⟨i, decoded, ?_⟩⟩
    exact { changes with }
  | @pressed x key met rest narrow decoded split awaits =>
    have changes := changesOnly_pressed (m := m) key met.flatten narrow
    have inside := sameInside_after m.armed met.flatten
    exact ⟨met, ⟨rest, split.symm⟩, Or.inr ⟨x, decoded⟩, inside.settings, changes.held,
      changes.stopRequested, inside.cycle, fun _ => ⟨_, decoded, changes⟩⟩
  | @interrupted x met rest decoded split awaits =>
    have inside := sameInside_after m.armed met.flatten
    have outside := aside.after met.flatten
    exact ⟨met, ⟨rest, split.symm⟩, Or.inr ⟨x, decoded⟩, inside.settings, outside.held,
      outside.stopRequested, inside.cycle, nofun⟩
  | @blocked x decoded awaits =>
    have inside := sameInside_after m.armed arrivals.flatten
    have outside := aside.after arrivals.flatten
    exact ⟨arrivals, List.prefix_refl _, Or.inr ⟨x, decoded⟩, inside.settings, outside.held,
      outside.stopRequested, inside.cycle, nofun⟩

/-! ### Memory -/

theorem Ticked.memory_eq {random : UInt8} {arrivals : List (List Event)} {outcome : Outcome}
    (wellFormed : m.WellFormed) (ticked : Ticked m random arrivals outcome n)
    (spares : outcome = .done → ∀ i, m.upcoming? = some i → i.operation.stores = false) :
    n.memory = m.memory := by
  have after := wellFormed.ticked ticked
  cases ticked with
  | unknown undecodable => rfl
  | refused decoded failed => rfl
  | executed decoded done =>
    have changes := changesOnly_execute wellFormed.counted done
    have outside := Instruction.not_place_of_not_stores (spares rfl _ decoded) m.registers
    exact Memory.eq_of_byte_eq wellFormed.memory after.memory fun address =>
      changes.place address (outside _)
  | @pressed x key met rest narrow decoded split awaits =>
    exact (sameInside_after m.armed met.flatten).memory
  | @interrupted x met rest decoded split awaits =>
    exact (sameInside_after m.armed met.flatten).memory
  | blocked decoded awaits => exact (sameInside_after m.armed arrivals.flatten).memory

theorem account_memory : Account fun executed m n =>
    (∀ op ∈ executed, op.stores = false) → n.memory = m.memory where
  refl _ _ := rfl
  trans first second spares :=
    (second fun op member => spares op (List.mem_append_right _ member)).trans
      (first fun op member => spares op (List.mem_append_left _ member))
  apply m event _ := (sameInside_apply m event).memory
  halt _ _ := rfl
  ticked wellFormed ticked spares := by
    apply ticked.memory_eq wellFormed
    -- A tick that is not done has executed nothing, whatever the word says.
    intro done i decoded
    apply spares
    rw [if_pos done, decoded]
    exact List.mem_singleton_self _

theorem memory_perform (wellFormed : m.WellFormed) {request : Request}
    (aside : request.sparesMemory = true)
    (spares : ∀ op ∈ m.operationsOf request, op.stores = false) :
    (m.perform request).2.memory = m.memory := by
  cases request with
  | load program => cases aside
  | memory update => cases aside
  | setRegister register value =>
    simp only [perform, setRegister]
    by_cases known : register < 16
    · simp only [known, dite_true]
    · simp only [known, dite_false]
  | setPc pc => rfl
  | setIndex i => rfl
  | event event => exact (sameInside_apply m event).memory
  | tick random arrivals => exact account_memory.tick wellFormed random arrivals spares
  | run world count arrivals => exact account_memory.run wellFormed world count arrivals spares
  | reset => rw [perform, reset_eq]
  | toggleDebug => rfl
  | observeTone id => rfl
  | shutdown => rfl

theorem memory_performAll (wellFormed : m.WellFormed) {requests : List Request}
    (aside : ∀ request ∈ requests, request.sparesMemory = true)
    (spares : ∀ op ∈ m.operationsOfAll requests, op.stores = false) :
    (m.performAll requests).memory = m.memory := by
  induction requests generalizing m with
  | nil => rfl
  | cons request rest ih =>
    simp only [operationsOfAll, List.mem_append] at spares
    have first := memory_perform wellFormed (aside request List.mem_cons_self) fun op member =>
      spares op (Or.inl member)
    have later := ih (safe_perform wellFormed request).wellFormed
      (fun other member => aside other (List.mem_cons_of_mem _ member)) fun op member =>
      spares op (Or.inr member)
    exact later.trans first

/-- A tick of a running machine changes nothing outside the footprint of the instruction
that it executes, but the program counter and the cycle; and no tick changes the settings,
a key or the stop flag, which only others do while it waits. So requests of which none
writes memory and none executes an operation that stores leave memory, and the program in
it, as it is. -/
theorem ticks_keep_to_footprints (reachable : m.Reachable) :
    (m.status = .running → ∀ random arrivals,
      let turn := m.perform (.tick random arrivals)
      ∃ met, met <+: arrivals ∧ Kept m met.flatten turn.1 turn.2) ∧
    ∀ requests, (∀ request ∈ requests, Request.sparesMemory request = true) →
      (∀ op ∈ m.operationsOfAll requests, op.stores = false) →
      (m.performAll requests).memory = m.memory := by
  have wellFormed := reachable.wellFormed
  constructor
  · intro running random arrivals turn
    have ticked := Session.ticked_tick (s := { machine := m, arrivals }) wellFormed running random
    exact ticked.kept wellFormed
  · intro requests
    exact memory_performAll wellFormed

theorem setting_a_register_keeps_memory :
    (fresh 0x6a0f).Reachable ∧ (fresh 0x6a0f).status = .running ∧
      ((fresh 0x6a0f).perform (.tick 0 [])).2.cycle = (fresh 0x6a0f).cycle + 1 ∧
      ((fresh 0x6a0f).performAll [.tick 0 []]).memory = (fresh 0x6a0f).memory := by
  have reachable := reachable_fresh 0x6a0f
  have running := status_fresh 0x6a0f
  have decoded : (fresh 0x6a0f).upcoming? = some (.immediate .set 0xa 0xf) := by
    rw [upcoming?, word_fresh]
    rfl
  have spares : ∀ op ∈ (fresh 0x6a0f).operationsOfAll [.tick 0 []], op.stores = false := by
    intro op member
    rw [operationsOfAll, operationsOf, executed?_tick running, decoded] at member
    split at member <;> simp_all [operationsOfAll, Instruction.operation, Operation.stores]
  obtain ⟨met, before, kept⟩ := (ticks_keep_to_footprints reachable).1 running 0 []
  have memory := (ticks_keep_to_footprints reachable).2 [.tick 0 []]
    (by simp [Request.sparesMemory]) spares
  exact ⟨reachable, running, kept.cycle, memory⟩

end Machine

end Chip8
