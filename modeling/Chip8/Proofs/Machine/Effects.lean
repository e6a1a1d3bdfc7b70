import Chip8.Machine.Execution
import Chip8.Proofs.Memory.Full
import Chip8.Proofs.Instruction.Operands
import Chip8.Proofs.Registers.Stack

/-!
# What an instruction can do

Executing an instruction ends in one of six ways, and `executed_execute` says which.
Only a return and a call touch the stack, only they can fail, and only the wait for
a key does not end at once. All other instructions are ordinary. Later proofs go
through these six cases and do not look into the instructions again.
-/
namespace Chip8

/-- Whether the operation neither touches the stack nor waits. -/
def Operation.ordinary : Operation → Bool
  | .plain .ret => false
  | .address .call => false
  | .register .waitKey => false
  | _ => true

namespace Machine

/-- A machine whose accesses to registers, stack and memory all find their place. -/
structure WellFormed (m : Machine) : Prop where
  registers : m.registers.Bounded
  memory : m.memory.Full

/-- What no instruction changes. -/
structure Untouched (m n : Machine) : Prop where
  settings : n.settings = m.settings
  status : n.status = m.status
  cycle : n.cycle = m.cycle
  stopRequested : n.stopRequested = m.stopRequested
  keypad : n.keypad = m.keypad

/-- What an ordinary instruction leaves of the machine. -/
structure Ordinary (m n : Machine) : Prop extends Untouched m n where
  stack : n.registers.stack = m.registers.stack
  sp : n.registers.sp = m.registers.sp
  pc : n.registers.pc = m.registers.pc ∨ ∃ target, n.registers.pc = wrapAddress target
  memory : n.memory.Full

/-- How the execution of an instruction ends. -/
inductive Executed (m : Machine) : Instruction → Attempt Machine Progress → Prop
  | underflow (empty : m.registers.sp = 0) :
      Executed m (.plain .ret) (.error (.fault (.stackUnderflow m.registers.pc)), m)
  | overflow {target : Word} (full : m.registers.sp.toNat = stackDepth) :
      Executed m (.address .call target) (.error (.fault (.stackOverflow m.registers.pc)), m)
  | returned {address : Word} {registers : Registers} (occupied : m.registers.sp ≠ 0)
      (popped : m.registers.pop = (.ok address, registers)) :
      Executed m (.plain .ret) (.ok .done, m.withRegisters { registers with pc := address })
  | called {target : Word} {registers : Registers} (free : m.registers.sp.toNat < stackDepth)
      (pushed : m.registers.push m.registers.pc = (.ok (), registers)) :
      Executed m (.address .call target) (.ok .done, m.withRegisters (registers.branch target))
  | armed {x : UInt64} (narrow : x.toNat < 16) :
      Executed m (.register .waitKey x)
        (.ok (.waiting ⟨x.toNat, narrow⟩), { m with keypad := m.keypad.arm })
  | ordinary {i : Instruction} {n : Machine} (kind : i.operation.ordinary = true)
      (kept : Ordinary m n) : Executed m i (.ok .done, n)

theorem Executed.untouched {m n : Machine} {i : Instruction}
    (executed : Executed m i (.ok .done, n)) : Untouched m n := by
  cases executed with
  | returned occupied popped => exact ⟨rfl, rfl, rfl, rfl, rfl⟩
  | called free pushed => exact ⟨rfl, rfl, rfl, rfl, rfl⟩
  | ordinary kind kept => exact kept.toUntouched

/-- Only a wait is interrupted, and it does not fail at once. -/
theorem Executed.uncut {m n : Machine} {i : Instruction} {fault : Fault}
    (executed : Executed m i (.error (.fault fault), n)) : fault ≠ .interrupted := by
  cases executed <;> simp

/-! ### Ordinary effects -/

section
variable {m : Machine} (full : m.memory.Full)
include full

omit full in
/-- Outside the registers everything may change, as long as memory stays full. -/
theorem ordinary_of_untouched {n : Machine} (untouched : Untouched m n)
    (registers : n.registers = m.registers) (stored : n.memory.Full) : Ordinary m n where
  toUntouched := untouched
  stack := congrArg Registers.stack registers
  sp := congrArg Registers.sp registers
  pc := Or.inl (congrArg Registers.pc registers)
  memory := stored

theorem ordinary_refl : Ordinary m m :=
  ordinary_of_untouched ⟨rfl, rfl, rfl, rfl, rfl⟩ rfl full

theorem ordinary_withRegisters {r : Registers} (stack : r.stack = m.registers.stack)
    (sp : r.sp = m.registers.sp)
    (pc : r.pc = m.registers.pc ∨ ∃ target, r.pc = wrapAddress target) :
    Ordinary m (m.withRegisters r) :=
  ⟨⟨rfl, rfl, rfl, rfl, rfl⟩, stack, sp, pc, full⟩

theorem ordinary_setV (x : Fin 16) (value : UInt8) :
    Ordinary m (m.withRegisters (m.registers.setV x value)) :=
  ordinary_withRegisters full rfl rfl (Or.inl rfl)

theorem ordinary_branch (target : Word) :
    Ordinary m (m.withRegisters (m.registers.branch target)) :=
  ordinary_withRegisters full rfl rfl (Or.inr ⟨_, rfl⟩)

theorem ordinary_skipIf (condition : Bool) :
    Ordinary m (m.withRegisters (m.registers.skipIf condition)) := by
  cases condition with
  | false => exact ordinary_withRegisters full rfl rfl (Or.inl rfl)
  | true => exact ordinary_withRegisters full rfl rfl (Or.inr ⟨_, rfl⟩)

theorem ordinary_arithmetic (op : ArithmeticOp) (x y : Fin 16) :
    Ordinary m (m.withRegisters (m.registers.arithmetic op x y)) := by
  cases op <;> exact ordinary_withRegisters full rfl rfl (Or.inl rfl)

theorem ordinary_executeImmediate (random : UInt8) (x : Fin 16) (b : UInt8) (op : ImmediateOp) :
    Ordinary m (m.executeImmediate random x b op) := by
  cases op with
  | skipEqual => exact ordinary_skipIf full _
  | skipDiffer => exact ordinary_skipIf full _
  | set => exact ordinary_setV full x b
  | add => exact ordinary_setV full x _
  | random => exact ordinary_setV full x _

theorem ordinary_executeCompare (x y : Fin 16) (op : CompareOp) :
    Ordinary m (m.executeCompare x y op) := by
  cases op <;> exact ordinary_skipIf full _

theorem ordinary_executeDraw (x y : Fin 16) (n : UInt8) :
    ∃ drawn, m.executeDraw x y n = (.ok (), drawn) ∧ Ordinary m drawn := by
  unfold executeDraw
  rw [Memory.readBytes_eq full]
  exact ⟨_, rfl, ⟨rfl, rfl, rfl, rfl, rfl⟩, rfl, rfl, Or.inl rfl, full⟩

omit full in
theorem ordinary_withMemory {memory : Memory} (stored : memory.Full) :
    Ordinary m { m with memory } :=
  ordinary_of_untouched ⟨rfl, rfl, rfl, rfl, rfl⟩ rfl stored

/-- Every operation on one register but the wait for a key. -/
theorem ordinary_executeRegister (x : Fin 16) {op : RegisterOp} (other : op ≠ .waitKey) :
    ∃ n, m.executeRegister x op = (.ok .done, n) ∧ Ordinary m n := by
  cases op with
  | skipPressed => exact ⟨_, rfl, ordinary_skipIf full _⟩
  | skipReleased => exact ⟨_, rfl, ordinary_skipIf full _⟩
  | readDelay => exact ⟨_, rfl, ordinary_setV full x _⟩
  | waitKey => exact absurd rfl other
  | setDelay => exact ⟨_, rfl, ordinary_of_untouched ⟨rfl, rfl, rfl, rfl, rfl⟩ rfl full⟩
  | setSound =>
    refine ⟨_, rfl, ?_⟩
    split
    · exact ordinary_refl full
    · exact ordinary_of_untouched ⟨rfl, rfl, rfl, rfl, rfl⟩ rfl full
  | addIndex => exact ⟨_, rfl, ordinary_withRegisters full rfl rfl (Or.inl rfl)⟩
  | pointGlyph => exact ⟨_, rfl, ordinary_withRegisters full rfl rfl (Or.inl rfl)⟩
  | storeDecimal =>
    obtain ⟨memory, written, stored⟩ := Memory.exists_writeBytes full m.registers.i.toNat
      (decimalDigits (m.registers.v.read x))
    refine ⟨_, ?_, ordinary_withMemory stored⟩
    simp only [executeRegister, executeRegister.store, executeRegister.vx, written]
    rfl
  | storeRegisters =>
    obtain ⟨memory, written, stored⟩ := Memory.exists_writeBytes full m.registers.i.toNat
      (m.registers.upTo x)
    refine ⟨_, ?_, ordinary_withMemory stored⟩
    simp only [executeRegister, executeRegister.store, written]
    rfl
  | loadRegisters =>
    -- As many bytes are read as registers are written, so the lengths agree.
    simp only [executeRegister, Memory.readBytes_eq full, Attempt.finding, Registers.setUpTo,
      List.length_map, List.length_range, if_pos]
    exact ⟨_, rfl, ordinary_withRegisters full rfl rfl (Or.inl rfl)⟩

end

/-! ### All instructions -/

theorem execute_ret {m : Machine} {r : Registers} {address : Word}
    (popped : m.registers.pop = (.ok address, r)) (random : UInt8) :
    m.execute random (.plain .ret) = (.ok .done, m.withRegisters { r with pc := address }) := by
  simp only [execute, executePlain, popped]
  rfl

theorem execute_call {m : Machine} {r : Registers}
    (pushed : m.registers.push m.registers.pc = (.ok (), r)) (random : UInt8) (target : Word) :
    m.execute random (.address .call target) = (.ok .done, m.withRegisters (r.branch target)) := by
  simp only [execute, executeAddress, pushed]
  rfl

section
variable (m : Machine) (random : UInt8) (x y : UInt64)

theorem execute_immediate (op : ImmediateOp) (b : UInt8) (first : x.toNat < 16) :
    m.execute random (.immediate op x b) =
      (.ok .done, m.executeImmediate random ⟨x.toNat, first⟩ b op) := by
  simp only [execute, Registers.index_eq first]
  rfl

theorem execute_compare (op : CompareOp) (first : x.toNat < 16) (second : y.toNat < 16) :
    m.execute random (.compare op x y) =
      (.ok .done, m.executeCompare ⟨x.toNat, first⟩ ⟨y.toNat, second⟩ op) := by
  simp only [execute, Registers.index_eq first, Registers.index_eq second]
  rfl

theorem execute_arithmetic (op : ArithmeticOp) (first : x.toNat < 16) (second : y.toNat < 16) :
    m.execute random (.arithmetic op x y) = (.ok .done, m.withRegisters
      (m.registers.arithmetic op ⟨x.toNat, first⟩ ⟨y.toNat, second⟩)) := by
  simp only [execute, Registers.index_eq first, Registers.index_eq second]
  rfl

theorem execute_draw (n : UInt8) (first : x.toNat < 16) (second : y.toNat < 16) :
    m.execute random (.draw x y n) =
      (m.executeDraw ⟨x.toNat, first⟩ ⟨y.toNat, second⟩ n).andThen finish := by
  simp only [execute, Registers.index_eq first, Registers.index_eq second]
  rfl

theorem execute_register (op : RegisterOp) (first : x.toNat < 16) :
    m.execute random (.register op x) = m.executeRegister ⟨x.toNat, first⟩ op := by
  simp only [execute, Registers.index_eq first]
  rfl

end

/-- Execution in a well-formed machine ends in one of the six ways, and in no other. -/
theorem executed_execute {m : Machine} (wellFormed : m.WellFormed) {i : Instruction}
    (narrow : i.operands.Narrow) (random : UInt8) : Executed m i (m.execute random i) := by
  obtain ⟨bounded, full⟩ := wellFormed
  -- The cases follow `execute`: its groups first, then the operations that stand out.
  cases i with
  | plain op =>
    cases op with
    | clearScreen =>
      exact .ordinary rfl (ordinary_of_untouched ⟨rfl, rfl, rfl, rfl, rfl⟩ rfl full)
    | ret =>
      by_cases empty : m.registers.sp = 0
      · have refused := Registers.pop_of_empty empty
        simp only [execute, executePlain, refused]
        exact .underflow empty
      · obtain ⟨slot, _, popped⟩ := Registers.pop_of_occupied bounded empty
        rw [execute_ret popped]
        exact .returned empty popped
  | address op a =>
    cases op with
    | jump => exact .ordinary rfl (ordinary_branch full a)
    | setIndex => exact .ordinary rfl (ordinary_withRegisters full rfl rfl (Or.inl rfl))
    | jumpOffset => exact .ordinary rfl (ordinary_branch full _)
    | call =>
      by_cases free : m.registers.sp.toNat < stackDepth
      · have pushed := Registers.push_of_free free m.registers.pc
        rw [execute_call pushed]
        exact .called free pushed
      · have depth : m.registers.sp.toNat = stackDepth :=
          Nat.le_antisymm bounded.sp (Nat.le_of_not_lt free)
        have refused := Registers.push_of_full depth m.registers.pc
        simp only [execute, executeAddress, refused]
        exact .overflow depth
  | immediate op x b =>
    rw [execute_immediate m random x op b narrow.x]
    exact .ordinary (by cases op <;> rfl) (ordinary_executeImmediate full random _ b op)
  | compare op x y =>
    rw [execute_compare m random x y op narrow.x narrow.y]
    exact .ordinary (by cases op <;> rfl) (ordinary_executeCompare full _ _ op)
  | arithmetic op x y =>
    rw [execute_arithmetic m random x y op narrow.x narrow.y]
    exact .ordinary (by cases op <;> rfl) (ordinary_arithmetic full op _ _)
  | draw x y n =>
    rw [execute_draw m random x y n narrow.x narrow.y]
    obtain ⟨drawn, eq, kept⟩ := ordinary_executeDraw full ⟨x.toNat, narrow.x⟩ ⟨y.toNat, narrow.y⟩ n
    rw [eq]
    exact .ordinary rfl kept
  | register op x =>
    rw [execute_register m random x op narrow.x]
    by_cases waits : op = .waitKey
    · subst op
      exact .armed narrow.x
    · obtain ⟨n, eq, kept⟩ := ordinary_executeRegister full ⟨x.toNat, narrow.x⟩ waits
      rw [eq]
      refine .ordinary ?_ kept
      cases op with
      | waitKey => exact absurd rfl waits
      | _ => rfl

end Machine

end Chip8
