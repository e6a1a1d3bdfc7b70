import Chip8.Proofs.Machine.Footprints
import Chip8.Proofs.Machine.Operations

/-!
# Where execution goes on

An instruction leaves the program counter two bytes in front of its target, because the
tick moves on by two; a call pushes its own address, and a return relies on the same two
bytes to get behind it. Every step wraps. Since the number of addresses divides that of
words, it makes no difference where the wrapping is done: the program counter after a tick
is what plain arithmetic says, taken modulo the size of memory.
-/
namespace Chip8

theorem toNat_wrapAddress_add (a b : Word) :
    (wrapAddress (a + b)).toNat = (a.toNat + b.toNat) % 4096 := by
  rw [toNat_wrapAddress, UInt16.toNat_add, memorySize]
  omega

theorem toNat_wrapAddress_sub_add (a b : Word) :
    (wrapAddress (wrapAddress (a - b) + b)).toNat = a.toNat % 4096 := by
  have bound := b.toNat_lt
  rw [toNat_wrapAddress_add, toNat_wrapAddress, UInt16.toNat_sub, memorySize]
  omega

namespace Registers

/-- The value of the register that an operand names. -/
def operand (r : Registers) (x : UInt64) : UInt8 :=
  r.v.read ⟨x.toNat % 16, Nat.mod_lt _ (by decide)⟩

theorem operand_eq (r : Registers) {x : UInt64} (narrow : x.toNat < 16) :
    r.operand x = r.v.read ⟨x.toNat, narrow⟩ := by
  simp only [operand, Nat.mod_eq_of_lt narrow]

theorem toNat_pc_advance (r : Registers) : r.advance.pc.toNat = (r.pc.toNat + 2) % 4096 :=
  toNat_wrapAddress_add r.pc 2

theorem toNat_pc_skipIf (r : Registers) (condition : Bool) :
    (r.skipIf condition).advance.pc.toNat = (r.pc.toNat + if condition then 4 else 2) % 4096 := by
  rw [toNat_pc_advance]
  cases condition with
  | false => rfl
  | true =>
    have once := toNat_wrapAddress_add r.pc 2
    simp only [skipIf, if_true, once, UInt16.reduceToNat]
    omega

/-- The two bytes that a branch takes off are those that the tick adds. -/
theorem toNat_pc_branch (r : Registers) (target : Word) :
    (r.branch target).advance.pc.toNat = target.toNat % 4096 :=
  toNat_wrapAddress_sub_add target 2

theorem pc_setUpTo {r s : Registers} {x : Fin 16} {values : List UInt8}
    (set : r.setUpTo x values = (.ok (), s)) : s.pc = r.pc := by
  unfold setUpTo at set
  split at set
  · cases set
    rfl
  · cases set

end Registers

namespace Instruction

/-- Whether the instruction, executed by this machine, leaves out the next one. -/
def skips (m : Machine) : Instruction → Bool
  | .immediate .skipEqual x b => m.registers.operand x == b
  | .immediate .skipDiffer x b => m.registers.operand x != b
  | .compare .skipEqual x y => m.registers.operand x == m.registers.operand y
  | .compare .skipDiffer x y => m.registers.operand x != m.registers.operand y
  -- A key is named by the last digit of the value.
  | .register .skipPressed x =>
    m.keypad.held.read ⟨(m.registers.operand x).toNat % 16, Nat.mod_lt _ (by decide)⟩
  | .register .skipReleased x =>
    !m.keypad.held.read ⟨(m.registers.operand x).toNat % 16, Nat.mod_lt _ (by decide)⟩
  | _ => false

/-- The address that the instruction goes to, wherever it stands itself. -/
def target? (m : Machine) : Instruction → Option Nat
  | .plain .ret => some ((m.registers.live.getLastD 0).toNat + 2)
  | .address .jump a => some a.toNat
  | .address .call a => some a.toNat
  | .address .jumpOffset a => some (a.toNat + (m.registers.operand 0).toNat)
  | _ => none

/-- The address of the instruction that comes after this one, before any wrapping. -/
def successor (m : Machine) (i : Instruction) : Nat :=
  (i.target? m).getD (m.registers.pc.toNat + if i.skips m then 4 else 2)

/-- The skip with the opposite condition. -/
def opposite? : Instruction → Option Instruction
  | .immediate .skipEqual x b => some (.immediate .skipDiffer x b)
  | .immediate .skipDiffer x b => some (.immediate .skipEqual x b)
  | .compare .skipEqual x y => some (.compare .skipDiffer x y)
  | .compare .skipDiffer x y => some (.compare .skipEqual x y)
  | .register .skipPressed x => some (.register .skipReleased x)
  | .register .skipReleased x => some (.register .skipPressed x)
  | _ => none

end Instruction

namespace Machine

variable {m n : Machine}

/-! ### Instructions -/

/-- The machine goes on at the successor of the instruction. -/
def GoesOn (m : Machine) (i : Instruction) (n : Machine) : Prop :=
  n.advance.registers.pc.toNat = i.successor m % 4096

theorem goesOn_of_pc_eq {i : Instruction} (plain : i.successor m = m.registers.pc.toNat + 2)
    (same : n.registers.pc = m.registers.pc) : GoesOn m i n := by
  rw [GoesOn, plain, ← same]
  exact n.registers.toNat_pc_advance

theorem goesOn_skipIf {i : Instruction} {condition : Bool} (plain : i.target? m = none)
    (skips : i.skips m = condition) :
    GoesOn m i (m.withRegisters (m.registers.skipIf condition)) := by
  rw [GoesOn, Instruction.successor, plain, skips, Option.getD_none]
  exact m.registers.toNat_pc_skipIf condition

theorem goesOn_executePlain {op : PlainOp} (bounded : m.registers.Bounded)
    (done : m.executePlain op = (.ok (), n)) : GoesOn m (.plain op) n := by
  cases op with
  | clearScreen =>
    cases done
    exact m.registers.toNat_pc_advance
  | ret =>
    obtain ⟨address, _, ended, rest⟩ := Attempt.exists_of_andThen_eq_ok done
    obtain ⟨registers, popped, rfl⟩ := Attempt.exists_of_within_eq_ok ended
    cases rest
    have top : m.registers.live.getLastD 0 = address := by
      rw [Registers.live_pop bounded popped, List.getLastD_concat]
    simp only [GoesOn, Instruction.successor, Instruction.target?, top, Option.getD_some]
    exact Registers.toNat_pc_advance { registers with pc := address }

theorem goesOn_executeAddress {op : AddressOp} {a : Word}
    (done : m.executeAddress a op = (.ok (), n)) : GoesOn m (.address op a) n := by
  cases op with
  | jump =>
    cases done
    exact m.registers.toNat_pc_branch a
  | call =>
    obtain ⟨_, _, ended, rest⟩ := Attempt.exists_of_andThen_eq_ok done
    obtain ⟨registers, pushed, rfl⟩ := Attempt.exists_of_within_eq_ok ended
    cases rest
    exact registers.toNat_pc_branch a
  | setIndex =>
    cases done
    exact m.registers.toNat_pc_advance
  | jumpOffset =>
    cases done
    have offset : m.registers.operand 0 = m.registers.v.read 0 := rfl
    refine (m.registers.toNat_pc_branch _).trans ?_
    rw [← offset, UInt16.toNat_add, UInt8.toNat_toUInt16, Instruction.successor,
      Instruction.target?, Option.getD_some]
    omega

theorem goesOn_executeImmediate (random : UInt8) {x : UInt64} (narrow : x.toNat < 16) (b : UInt8)
    (op : ImmediateOp) :
    GoesOn m (.immediate op x b) (m.executeImmediate random ⟨x.toNat, narrow⟩ b op) := by
  have named := m.registers.operand_eq narrow
  cases op with
  | skipEqual => exact goesOn_skipIf rfl (by rw [Instruction.skips, named])
  | skipDiffer => exact goesOn_skipIf rfl (by rw [Instruction.skips, named])
  | set => exact m.registers.toNat_pc_advance
  | add => exact m.registers.toNat_pc_advance
  | random => exact m.registers.toNat_pc_advance

theorem goesOn_executeCompare {x y : UInt64} (first : x.toNat < 16) (second : y.toNat < 16)
    (op : CompareOp) :
    GoesOn m (.compare op x y) (m.executeCompare ⟨x.toNat, first⟩ ⟨y.toNat, second⟩ op) := by
  have namedX := m.registers.operand_eq first
  have namedY := m.registers.operand_eq second
  cases op with
  | skipEqual => exact goesOn_skipIf rfl (by rw [Instruction.skips, namedX, namedY])
  | skipDiffer => exact goesOn_skipIf rfl (by rw [Instruction.skips, namedX, namedY])

theorem goesOn_executeRegister {op : RegisterOp} {x : UInt64} (narrow : x.toNat < 16)
    (done : m.executeRegister ⟨x.toNat, narrow⟩ op = (.ok .done, n)) :
    GoesOn m (.register op x) n := by
  have named := m.registers.operand_eq narrow
  cases op with
  | skipPressed =>
    cases done
    exact goesOn_skipIf rfl (by simp only [Instruction.skips, named]; rfl)
  | skipReleased =>
    cases done
    exact goesOn_skipIf rfl (by simp only [Instruction.skips, named]; rfl)
  | waitKey => cases done
  | storeDecimal =>
    obtain ⟨memory, written, rfl⟩ := exists_of_store_eq_ok done
    exact m.registers.toNat_pc_advance
  | storeRegisters =>
    obtain ⟨memory, written, rfl⟩ := exists_of_store_eq_ok done
    exact m.registers.toNat_pc_advance
  | loadRegisters =>
    obtain ⟨values, read, rest⟩ := Attempt.exists_of_finding_eq_ok done
    obtain ⟨_, _, ended, rest⟩ := Attempt.exists_of_andThen_eq_ok rest
    obtain ⟨registers, set, rfl⟩ := Attempt.exists_of_within_eq_ok ended
    cases rest
    exact goesOn_of_pc_eq rfl (Registers.pc_setUpTo set)
  | setSound =>
    cases done
    apply goesOn_of_pc_eq rfl
    split <;> rfl
  | _ =>
    cases done
    exact m.registers.toNat_pc_advance

/-- Every instruction but the wait for a key leads to its successor as soon as it is executed. -/
theorem goesOn_execute {i : Instruction} (wellFormed : m.WellFormed) (narrow : i.operands.Narrow)
    {random : UInt8} (done : m.execute random i = (.ok .done, n)) : GoesOn m i n := by
  cases i with
  | plain op =>
    obtain ⟨_, _, executed, rest⟩ := Attempt.exists_of_andThen_eq_ok done
    cases rest
    exact goesOn_executePlain wellFormed.registers executed
  | address op a =>
    obtain ⟨_, _, executed, rest⟩ := Attempt.exists_of_andThen_eq_ok done
    cases rest
    exact goesOn_executeAddress executed
  | immediate op x b =>
    rw [execute_immediate m random x op b narrow.x] at done
    cases done
    exact goesOn_executeImmediate random narrow.x b op
  | compare op x y =>
    rw [execute_compare m random x y op narrow.x narrow.y] at done
    cases done
    exact goesOn_executeCompare narrow.x narrow.y op
  | arithmetic op x y =>
    rw [execute_arithmetic m random x y op narrow.x narrow.y] at done
    cases done
    apply goesOn_of_pc_eq rfl
    cases op <;> rfl
  | draw x y height =>
    obtain ⟨column, row, sprite, flag, rfl⟩ := exists_of_execute_draw done
    exact goesOn_of_pc_eq rfl rfl
  | register op x =>
    rw [execute_register m random x op narrow.x] at done
    exact goesOn_executeRegister narrow.x done

/-! ### Ticks -/

theorem skips_congr (registers : n.registers = m.registers) (held : n.keypad.held = m.keypad.held)
    (i : Instruction) : i.skips n = i.skips m := by
  unfold Instruction.skips
  simp only [registers, held]

theorem successor_congr (registers : n.registers = m.registers)
    (held : n.keypad.held = m.keypad.held) (i : Instruction) : i.successor n = i.successor m := by
  have target : i.target? n = i.target? m := by
    unfold Instruction.target?
    rw [registers]
  rw [Instruction.successor, Instruction.successor, target, registers, skips_congr registers held]

theorem goesOn_tick (wellFormed : m.WellFormed) {random : UInt8} {arrivals : List (List Event)}
    {i : Instruction} (executed : m.executed? (.tick random arrivals) = some i) :
    (m.perform (.tick random arrivals)).2.registers.pc.toNat = i.successor m % 4096 := by
  cases status : m.status with
  | halted => simp [executed?_of_halted status] at executed
  | running =>
    have ticked := ticked_perform wellFormed status random arrivals
    rw [executed?_tick status] at executed
    generalize m.perform (.tick random arrivals) = ended at ticked executed ⊢
    obtain ⟨outcome, n⟩ := ended
    cases ticked with
    | executed decoded done =>
      cases decoded.symm.trans executed
      have narrow := Instruction.narrow_of_decode decoded
      rw [← successor_congr (m := m) (n := m.counted) rfl rfl]
      exact goesOn_execute wellFormed.counted narrow done
    | @pressed x key met rest narrow decoded split awaits =>
      cases decoded.symm.trans executed
      exact (m.registers.setV ⟨x.toNat, narrow⟩ key).toNat_pc_advance
    | _ => simp at executed

theorem done_of_executed? {random : UInt8} {arrivals : List (List Event)} {i : Instruction}
    (executed : m.executed? (.tick random arrivals) = some i) :
    (m.perform (.tick random arrivals)).1 = .done := by
  unfold executed? at executed
  split at executed
  next done => exact done
  next => cases executed

/-! ### Opposite skips -/

theorem skips_of_opposite {i j : Instruction} (opposite : i.opposite? = some j) (m : Machine) :
    j.skips m = !i.skips m := by
  cases i with
  | immediate op x b => cases op <;> cases opposite <;> simp [Instruction.skips, bne]
  | compare op x y => cases op <;> cases opposite <;> simp [Instruction.skips, bne]
  | register op x => cases op <;> cases opposite <;> simp [Instruction.skips]
  | _ => cases opposite

/-- A skip moves on by two or by four bytes, and nothing else about it counts. -/
theorem successor_of_opposite {i j : Instruction} (opposite : i.opposite? = some j) (m : Machine) :
    i.operation.ordinary = true ∧
      i.successor m = m.registers.pc.toNat + if i.skips m then 4 else 2 := by
  cases i with
  | immediate op x b => cases op <;> cases opposite <;> exact ⟨rfl, rfl⟩
  | compare op x y => cases op <;> cases opposite <;> exact ⟨rfl, rfl⟩
  | register op x => cases op <;> cases opposite <;> exact ⟨rfl, rfl⟩
  | _ => cases opposite

theorem opposite?_symm {i j : Instruction} (opposite : i.opposite? = some j) :
    j.opposite? = some i := by
  cases i with
  | immediate op x b => cases op <;> cases opposite <;> rfl
  | compare op x y => cases op <;> cases opposite <;> rfl
  | register op x => cases op <;> cases opposite <;> rfl
  | _ => cases opposite

/-- The machine with this word in front of it. -/
def facing (m : Machine) (w : Word) : Machine :=
  (m.perform (.memory (.word m.registers.pc.toNat w))).2

/-- A skip that is put in front of a machine is executed, and moves on as it says. -/
theorem tick_facing_skip (wellFormed : m.WellFormed) (running : m.status = .running) {w : Word}
    {i j : Instruction} (decoded : Instruction.decode w = some i)
    (opposite : i.opposite? = some j) (random : UInt8) (arrivals : List (List Event)) :
    ((m.facing w).perform (.tick random arrivals)).1 = .done ∧
      ((m.facing w).perform (.tick random arrivals)).2.registers.pc.toNat =
        (m.registers.pc.toNat + if i.skips m then 4 else 2) % 4096 := by
  obtain ⟨memory, placed, word⟩ := perform_word wellFormed rfl w
  have faces : m.facing w = { m with memory } := congrArg Prod.snd placed
  have ready : (m.facing w).WellFormed :=
    (safe_perform wellFormed (.memory (.word m.registers.pc.toNat w))).wellFormed
  obtain ⟨ordinary, moves⟩ := successor_of_opposite opposite m
  rw [faces] at ready ⊢
  have upcoming : { m with memory }.upcoming? = some i := by rw [upcoming?, word, decoded]
  have executed := executed?_of_ordinary ready running upcoming ordinary random arrivals
  -- The skip looks at registers and keys, which are the same whatever is in memory.
  have same : i.successor { m with memory } = i.successor m := successor_congr rfl rfl i
  have next := goesOn_tick ready executed
  rw [same, moves] at next
  exact ⟨done_of_executed? executed, next⟩

/-! ### All together -/

/-- After a tick that has executed an instruction, the program counter is the address that
plain arithmetic gives, modulo the size of memory. Of two opposite skips, put in front of
the same machine, one leaves out the next instruction and the other one does not. -/
theorem next_pc {m : Machine} (reachable : m.Reachable) :
    (∀ random arrivals i, m.executed? (.tick random arrivals) = some i →
      (m.perform (.tick random arrivals)).2.registers.pc.toNat = i.successor m % 4096) ∧
    ∀ v w i j, Instruction.decode v = some i → Instruction.decode w = some j →
      i.opposite? = some j → m.status = .running → ∀ random arrivals,
        let first := (m.facing v).perform (.tick random arrivals)
        let second := (m.facing w).perform (.tick random arrivals)
        first.1 = .done ∧ second.1 = .done ∧
        first.2.registers.pc.toNat =
          (m.registers.pc.toNat + if i.skips m then 4 else 2) % 4096 ∧
        second.2.registers.pc.toNat =
          (m.registers.pc.toNat + if i.skips m then 2 else 4) % 4096 := by
  have wellFormed := reachable.wellFormed
  refine ⟨fun random arrivals i => goesOn_tick wellFormed, ?_⟩
  intro v w i j here there opposite running random arrivals first second
  obtain ⟨done, pc⟩ := tick_facing_skip wellFormed running here opposite random arrivals
  obtain ⟨doneToo, other⟩ :=
    tick_facing_skip wellFormed running there (opposite?_symm opposite) random arrivals
  refine ⟨done, doneToo, pc, ?_⟩
  rw [skips_of_opposite opposite] at other
  cases skipped : i.skips m <;> simp only [skipped] at other ⊢ <;> exact other

/-- A jump to the first address, whose target lies two bytes in front of it at the end of
memory, and a pair of skips that compare v0 with zero. -/
theorem jump_to_first_address :
    (fresh 0x1000).Reachable ∧
      (fresh 0x1000).executed? (.tick 0 []) = some (.address .jump 0) ∧
      ((fresh 0x1000).perform (.tick 0 [])).2.registers.pc.toNat = 0 ∧
      (((fresh 0x1000).facing 0x3000).perform (.tick 0 [])).2.registers.pc.toNat = 0x204 ∧
      (((fresh 0x1000).facing 0x4000).perform (.tick 0 [])).2.registers.pc.toNat = 0x202 := by
  have reachable := reachable_fresh 0x1000
  have decoded : (fresh 0x1000).upcoming? = some (.address .jump 0) := by
    rw [upcoming?, word_fresh]
    rfl
  have executed := executed?_of_ordinary reachable.wellFormed (status_fresh _) decoded rfl 0 []
  obtain ⟨next, skips⟩ := next_pc reachable
  obtain ⟨-, -, first, second⟩ := skips 0x3000 0x4000 (.immediate .skipEqual 0 0)
    (.immediate .skipDiffer 0 0) rfl rfl rfl (status_fresh _) 0 []
  have equal : Instruction.skips (fresh 0x1000) (.immediate .skipEqual 0 0) = true := by
    rw [Instruction.skips, registers_fresh]
    decide
  rw [equal, registers_fresh] at first second
  exact ⟨reachable, executed, next 0 [] _ executed, first, second⟩

end Machine

end Chip8
