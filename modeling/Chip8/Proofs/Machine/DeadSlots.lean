import Chip8.Proofs.Machine.Companions
import Chip8.Proofs.Machine.Requests

/-!
# Slots that have been popped are dead

A pop leaves its slot as it is, and the slot keeps the address of a call that is over. A
push writes a slot before the stack pointer reaches it, and a pop only reads the slot below
the stack pointer. So nothing that a machine does depends on the other slots: machines that
differ in them alone give the same replies to all requests, and never come to differ in
anything else.
-/
namespace Chip8

namespace Registers

/-- Registers that differ in no more than the slots which are not on the stack. -/
inductive SameLive (r : Registers) : Registers → Prop
  | intro {stack : Cells Word 16}
      (agree : ∀ slot : Fin 16, slot.val < r.sp.toNat → stack.read slot = r.stack.read slot) :
      SameLive r { r with stack }

theorem SameLive.refl (r : Registers) : SameLive r r := .intro fun _ _ => rfl

theorem SameLive.push {r s : Registers} (same : SameLive r s) (address : Word) :
    Attempt.Related SameLive (r.push address) (s.push address) := by
  obtain ⟨agree⟩ := same
  by_cases free : r.sp.toNat < 16
  · simp only [Registers.push, free, dite_true]
    refine ⟨rfl, .intro fun slot live => ?_⟩
    simp only [toNat_sp_push free] at live
    rw [Cells.read_write, Cells.read_write]
    -- The new slot gets the same address on both sides, the older ones are live already.
    split
    next => rfl
    next older =>
      apply agree
      have apart : r.sp.toNat ≠ slot.val := fun same => older (Fin.ext same)
      omega
  · simp only [Registers.push, free, dite_false]
    exact ⟨rfl, .intro agree⟩

theorem SameLive.pop {r s : Registers} (same : SameLive r s) :
    Attempt.Related SameLive r.pop s.pop := by
  obtain @⟨stack, agree⟩ := same
  by_cases empty : r.sp = 0
  · rw [pop_of_empty empty, pop_of_empty (r := { r with stack }) empty]
    exact ⟨rfl, .intro agree⟩
  · have below := toNat_sp_pop empty
    have occupied := sp_pos empty
    -- What stays on the stack was live before.
    have stays : SameLive { r with sp := r.sp - 1 } { r with stack, sp := r.sp - 1 } := by
      refine .intro fun slot live => agree slot ?_
      simp only at live
      omega
    simp only [Registers.pop, empty, if_false]
    by_cases inside : (r.sp - 1).toNat < 16
    · have top : stack[(r.sp - 1).toNat] = r.stack[(r.sp - 1).toNat] :=
        agree ⟨_, inside⟩ (by simp only; omega)
      rw [Vector.getElem?_eq_getElem inside, Vector.getElem?_eq_getElem inside, top]
      exact ⟨rfl, stays⟩
    · rw [Vector.getElem?_eq_none (Nat.le_of_not_lt inside),
        Vector.getElem?_eq_none (Nat.le_of_not_lt inside)]
      exact ⟨rfl, stays⟩

theorem congruence_sameLive : Congruence SameLive where
  v := by
    rintro r _ ⟨agree⟩
    rfl
  pc := by
    rintro r _ ⟨agree⟩
    rfl
  place := by
    rintro r _ ⟨agree⟩
    rfl
  withV := by
    rintro r _ ⟨agree⟩ v
    exact .intro agree
  withPc := by
    rintro r _ ⟨agree⟩ pc
    exact .intro agree
  withIndex := by
    rintro r _ ⟨agree⟩ i
    exact .intro agree
  push same address := same.push address
  pop same := same.pop

theorem SameLive.addIndex {r s : Registers} (same : SameLive r s) (x : Fin 16) :
    SameLive (r.addIndex x) (s.addIndex x) := by
  obtain ⟨agree⟩ := same
  exact .intro agree

theorem SameLive.sp {r s : Registers} (same : SameLive r s) : s.sp = r.sp := by
  obtain ⟨_⟩ := same
  rfl

theorem SameLive.live {r s : Registers} (same : SameLive r s) : s.live = r.live := by
  obtain @⟨stack, agree⟩ := same
  apply List.ext_getElem
  · simp only [Registers.live, List.length_take, Vector.length_toList]
  · intro place inside _
    simp only [Registers.live, List.length_take, Vector.length_toList] at inside
    simp only [Registers.live, List.getElem_take, Vector.getElem_toList]
    exact agree ⟨place, by omega⟩ (by simp only; omega)

end Registers

namespace Machine

/-- Machines that differ in no more than dead slots reply the same to every request, with
the same faults, and go on to differ in no more than that. -/
theorem dead_slots_have_no_influence {m n : Machine} (same : Beside Registers.SameLive m n)
    (requests : List Request) :
    let first := m.performAll requests
    let second := n.performAll requests
    Beside Registers.SameLive first second ∧
      (∀ request, second.reply request = first.reply request) ∧
      second.registers.pc = first.registers.pc ∧ second.registers.sp = first.registers.sp ∧
      second.registers.live = first.registers.live := by
  intro first second
  have companions := companions_beside Registers.congruence_sameLive Registers.SameLive.refl
  have sums (m n : Machine) (beside : Beside Registers.SameLive m n) :
      SumsAlike Registers.SameLive m n := by
    intro _ _ x _ _
    exact (companions.registers beside).addIndex x
  have later : Beside Registers.SameLive first second := companions.performAll same sums requests
  have alike := companions.registers later
  refine ⟨later, fun request => (companions.answered_of_sums later sums request).reply,
    companions.congruence.pc alike, alike.sp, alike.live⟩

theorem stale_slots_are_not_returned_to :
    let m := fresh 0x00ee
    let n := m.withRegisters { m.registers with stack := .fill 16 0x300 }
    Beside Registers.SameLive m n ∧ n.registers.stack ≠ m.registers.stack ∧
      n.reply (.tick 0 []) = m.reply (.tick 0 []) := by
  intro m n
  have initial : m.registers = Registers.initial := registers_fresh _
  have same : Beside Registers.SameLive m n := by
    refine .intro (.intro fun slot live => ?_)
    rw [initial] at live
    exact absurd live (Nat.not_lt_zero _)
  refine ⟨same, ?_, (dead_slots_have_no_influence same []).2.1 _⟩
  rw [initial]
  decide

end Machine

end Chip8
