import Chip8.Registers

/-!
# Registers and the stack

Addresses are stored wrapped, also those on the stack and in its unused slots,
because a return takes a slot for the program counter as it is. A push and a pop
are told by the list of addresses on the stack: a push adds one at its end, and a
pop takes the last one away.
-/
namespace Chip8

theorem toNat_wrapAddress (a : Word) : (wrapAddress a).toNat = a.toNat % memorySize := by
  rw [wrapAddress, UInt16.toNat_and]
  exact Nat.and_two_pow_sub_one_eq_mod a.toNat 12

theorem wrapAddress_lt (a : Word) : (wrapAddress a).toNat < memorySize := by
  rw [toNat_wrapAddress]
  exact Nat.mod_lt _ (by decide)

/-- The address of the next instruction. -/
theorem toNat_wrapAddress_add_two {pc : Word} (inside : pc.toNat < memorySize) :
    (wrapAddress (pc + 2)).toNat = (pc.toNat + 2) % memorySize := by
  have small : pc.toNat < 4096 := inside
  rw [toNat_wrapAddress, UInt16.toNat_add]
  simp only [UInt16.reduceToNat, memorySize]
  omega

namespace Registers

/-- Registers whose addresses lie in memory and whose stack pointer counts slots. -/
structure Bounded (r : Registers) : Prop where
  pc : r.pc.toNat < memorySize
  sp : r.sp.toNat ≤ stackDepth
  stack : ∀ slot, (r.stack.read slot).toNat < memorySize

theorem bounded_initial : initial.Bounded := by
  refine ⟨by decide, by decide, fun slot => ?_⟩
  simp only [initial, Cells.read_fill]
  decide

/-- An operand in range names the register of that number. -/
theorem index_eq {x : UInt64} (narrow : x.toNat < 16) : index x = .ok ⟨x.toNat, narrow⟩ := by
  rw [index, dif_pos narrow]

/-! ### Moves of the program counter -/

theorem Bounded.withPc {r : Registers} (bounded : r.Bounded) (a : Word) :
    { r with pc := wrapAddress a }.Bounded :=
  ⟨wrapAddress_lt a, bounded.sp, bounded.stack⟩

theorem Bounded.advance {r : Registers} (bounded : r.Bounded) : r.advance.Bounded :=
  bounded.withPc (r.pc + 2)

theorem Bounded.branch {r : Registers} (bounded : r.Bounded) (target : Word) :
    (r.branch target).Bounded :=
  bounded.withPc (target - 2)

/-! ### Pushing and popping -/

theorem length_live {r : Registers} (bounded : r.Bounded) : r.live.length = r.sp.toNat := by
  have slots : r.stack.toList.length = 16 := r.stack.length_toList
  have depth : r.sp.toNat ≤ 16 := bounded.sp
  rw [live, List.length_take, slots]
  omega

theorem push_of_full {r : Registers} (full : r.sp.toNat = stackDepth) (address : Word) :
    r.push address = (.error (.fault (.stackOverflow r.pc)), r) := by
  rw [push, dif_neg]
  rw [full]
  decide

theorem push_of_free {r : Registers} (free : r.sp.toNat < stackDepth) (address : Word) :
    r.push address =
      (.ok (), { r with stack := r.stack.write ⟨r.sp.toNat, free⟩ address, sp := r.sp + 1 }) :=
  dif_pos free

theorem toNat_sp_push {r : Registers} (free : r.sp.toNat < stackDepth) :
    (r.sp + 1).toNat = r.sp.toNat + 1 := by
  have small : r.sp.toNat < 16 := free
  rw [UInt64.toNat_add]
  simp only [UInt64.toNat_one]
  omega

/-- A push adds its address at the end of the list. -/
theorem live_push {r s : Registers} {address : Word} (pushed : r.push address = (.ok (), s)) :
    s.live = r.live ++ [address] := by
  unfold push at pushed
  split at pushed
  next free =>
    cases pushed
    have slot : r.sp.toNat < r.stack.toList.length := by rw [Vector.length_toList]; exact free
    have same : r.sp.toNat < (r.stack.toList.set r.sp.toNat address).length := by
      rw [List.length_set]; exact slot
    -- The slot comes right after the addresses in use, so taking one more takes it.
    simp only [live, Cells.write, Vector.toList_set, toNat_sp_push free]
    rw [List.take_add_one, List.take_set_of_le (Nat.le_refl _), List.getElem?_set_self slot]
    rfl
  next => cases pushed

theorem Bounded.push {r s : Registers} (bounded : r.Bounded) {address : Word}
    (inside : address.toNat < memorySize) (pushed : r.push address = (.ok (), s)) : s.Bounded := by
  by_cases free : r.sp.toNat < stackDepth
  · rw [push_of_free free] at pushed
    cases pushed
    refine ⟨bounded.pc, ?_, fun slot => ?_⟩
    · rw [toNat_sp_push free]
      exact free
    · simp only [Cells.read_write]
      split
      · exact inside
      · exact bounded.stack slot
  · have full : r.sp.toNat = stackDepth := Nat.le_antisymm bounded.sp (Nat.le_of_not_lt free)
    rw [push_of_full full] at pushed
    cases pushed

theorem pop_of_empty {r : Registers} (empty : r.sp = 0) :
    r.pop = (.error (.fault (.stackUnderflow r.pc)), r) :=
  if_pos empty

theorem sp_pos {r : Registers} (occupied : r.sp ≠ 0) : 0 < r.sp.toNat := by
  apply Nat.pos_of_ne_zero
  intro zero
  exact occupied (UInt64.toNat_inj.mp zero)

theorem toNat_sp_pop {r : Registers} (occupied : r.sp ≠ 0) :
    (r.sp - 1).toNat = r.sp.toNat - 1 := by
  apply UInt64.toNat_sub_of_le
  rw [UInt64.le_iff_toNat_le]
  exact sp_pos occupied

/-- A pop takes the address of the highest slot in use. -/
theorem pop_of_occupied {r : Registers} (bounded : r.Bounded) (occupied : r.sp ≠ 0) :
    ∃ slot : Fin 16, slot.val + 1 = r.sp.toNat ∧
      r.pop = (.ok (r.stack.read slot), { r with sp := r.sp - 1 }) := by
  have depth : r.sp.toNat ≤ 16 := bounded.sp
  have positive := sp_pos occupied
  have slot : r.sp.toNat - 1 < 16 := by omega
  refine ⟨⟨r.sp.toNat - 1, slot⟩, by simp only; omega, ?_⟩
  rw [pop, if_neg occupied]
  simp only [toNat_sp_pop occupied, Vector.getElem?_eq_getElem slot]
  rfl

/-- What a pop that succeeds has taken and left. -/
theorem pop_inv {r s : Registers} {address : Word} (bounded : r.Bounded)
    (popped : r.pop = (.ok address, s)) :
    ∃ slot : Fin 16, slot.val + 1 = r.sp.toNat ∧ address = r.stack.read slot ∧
      s = { r with sp := r.sp - 1 } ∧ s.sp.toNat = slot.val := by
  by_cases empty : r.sp = 0
  · rw [pop_of_empty empty] at popped
    cases popped
  · obtain ⟨slot, top, eq⟩ := pop_of_occupied bounded empty
    rw [eq] at popped
    cases popped
    have below := toNat_sp_pop empty
    exact ⟨slot, top, rfl, rfl, by simp only; omega⟩

/-- A pop takes the last address away. -/
theorem live_pop {r s : Registers} {address : Word} (bounded : r.Bounded)
    (popped : r.pop = (.ok address, s)) : r.live = s.live ++ [address] := by
  obtain ⟨slot, top, rfl, rfl, below⟩ := pop_inv bounded popped
  have inside : slot.val < r.stack.toList.length := by rw [Vector.length_toList]; exact slot.isLt
  -- The popped slot is the last of those in use, and the others are still in use.
  simp only at below
  simp only [live, below, ← top]
  rw [List.take_add_one, List.getElem?_eq_getElem inside, Vector.getElem_toList]
  rfl

theorem Bounded.pop {r s : Registers} {address : Word} (bounded : r.Bounded)
    (popped : r.pop = (.ok address, s)) : { s with pc := address }.Bounded := by
  obtain ⟨slot, top, rfl, rfl, below⟩ := pop_inv bounded popped
  -- Nothing wraps the popped address, so the slot itself has to be bounded.
  refine ⟨bounded.stack slot, ?_, bounded.stack⟩
  simp only at below ⊢
  rw [below]
  exact Nat.le_of_lt slot.isLt

end Registers

end Chip8
