import Chip8.Proofs.Machine.Effects

/-!
# Arithmetic

A result is a byte, and what does not fit in it is left in vF: the carry of a sum, a
borrow that a difference did not need, the bit that a shift pushes out. Result and flag
together lose nothing, as one equation between plain numbers says for each operation.

Both values are read before anything is written, so the equations hold whichever of x, y
and F are the same register. Only what vF keeps depends on the order of the writes: an
operation on two registers writes its result last, if need be over its own flag, and an
addition to the index register writes no register but vF.
-/
namespace Chip8

namespace ArithmeticOp

/-- Whether the operation on the values `a` and `b` of vX and vY has this result, and sets
vF to this flag or lets it be. -/
def Gives (a b result : Nat) (flag : Option Nat) : ArithmeticOp → Prop
  | .copy => result = b ∧ flag = none
  | .or => result = a ||| b ∧ flag = none
  | .and => result = a &&& b ∧ flag = none
  | .xor => result = a ^^^ b ∧ flag = none
  | .add => ∃ f < 2, flag = some f ∧ a + b = result + 256 * f
  | .sub => ∃ f < 2, flag = some f ∧ a + 256 * (1 - f) = b + result ∧ (f = 1 ↔ b ≤ a)
  | .shiftRight => ∃ f < 2, flag = some f ∧ a = 2 * result + f
  | .subFrom => ∃ f < 2, flag = some f ∧ b + 256 * (1 - f) = a + result ∧ (f = 1 ↔ a ≤ b)
  | .shiftLeft => ∃ f < 2, flag = some f ∧ 2 * a = result + 256 * f

theorem add_carry (a b : UInt8) :
    let f : UInt8 := if 256 ≤ a.toNat + b.toNat then 1 else 0
    f.toNat < 2 ∧ a.toNat + b.toNat = (a + b).toNat + 256 * f.toNat := by
  have boundA := a.toNat_lt
  have boundB := b.toNat_lt
  rw [UInt8.toNat_add]
  split <;> simp only [UInt8.reduceToNat] <;> omega

theorem sub_borrow (a b : UInt8) :
    let f : UInt8 := if a < b then 0 else 1
    f.toNat < 2 ∧ a.toNat + 256 * (1 - f.toNat) = b.toNat + (a - b).toNat ∧
      (f.toNat = 1 ↔ b.toNat ≤ a.toNat) := by
  have boundA := a.toNat_lt
  have boundB := b.toNat_lt
  simp only [UInt8.toNat_sub, UInt8.lt_iff_toNat_lt]
  split <;> simp only [UInt8.reduceToNat, true_iff] <;> omega

theorem shiftRight_out (a : UInt8) :
    (a &&& 1).toNat < 2 ∧ a.toNat = 2 * (a >>> 1).toNat + (a &&& 1).toNat := by
  have low : (a &&& 1).toNat = a.toNat % 2 := by
    rw [UInt8.toNat_and]
    exact Nat.and_one_is_mod a.toNat
  have rest : (a >>> 1).toNat = a.toNat / 2 := by
    rw [UInt8.toNat_shiftRight]
    exact Nat.shiftRight_eq_div_pow a.toNat 1
  omega

theorem shiftLeft_out (a : UInt8) :
    (a >>> 7).toNat < 2 ∧ 2 * a.toNat = (a <<< 1).toNat + 256 * (a >>> 7).toNat := by
  have bound := a.toNat_lt
  have high : (a >>> 7).toNat = a.toNat / 128 := by
    rw [UInt8.toNat_shiftRight]
    exact Nat.shiftRight_eq_div_pow a.toNat 7
  have rest : (a <<< 1).toNat = a.toNat * 2 % 256 := by
    rw [UInt8.toNat_shiftLeft]
    exact congrArg (· % 256) (Nat.shiftLeft_eq a.toNat 1)
  omega

theorem gives_compute (op : ArithmeticOp) (a b : UInt8) :
    op.Gives a.toNat b.toNat (op.compute a b).1.toNat ((op.compute a b).2.map UInt8.toNat) := by
  cases op with
  | copy => exact ⟨rfl, rfl⟩
  | or => exact ⟨UInt8.toNat_or a b, rfl⟩
  | and => exact ⟨UInt8.toNat_and a b, rfl⟩
  | xor => exact ⟨UInt8.toNat_xor a b, rfl⟩
  | add =>
    obtain ⟨bit, sum⟩ := add_carry a b
    exact ⟨_, bit, rfl, sum⟩
  | sub =>
    obtain ⟨bit, difference⟩ := sub_borrow a b
    exact ⟨_, bit, rfl, difference⟩
  | shiftRight =>
    obtain ⟨bit, half⟩ := shiftRight_out a
    exact ⟨_, bit, rfl, half⟩
  | subFrom =>
    obtain ⟨bit, difference⟩ := sub_borrow b a
    exact ⟨_, bit, rfl, difference⟩
  | shiftLeft =>
    obtain ⟨bit, double⟩ := shiftLeft_out a
    exact ⟨_, bit, rfl, double⟩

end ArithmeticOp

namespace Registers

theorem read_setV (r : Registers) (x j : Fin 16) (value : UInt8) :
    (r.setV x value).v.read j = if j = x then value else r.v.read j := by
  simp only [setV, Cells.read_write, eq_comm]

/-- The result is written over the flag, so vX holds the result in any case. -/
theorem read_arithmetic (r : Registers) (op : ArithmeticOp) (x y j : Fin 16) :
    (r.arithmetic op x y).v.read j =
      if j = x then (op.compute (r.v.read x) (r.v.read y)).1
      else if j = vF then (op.compute (r.v.read x) (r.v.read y)).2.getD (r.v.read j)
      else r.v.read j := by
  unfold arithmetic
  generalize op.compute (r.v.read x) (r.v.read y) = computed
  obtain ⟨result, flag⟩ := computed
  cases flag with
  | none => simp only [read_setV, Option.getD_none, ite_self]
  | some flag => simp only [read_setV, Option.getD_some]

theorem arithmetic_eq (r : Registers) (op : ArithmeticOp) (x y : Fin 16) :
    r.arithmetic op x y = { r with v := (r.arithmetic op x y).v } := by
  cases op <;> rfl

theorem read_addIndex (r : Registers) (x j : Fin 16) :
    (r.addIndex x).v.read j =
      if j = vF then if 65536 ≤ r.i.toNat + (r.v.read x).toNat then 1 else 0 else r.v.read j :=
  r.read_setV vF j _

/-- A byte is too small to wrap the index register more than once. -/
theorem addIndex_carry (r : Registers) (x : Fin 16) :
    let f := (r.addIndex x).v.read vF
    f.toNat < 2 ∧ r.i.toNat + (r.v.read x).toNat = (r.addIndex x).i.toNat + 65536 * f.toNat := by
  have boundI := r.i.toNat_lt
  have boundV := (r.v.read x).toNat_lt
  have sum : (r.addIndex x).i.toNat = (r.i.toNat + (r.v.read x).toNat) % 65536 := by
    rw [addIndex, UInt16.toNat_add, UInt8.toNat_toUInt16]
  rw [read_addIndex, if_pos rfl, sum]
  split <;> simp only [UInt8.reduceToNat] <;> omega

end Registers

namespace Machine

/-- Whatever registers it names, an operation on two registers leaves in vX its result on
their values from before, in vF its flag if vF is not vX, and all other registers alone. An
addition of a byte has no flag. An addition to the index register leaves its carry in vF, also
if it has added vF itself. -/
theorem arithmetic_is_exact (m : Machine) (random : UInt8) {x y : UInt64} (first : x.toNat < 16)
    (second : y.toNat < 16) :
    let vX : Fin 16 := ⟨x.toNat, first⟩
    let old := m.registers.v.read
    let a := (old vX).toNat
    let b := (old ⟨y.toNat, second⟩).toNat
    (∀ op : ArithmeticOp, ∃ v result, ∃ flag : Option UInt8,
      m.execute random (.arithmetic op x y) =
        (.ok .done, m.withRegisters { m.registers with v }) ∧
      op.Gives a b result.toNat (flag.map UInt8.toNat) ∧
      ∀ j, v.read j =
        if j = vX then result else if j = Registers.vF then flag.getD (old j) else old j) ∧
    (∀ byte : UInt8, ∃ v,
      m.execute random (.immediate .add x byte) =
        (.ok .done, m.withRegisters { m.registers with v }) ∧
      (v.read vX).toNat = (a + byte.toNat) % 256 ∧ ∀ j, j ≠ vX → v.read j = old j) ∧
    ∃ v i,
      m.execute random (.register .addIndex x) =
        (.ok .done, m.withRegisters { m.registers with v, i }) ∧
      (v.read Registers.vF).toNat < 2 ∧
      m.registers.i.toNat + a = i.toNat + 65536 * (v.read Registers.vF).toNat ∧
      ∀ j, j ≠ Registers.vF → v.read j = old j := by
  intro vX old a b
  refine ⟨fun op => ?_, fun byte => ?_, ?_⟩
  · refine ⟨_, _, _, ?_, op.gives_compute _ _, m.registers.read_arithmetic op vX _⟩
    rw [execute_arithmetic m random x y op first second, Registers.arithmetic_eq]
  · have read (j : Fin 16) := m.registers.read_setV vX j (old vX + byte)
    refine ⟨_, execute_immediate m random x .add byte first, ?_, fun j other => ?_⟩
    · exact (congrArg UInt8.toNat ((read vX).trans (if_pos rfl))).trans (UInt8.toNat_add _ _)
    · exact (read j).trans (if_neg other)
  · obtain ⟨bit, sum⟩ := m.registers.addIndex_carry vX
    refine ⟨_, _, execute_register m random x .addIndex first, bit, sum, fun j other => ?_⟩
    exact (m.registers.read_addIndex vX j).trans (if_neg other)

/-- Two hundred twice, all of them in vF: a sum writes over its carry, and the carry of the
index register over the byte that was added to it. -/
theorem arithmetic_on_flag_register :
    let m : Machine := { registers := { v := .fill 16 200, i := 0xffff } }
    (15 : UInt64).toNat < 16 ∧
      (∃ v, m.execute 0 (.arithmetic .add 15 15) =
          (.ok .done, m.withRegisters { m.registers with v }) ∧
        (v.read Registers.vF).toNat = 144) ∧
      ∃ v i, m.execute 0 (.register .addIndex 15) =
          (.ok .done, m.withRegisters { m.registers with v, i }) ∧
        i.toNat = 199 ∧ (v.read Registers.vF).toNat = 1 := by
  intro m
  have narrow : (15 : UInt64).toNat < 16 := by decide
  have filled (j : Fin 16) : (m.registers.v.read j).toNat = 200 :=
    congrArg UInt8.toNat (Cells.read_fill 200 j)
  have index : m.registers.i.toNat = 65535 := rfl
  obtain ⟨sums, -, v, i, added, bit, carried, -⟩ := arithmetic_is_exact m 0 narrow narrow
  obtain ⟨w, result, flag, executed, ⟨f, bound, -, sum⟩, read⟩ := sums .add
  rw [filled] at sum
  rw [filled, index] at carried
  have small := result.toNat_lt
  have inside := i.toNat_lt
  refine ⟨narrow, ⟨w, executed, ?_⟩, v, i, added, by omega, by omega⟩
  have stays : w.read Registers.vF = result := (read Registers.vF).trans (if_pos rfl)
  rw [stays]
  omega

end Machine

end Chip8
