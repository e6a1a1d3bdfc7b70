import Chip8.Instruction.Encoding

/-!
# Operands of decoded instructions

An operand has the full width of its type, but decoding reads it from the digits
of a word. So a decoded instruction only names registers that exist.
-/
namespace Chip8

theorem Word.digit_lt (w : Word) (place : Nat) : w.digit place < 16 :=
  Nat.mod_lt _ (by decide)

/-- Operands that fit in the digits which patterns have for them. -/
structure Operands.Narrow (o : Operands) : Prop where
  a : o.a.toNat < 4096
  n : o.n.toNat < 16
  x : o.x.toNat < 16
  y : o.y.toNat < 16

theorem Operands.narrow_ofWord (w : Word) : (Operands.ofWord w).Narrow := by
  have digits := w.digit_lt
  constructor
  · have bound := Nat.mod_lt w.toNat (show 4096 > 0 by decide)
    simp only [ofWord, UInt16.toNat_ofNat']
    omega
  · have bound := digits 0
    simp only [ofWord, UInt8.toNat_ofNat']
    omega
  · have bound := digits 2
    simp only [ofWord, UInt64.toNat_ofNat']
    omega
  · have bound := digits 1
    simp only [ofWord, UInt64.toNat_ofNat']
    omega

theorem Operands.narrow_none : ({ } : Operands).Narrow :=
  ⟨by decide, by decide, by decide, by decide⟩

/-- An operation keeps the operands of its group and leaves the others at zero. -/
theorem Operation.narrow_instruction (op : Operation) {o : Operands} (narrow : o.Narrow) :
    (op.instruction o).operands.Narrow := by
  obtain ⟨a, n, x, y⟩ := narrow
  obtain ⟨noA, noN, noX, noY⟩ := Operands.narrow_none
  cases op with
  | plain op => exact ⟨noA, noN, noX, noY⟩
  | address op => exact ⟨a, noN, noX, noY⟩
  | immediate op => exact ⟨noA, noN, x, noY⟩
  | compare op => exact ⟨noA, noN, x, y⟩
  | arithmetic op => exact ⟨noA, noN, x, y⟩
  | draw => exact ⟨noA, n, x, y⟩
  | register op => exact ⟨noA, noN, x, noY⟩

theorem Instruction.narrow_of_decode {w : Word} {i : Instruction}
    (decoded : Instruction.decode w = some i) : i.operands.Narrow := by
  simp only [Instruction.decode, Option.map_eq_some_iff] at decoded
  obtain ⟨op, _, rfl⟩ := decoded
  exact op.narrow_instruction (Operands.narrow_ofWord w)

end Chip8
