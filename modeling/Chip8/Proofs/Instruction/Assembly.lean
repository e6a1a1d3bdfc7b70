import Chip8.Instruction.Assembly
import Chip8.Proofs.Instruction.Encoding
import Chip8.Proofs.Numeral.Digits

/-!
# No two instructions have the same text

Every operation has a form: marks, and places for the numerals of its operands. The text
of an instruction is the form of its operation, filled in. An operand is written with as
many digits as it needs, so two texts cannot be compared place by place; but in no form
does a digit follow a numeral, so the pieces of two equal texts end together. Any two
forms of the table diverge at some mark, and each form shows all operands of its group.
-/
namespace Chip8

open Numeral

inductive Operand
  | a
  | b
  | n
  | x
  | y
deriving DecidableEq, Repr

namespace Operand

def value (o : Operands) : Operand → Nat
  | .a => o.a.toNat
  | .b => o.b.toNat
  | .n => o.n.toNat
  | .x => o.x.toNat
  | .y => o.y.toNat

/-- Registers are named with upper case digits, everything else has lower case ones. -/
def letters : Operand → LetterCase
  | .x => .upper
  | .y => .upper
  | _ => .lower

def width : Operand → Nat
  | .a => 3
  | .b => 2
  | _ => 0

def numeral (o : Operands) (k : Operand) : List Char := hexChars k.letters k.width (k.value o)

end Operand

/-- One piece of a form: a fixed character, or the numeral of an operand. -/
inductive Piece
  | mark (c : Char)
  | number (k : Operand)
deriving DecidableEq, Repr

namespace Piece

def marks (text : String) : List Piece := text.toList.map .mark

/-- The name of the register that an operand tells. -/
def registerName (k : Operand) : List Piece := marks "v" ++ [.number k]

def chars (o : Operands) : Piece → List Char
  | .mark c => [c]
  | .number k => k.numeral o

/-- The text of a form with these operands. -/
def fill (o : Operands) (form : List Piece) : List Char := form.flatMap (chars o)

end Piece

namespace Operation
open Piece (marks registerName)

def operandForm : Operation → List Piece
  | .plain _ => []
  | .address .jump => [.number .a]
  | .address .call => [.number .a]
  | .address .setIndex => marks "$" ++ [.number .a] ++ marks ", I"
  | .address .jumpOffset => marks "$" ++ [.number .a] ++ marks "+v0"
  | .immediate _ => marks "#" ++ [.number .b] ++ marks ", " ++ registerName .x
  | .compare _ => registerName .y ++ marks ", " ++ registerName .x
  | .arithmetic _ => registerName .y ++ marks ", " ++ registerName .x
  | .draw =>
    marks "#" ++ [.number .n] ++ marks ", " ++ registerName .x ++ marks ", " ++ registerName .y
  | .register .readDelay => marks "DT, " ++ registerName .x
  | .register .setDelay => registerName .x ++ marks ", DT"
  | .register .setSound => registerName .x ++ marks ", ST"
  | .register .addIndex => registerName .x ++ marks ", I"
  | .register .pointGlyph => registerName .x ++ marks ", I"
  | .register .storeDecimal => registerName .x ++ marks ", &I"
  | .register _ => registerName .x

def form (op : Operation) : List Piece := marks (padRight 7 op.mnemonic) ++ op.operandForm

end Operation

variable {o other : Operands} {p q : List Piece}

namespace Piece

/-! ### Filling in -/

theorem fill_append : fill o (p ++ q) = fill o p ++ fill o q := List.flatMap_append

theorem fill_marks (text : String) : fill o (marks text) = text.toList := by
  rw [fill, marks, List.flatMap_map]
  exact List.flatMap_singleton' text.toList

theorem fill_number (k : Operand) : fill o [.number k] = k.numeral o := List.flatMap_singleton _ _

theorem fill_registerName (k : Operand) : fill o (registerName k) = "v".toList ++ k.numeral o := by
  rw [registerName, fill_append, fill_marks, fill_number]

theorem toList_hex (letters : LetterCase) (width n : Nat) :
    (hex letters width n).toList = hexChars letters width n := String.toList_ofList

theorem toList_registerText (x : UInt64) :
    (Instruction.registerText x).toList = "v".toList ++ hexChars .upper 0 x.toNat := by
  rw [Instruction.registerText, String.toList_append, toList_hex]

theorem toList_operandText (i : Instruction) :
    i.operandText.toList = fill i.operands i.operation.operandForm := by
  -- A text is put together the way its form is, so both sides take the same parts.
  cases i with
  | plain op => rfl
  | address op a =>
    cases op <;> simp only [Instruction.operandText, Instruction.operation,
      Operation.operandForm, String.toList_append, toList_hex, fill_append, fill_marks,
      fill_number] <;> rfl
  | immediate op x b =>
    simp only [Instruction.operandText, Instruction.operation, Operation.operandForm,
      String.toList_append, toList_hex, toList_registerText, fill_append, fill_marks,
      fill_number, fill_registerName]
    rfl
  | compare op x y =>
    simp only [Instruction.operandText, Instruction.operation, Operation.operandForm,
      String.toList_append, toList_registerText, fill_append, fill_marks, fill_registerName]
    rfl
  | arithmetic op x y =>
    simp only [Instruction.operandText, Instruction.operation, Operation.operandForm,
      String.toList_append, toList_registerText, fill_append, fill_marks, fill_registerName]
    rfl
  | draw x y n =>
    simp only [Instruction.operandText, Instruction.operation, Operation.operandForm,
      String.toList_append, toList_hex, toList_registerText, fill_append, fill_marks,
      fill_number, fill_registerName]
    rfl
  | register op x =>
    cases op <;> simp only [Instruction.operandText, Instruction.operation,
      Operation.operandForm, String.toList_append, toList_registerText, fill_append,
      fill_marks, fill_registerName] <;> rfl

/-- The text of an instruction is the form of its operation with its operands filled in. -/
theorem toList_text (i : Instruction) : i.text.toList = fill i.operands i.operation.form := by
  rw [Instruction.text, String.toList_append, toList_operandText, Operation.form, fill_append,
    fill_marks]

/-! ### Where forms diverge -/

def opensWithDigit : List Piece → Bool
  | .mark c :: _ => isHexDigit c
  | .number _ :: _ => true
  | [] => false

/-- Whether no digit follows a numeral. -/
def separated : List Piece → Bool
  | .mark _ :: rest => separated rest
  | .number _ :: rest => !opensWithDigit rest && separated rest
  | [] => true

/-- Whether there is a place that tells texts of these forms apart, whatever the operands. -/
def diverge : List Piece → List Piece → Bool
  | .mark c :: p, .mark d :: q => c ≠ d || diverge p q
  | .number _ :: p, .number _ :: q => diverge p q
  | p, q => opensWithDigit p != opensWithDigit q

theorem startsWithDigit_fill (o : Operands) (form : List Piece) :
    startsWithDigit (fill o form) = opensWithDigit form := by
  cases form with
  | nil => rfl
  | cons piece rest =>
    cases piece with
    | mark c => rfl
    | number k => exact startsWithDigit_hexChars _ _ _ (fill o rest)

theorem separated_number {k : Operand} (separated : separated (.number k :: p) = true) :
    opensWithDigit p = false ∧ Piece.separated p = true := by
  rw [Piece.separated, Bool.and_eq_true, Bool.not_eq_true'] at separated
  exact separated

/-- A numeral and what stands behind it are found again in the text. -/
theorem fill_number_inj {k l : Operand} (first : separated (.number k :: p) = true)
    (second : separated (.number l :: q) = true)
    (same : fill o (.number k :: p) = fill other (.number l :: q)) :
    k.value o = l.value other ∧ fill o p = fill other q := by
  have ends := (startsWithDigit_fill o p).trans (separated_number first).1
  have endsToo := (startsWithDigit_fill other q).trans (separated_number second).1
  exact hexChars_append_inj ends endsToo same

theorem fill_ne_of_diverge (first : separated p = true) (second : separated q = true)
    (apart : diverge p q = true) : fill o p ≠ fill other q := by
  intro same
  fun_induction diverge p q with
  | case1 c p d q ih =>
    obtain ⟨marks, rest⟩ := List.cons.inj same
    rw [Bool.or_eq_true, decide_eq_true_eq] at apart
    exact ih first second (apart.resolve_left (not_not_intro marks)) rest
  | case2 k p l q ih =>
    have rest := (fill_number_inj first second same).2
    exact ih (separated_number first).2 (separated_number second).2 apart rest
  | case3 p q =>
    -- Only one of the two texts starts with a digit.
    rw [bne_iff_ne, ← startsWithDigit_fill o p, ← startsWithDigit_fill other q] at apart
    exact apart (congrArg startsWithDigit same)

/-- The text of a form shows all operands that the form has. -/
theorem value_eq_of_fill_eq (separated : separated p = true) (same : fill o p = fill other p)
    {k : Operand} (shown : .number k ∈ p) : k.value o = k.value other := by
  induction p with
  | nil => cases shown
  | cons piece rest ih =>
    cases piece with
    | mark c =>
      have later : .number k ∈ rest := (List.mem_cons.mp shown).resolve_left (by simp)
      exact ih separated (List.cons.inj same).2 later
    | number l =>
      obtain ⟨here, behind⟩ := fill_number_inj separated separated same
      rcases List.mem_cons.mp shown with found | later
      · cases found
        exact here
      · exact ih (separated_number separated).2 behind later

end Piece

/-! ### The table -/

namespace Operation
open Piece (registerName)

theorem separated_form (op : Operation) : Piece.separated op.form = true := by
  have table : ∀ op ∈ all, Piece.separated op.form = true := by decide +kernel
  exact table op (mem_all op)

theorem diverge_form {p q : Operation} (apart : p ≠ q) : Piece.diverge p.form q.form = true := by
  have table : ∀ p ∈ all, ∀ q ∈ all, p ≠ q → Piece.diverge p.form q.form = true := by
    decide +kernel
  exact table p (mem_all p) q (mem_all q) apart

/-- The form shows every operand that the operation's group takes. -/
theorem instruction_congr (op : Operation)
    (same : ∀ k, .number k ∈ op.operandForm → k.value o = k.value other) :
    op.instruction o = op.instruction other := by
  -- Within a group the operands stand in every form, whatever marks are around them.
  cases op with
  | plain op => rfl
  | address op =>
    have shown : .number .a ∈ operandForm (.address op) := by cases op <;> simp [operandForm]
    have a : o.a = other.a := UInt16.toNat_inj.mp (same .a shown)
    simp only [instruction, a]
  | immediate op =>
    have b : o.b = other.b := UInt8.toNat_inj.mp (same .b (by simp [operandForm]))
    have x : o.x = other.x := UInt64.toNat_inj.mp (same .x (by simp [operandForm, registerName]))
    simp only [instruction, x, b]
  | compare op =>
    have x : o.x = other.x := UInt64.toNat_inj.mp (same .x (by simp [operandForm, registerName]))
    have y : o.y = other.y := UInt64.toNat_inj.mp (same .y (by simp [operandForm, registerName]))
    simp only [instruction, x, y]
  | arithmetic op =>
    have x : o.x = other.x := UInt64.toNat_inj.mp (same .x (by simp [operandForm, registerName]))
    have y : o.y = other.y := UInt64.toNat_inj.mp (same .y (by simp [operandForm, registerName]))
    simp only [instruction, x, y]
  | draw =>
    have n : o.n = other.n := UInt8.toNat_inj.mp (same .n (by simp [operandForm]))
    have x : o.x = other.x := UInt64.toNat_inj.mp (same .x (by simp [operandForm, registerName]))
    have y : o.y = other.y := UInt64.toNat_inj.mp (same .y (by simp [operandForm, registerName]))
    simp only [instruction, x, y, n]
  | register op =>
    have shown : .number .x ∈ operandForm (.register op) := by
      cases op <;> simp [operandForm, registerName]
    have x : o.x = other.x := UInt64.toNat_inj.mp (same .x shown)
    simp only [instruction, x]

end Operation

namespace Instruction

theorem text_inj {i j : Instruction} (same : i.text = j.text) : i = j := by
  have filled := congrArg String.toList same
  rw [Piece.toList_text, Piece.toList_text] at filled
  by_cases apart : i.operation = j.operation
  · rw [← apart] at filled
    rw [← i.instruction_operands, ← j.instruction_operands, ← apart]
    apply Operation.instruction_congr
    intro k shown
    exact Piece.value_eq_of_fill_eq i.operation.separated_form filled
      (List.mem_append_right _ shown)
  · exact absurd filled (Piece.fill_ne_of_diverge i.operation.separated_form
      j.operation.separated_form (Operation.diverge_form apart))

end Instruction

end Chip8
