import Chip8.Instruction

/-!
# Encoding

Each operation has a pattern of four hexadecimal digits. Some digits are fixed
and tell the operation; the others hold operands. Encoding writes the digits of
the operands into the pattern, and decoding looks for the operation whose fixed
digits agree with the word. An operand that is too wide for its digits loses its
high part.
-/
namespace Chip8

/-- One digit of a pattern: fixed, or part of an operand. -/
inductive Slot
  | fixed (digit : Nat)
  | a
  | b
  | n
  | x
  | y
deriving DecidableEq, Repr

namespace Operation

/-- The opcode table, most significant digit first. -/
def pattern : Operation → List Slot
  | .plain .clearScreen => [.fixed 0x0, .fixed 0x0, .fixed 0xe, .fixed 0x0]
  | .plain .ret => [.fixed 0x0, .fixed 0x0, .fixed 0xe, .fixed 0xe]
  | .address .jump => [.fixed 0x1, .a, .a, .a]
  | .address .call => [.fixed 0x2, .a, .a, .a]
  | .immediate .skipEqual => [.fixed 0x3, .x, .b, .b]
  | .immediate .skipDiffer => [.fixed 0x4, .x, .b, .b]
  | .compare .skipEqual => [.fixed 0x5, .x, .y, .fixed 0x0]
  | .immediate .set => [.fixed 0x6, .x, .b, .b]
  | .immediate .add => [.fixed 0x7, .x, .b, .b]
  | .arithmetic .copy => [.fixed 0x8, .x, .y, .fixed 0x0]
  | .arithmetic .or => [.fixed 0x8, .x, .y, .fixed 0x1]
  | .arithmetic .and => [.fixed 0x8, .x, .y, .fixed 0x2]
  | .arithmetic .xor => [.fixed 0x8, .x, .y, .fixed 0x3]
  | .arithmetic .add => [.fixed 0x8, .x, .y, .fixed 0x4]
  | .arithmetic .sub => [.fixed 0x8, .x, .y, .fixed 0x5]
  | .arithmetic .shiftRight => [.fixed 0x8, .x, .y, .fixed 0x6]
  | .arithmetic .subFrom => [.fixed 0x8, .x, .y, .fixed 0x7]
  | .arithmetic .shiftLeft => [.fixed 0x8, .x, .y, .fixed 0xe]
  | .compare .skipDiffer => [.fixed 0x9, .x, .y, .fixed 0x0]
  | .address .setIndex => [.fixed 0xa, .a, .a, .a]
  | .address .jumpOffset => [.fixed 0xb, .a, .a, .a]
  | .immediate .random => [.fixed 0xc, .x, .b, .b]
  | .draw => [.fixed 0xd, .x, .y, .n]
  | .register .skipPressed => [.fixed 0xe, .x, .fixed 0x9, .fixed 0xe]
  | .register .skipReleased => [.fixed 0xe, .x, .fixed 0xa, .fixed 0x1]
  | .register .readDelay => [.fixed 0xf, .x, .fixed 0x0, .fixed 0x7]
  | .register .waitKey => [.fixed 0xf, .x, .fixed 0x0, .fixed 0xa]
  | .register .setDelay => [.fixed 0xf, .x, .fixed 0x1, .fixed 0x5]
  | .register .setSound => [.fixed 0xf, .x, .fixed 0x1, .fixed 0x8]
  | .register .addIndex => [.fixed 0xf, .x, .fixed 0x1, .fixed 0xe]
  | .register .pointGlyph => [.fixed 0xf, .x, .fixed 0x2, .fixed 0x9]
  | .register .storeDecimal => [.fixed 0xf, .x, .fixed 0x3, .fixed 0x3]
  | .register .storeRegisters => [.fixed 0xf, .x, .fixed 0x5, .fixed 0x5]
  | .register .loadRegisters => [.fixed 0xf, .x, .fixed 0x6, .fixed 0x5]

end Operation

/-- The digit at a place of an encoded word. Addresses, bytes and row counts end
at place 0, so their digits stand at their own places. -/
def Slot.digit (o : Operands) (place : Nat) : Slot → Nat
  | .fixed d => d
  | .a => o.a.toNat / Nat.pow 16 place % 16
  | .b => o.b.toNat / Nat.pow 16 place % 16
  | .n => o.n.toNat / Nat.pow 16 place % 16
  | .x => o.x.toNat % 16
  | .y => o.y.toNat % 16

/-- The number whose digits the slots give. -/
def Slot.fill (o : Operands) : List Slot → Nat
  | [] => 0
  | slot :: rest => slot.digit o rest.length * Nat.pow 16 rest.length + fill o rest

/-- Whether the fixed digits agree with the word's. -/
def Slot.agree (w : Word) : List Slot → Bool
  | [] => true
  | .fixed d :: rest => w.digit rest.length == d && agree w rest
  | _ :: rest => agree w rest

/-! ### Finding the operation -/

namespace Operation

def agrees (op : Operation) (w : Word) : Bool := Slot.agree w op.pattern

/-- Whether the pattern begins with this digit. -/
def leads (op : Operation) (digit : Nat) : Bool := op.pattern.head? == some (.fixed digit)

theorem leads_of_agrees {op : Operation} {w : Word} (agreed : op.agrees w = true) :
    op.leads (w.digit 3) = true := by
  have leading : ∃ d rest, op.pattern = .fixed d :: rest ∧ rest.length = 3 := by
    cases op with
    | plain op => cases op <;> exact ⟨_, _, rfl, rfl⟩
    | address op => cases op <;> exact ⟨_, _, rfl, rfl⟩
    | immediate op => cases op <;> exact ⟨_, _, rfl, rfl⟩
    | compare op => cases op <;> exact ⟨_, _, rfl, rfl⟩
    | arithmetic op => cases op <;> exact ⟨_, _, rfl, rfl⟩
    | draw => exact ⟨_, _, rfl, rfl⟩
    | register op => cases op <;> exact ⟨_, _, rfl, rfl⟩
  obtain ⟨d, rest, shape, places⟩ := leading
  simp only [agrees, shape, Slot.agree, places, Bool.and_eq_true, beq_iff_eq] at agreed
  simp [leads, shape, agreed.1]

/-- The operations whose pattern begins with each digit. -/
def families : Array (List Operation) :=
  ((List.range 16).map fun digit => all.filter fun op => op.leads digit).toArray

/-- The operation whose fixed digits agree with the word. The first digit leaves
few of them to look at. -/
def ofWord? (w : Word) : Option Operation :=
  (families.getD (w.digit 3) []).find? fun op => op.agrees w

theorem ofWord?_eq (w : Word) : ofWord? w = all.find? fun op => op.agrees w := by
  have small : w.digit 3 < 16 := Nat.mod_lt _ (by decide)
  have family : families.getD (w.digit 3) [] = all.filter fun op => op.leads (w.digit 3) := by
    simp [families, Array.getD, small]
  rw [ofWord?, family, List.find?_filter]
  congr 1
  funext op
  have leads := @leads_of_agrees op w
  cases agreed : op.agrees w
  · simp
  · simp [leads agreed]

end Operation

/-! ### Words and instructions -/

/-- Every operand read from the digits where patterns put it. -/
def Operands.ofWord (w : Word) : Operands where
  a := UInt16.ofNat (w.toNat % 4096)
  b := UInt8.ofNat (w.toNat % 256)
  n := UInt8.ofNat (w.digit 0)
  x := UInt64.ofNat (w.digit 2)
  y := UInt64.ofNat (w.digit 1)

namespace Instruction

def encode (i : Instruction) : Word :=
  UInt16.ofNat (Slot.fill i.operands i.operation.pattern)

def decode (w : Word) : Option Instruction :=
  (Operation.ofWord? w).map fun op => op.instruction (Operands.ofWord w)

/-! ### Byte strings -/

inductive DecodeError
  | unexpectedEnd
  | unknownOpcode
deriving DecidableEq, Repr

/-- Reads the instruction in front of a byte string, and how many bytes it takes. -/
def decodeBytes : List UInt8 → Except DecodeError (Nat × Instruction)
  | high :: low :: _ =>
    match decode (Word.ofBytes high low) with
    | some i => .ok (2, i)
    | none => .error .unknownOpcode
  | _ => .error .unexpectedEnd

inductive EncodeError
  | unexpectedEnd
deriving DecidableEq, Repr

/-- Writes an instruction over the front of a buffer. Answers the number of bytes written
and what the buffer then holds. -/
abbrev Encoder := Instruction → List UInt8 → Except EncodeError Nat × List UInt8

/-- The first two bytes are written over, if there are two. -/
def encodeInto (i : Instruction) : List UInt8 → Except EncodeError Nat × List UInt8
  | _ :: _ :: rest => (.ok 2, i.encode.high :: i.encode.low :: rest)
  | buffer => (.error .unexpectedEnd, buffer)

end Instruction

end Chip8
