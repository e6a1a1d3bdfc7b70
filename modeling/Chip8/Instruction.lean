import Chip8.Word

/-!
# Instructions

The instruction set has thirty-four operations in seven groups. All operations
of a group take the same operands, so an instruction is an operation of its group
together with their values. Operands keep the full width of their types: an
instruction can name a register that does not exist, and encoding is what cuts
an operand down to the digits it has in the word.
-/
namespace Chip8

inductive PlainOp
  | clearScreen
  | ret
deriving DecidableEq, Repr

inductive AddressOp
  | jump
  | call
  | setIndex
  | jumpOffset
deriving DecidableEq, Repr

inductive ImmediateOp
  | skipEqual
  | skipDiffer
  | set
  | add
  | random
deriving DecidableEq, Repr

inductive CompareOp
  | skipEqual
  | skipDiffer
deriving DecidableEq, Repr

inductive ArithmeticOp
  | copy
  | or
  | and
  | xor
  | add
  | sub
  | shiftRight
  | subFrom
  | shiftLeft
deriving DecidableEq, Repr

inductive RegisterOp
  | skipPressed
  | skipReleased
  | readDelay
  | waitKey
  | setDelay
  | setSound
  | addIndex
  | pointGlyph
  | storeDecimal
  | storeRegisters
  | loadRegisters
deriving DecidableEq, Repr

/-- An operation without its operands. -/
inductive Operation
  | plain (op : PlainOp)
  | address (op : AddressOp)
  | immediate (op : ImmediateOp)
  | compare (op : CompareOp)
  | arithmetic (op : ArithmeticOp)
  | draw
  | register (op : RegisterOp)
deriving DecidableEq, Repr

/-- `x` and `y` name registers, `a` is an address, `b` a byte and `n` a row count. -/
inductive Instruction
  | plain (op : PlainOp)
  | address (op : AddressOp) (a : UInt16)
  | immediate (op : ImmediateOp) (x : UInt64) (b : UInt8)
  | compare (op : CompareOp) (x y : UInt64)
  | arithmetic (op : ArithmeticOp) (x y : UInt64)
  | draw (x y : UInt64) (n : UInt8)
  | register (op : RegisterOp) (x : UInt64)
deriving DecidableEq, Repr

/-- Values for all kinds of operands; an operation takes those of its group. -/
structure Operands where
  a : UInt16 := 0
  b : UInt8 := 0
  n : UInt8 := 0
  x : UInt64 := 0
  y : UInt64 := 0
deriving DecidableEq, Repr

namespace Operation

/-- The whole instruction set. -/
def all : List Operation :=
  [.plain .clearScreen, .plain .ret,
   .address .jump, .address .call,
   .immediate .skipEqual, .immediate .skipDiffer, .compare .skipEqual,
   .immediate .set, .immediate .add,
   .arithmetic .copy, .arithmetic .or, .arithmetic .and, .arithmetic .xor,
   .arithmetic .add, .arithmetic .sub, .arithmetic .shiftRight,
   .arithmetic .subFrom, .arithmetic .shiftLeft,
   .compare .skipDiffer,
   .address .setIndex, .address .jumpOffset,
   .immediate .random, .draw,
   .register .skipPressed, .register .skipReleased,
   .register .readDelay, .register .waitKey, .register .setDelay, .register .setSound,
   .register .addIndex, .register .pointGlyph, .register .storeDecimal,
   .register .storeRegisters, .register .loadRegisters]

theorem mem_all (op : Operation) : op ∈ all := by
  cases op with
  | plain op => cases op <;> decide
  | address op => cases op <;> decide
  | immediate op => cases op <;> decide
  | compare op => cases op <;> decide
  | arithmetic op => cases op <;> decide
  | draw => decide
  | register op => cases op <;> decide

/-- The operation applied to the operands that its group takes. -/
def instruction (op : Operation) (o : Operands) : Instruction :=
  match op with
  | .plain op => .plain op
  | .address op => .address op o.a
  | .immediate op => .immediate op o.x o.b
  | .compare op => .compare op o.x o.y
  | .arithmetic op => .arithmetic op o.x o.y
  | .draw => .draw o.x o.y o.n
  | .register op => .register op o.x

end Operation

namespace Instruction

def operation : Instruction → Operation
  | .plain op => .plain op
  | .address op _ => .address op
  | .immediate op _ _ => .immediate op
  | .compare op _ _ => .compare op
  | .arithmetic op _ _ => .arithmetic op
  | .draw _ _ _ => .draw
  | .register op _ => .register op

/-- The operands, with zero for the kinds that the instruction does not take. -/
def operands : Instruction → Operands
  | .plain _ => { }
  | .address _ a => { a }
  | .immediate _ x b => { x, b }
  | .compare _ x y => { x, y }
  | .arithmetic _ x y => { x, y }
  | .draw x y n => { x, y, n }
  | .register _ x => { x }

theorem instruction_operands (i : Instruction) : i.operation.instruction i.operands = i := by
  cases i <;> rfl

end Instruction

end Chip8
