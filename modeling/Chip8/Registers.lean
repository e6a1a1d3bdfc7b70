import Chip8.Cells
import Chip8.Memory
import Chip8.Instruction

/-!
# Registers

Sixteen byte registers, the index register, the program counter and a stack of
sixteen return addresses. Only the slots below the stack pointer are on the
stack; the others keep what was there before.
-/
namespace Chip8

/-- The number of return addresses that the stack can hold. -/
def stackDepth : Nat := 16

structure Registers where
  v : Cells UInt8 16 := .fill 16 0
  i : Word := 0
  pc : Word := programStart
  stack : Cells Word 16 := .fill 16 0
  sp : UInt64 := 0
deriving DecidableEq, Repr

namespace Registers

def initial : Registers := { }

/-- The register that instructions use as a flag. -/
def vF : Fin 16 := Fin.last 15

/-- The register that an operand names. -/
def index (x : UInt64) : Except Abort (Fin 16) :=
  if inside : x.toNat < 16 then .ok ⟨x.toNat, inside⟩
  else .error (.trap (.registerIndex x.toNat))

/-- The return addresses on the stack, oldest first. -/
def live (r : Registers) : List Word := r.stack.toList.take r.sp.toNat

def setV (r : Registers) (x : Fin 16) (value : UInt8) : Registers :=
  { r with v := r.v.write x value }

/-- Moves past one instruction. -/
def advance (r : Registers) : Registers :=
  { r with pc := wrapAddress (r.pc + 2) }

/-- Moves past one more instruction if the condition holds. -/
def skipIf (r : Registers) (condition : Bool) : Registers :=
  { r with pc := if condition then wrapAddress (r.pc + 2) else r.pc }

/-- Goes two bytes in front of an address, since an instruction ends by moving
past itself. -/
def branch (r : Registers) (target : Word) : Registers :=
  { r with pc := wrapAddress (target - 2) }

/-- Puts an address on the stack, unless all slots are in use. -/
def push (r : Registers) (address : Word) : Attempt Registers Unit :=
  if free : r.sp.toNat < 16 then
    (.ok (), { r with stack := r.stack.write ⟨r.sp.toNat, free⟩ address, sp := r.sp + 1 })
  else (.error (.fault (.stackOverflow r.pc)), r)

/-- Takes the last address from the stack, leaving its slot as it is. -/
def pop (r : Registers) : Attempt Registers Word :=
  if r.sp = 0 then (.error (.fault (.stackUnderflow r.pc)), r)
  else
    -- The slot above the new top keeps its address until it is pushed over.
    let r := { r with sp := r.sp - 1 }
    match r.stack[r.sp.toNat]? with
    | some address => (.ok address, r)
    | none => (.error (.trap (.stackIndex r.sp.toNat)), r)

/-- The registers from v0 up to vX. -/
def upTo (r : Registers) (x : Fin 16) : List UInt8 :=
  r.v.toList.take (x.val + 1)

/-- Overwrites the registers from v0 up to vX. -/
def setUpTo (r : Registers) (x : Fin 16) (values : List UInt8) : Attempt Registers Unit :=
  if values.length = x.val + 1 then
    (.ok (), { r with v := .tabulate fun j => values.getD j.val (r.v.read j) })
  else (.error (.trap (.lengthMismatch (x.val + 1) values.length)), r)

end Registers

/-! ### Arithmetic -/

/-- The result of an operation on the values of vX and vY, and the value of vF
for the operations that set it. -/
def ArithmeticOp.compute (x y : UInt8) : ArithmeticOp → UInt8 × Option UInt8
  | .copy => (y, none)
  | .or => (x ||| y, none)
  | .and => (x &&& y, none)
  | .xor => (x ^^^ y, none)
  | .add => (x + y, some (if 256 ≤ x.toNat + y.toNat then 1 else 0))
  | .sub => (x - y, some (if x < y then 0 else 1))
  | .shiftRight => (x >>> 1, some (x &&& 1))
  | .subFrom => (y - x, some (if y < x then 0 else 1))
  | .shiftLeft => (x <<< 1, some (x >>> 7))

namespace Registers

/-- The flag is written before the result, so the result is what vF keeps as a
destination. -/
def arithmetic (r : Registers) (op : ArithmeticOp) (x y : Fin 16) : Registers :=
  let (result, flag) := op.compute (r.v.read x) (r.v.read y)
  match flag with
  | some flag => (r.setV vF flag).setV x result
  | none => r.setV x result

/-- Adds vX to the index register; vF tells whether the sum has wrapped. -/
def addIndex (r : Registers) (x : Fin 16) : Registers :=
  let amount := r.v.read x
  let carry : UInt8 := if 65536 ≤ r.i.toNat + amount.toNat then 1 else 0
  { r.setV vF carry with i := r.i + amount.toUInt16 }

end Registers

end Chip8
