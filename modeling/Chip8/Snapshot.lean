import Chip8.Json
import Chip8.Instruction
import Chip8.Machine

/-!
# Snapshots

How instructions, registers, memory, regions and the status are written as
document values and read back. A case without operands is its name; any other is
an object with one field, named for the case. Reading checks the range of each
number and the length of each array, and passes over fields that it does not
know.
-/
namespace Chip8

/-! ### Instructions -/

namespace Operation

/-- The name of the operation in snapshots, unlike the mnemonic its own. -/
def name : Operation → String
  | .plain .clearScreen => "cls"
  | .plain .ret => "ret"
  | .address .jump => "jmp"
  | .address .call => "call"
  | .address .setIndex => "movI"
  | .address .jumpOffset => "jmpr"
  | .immediate .skipEqual => "seb"
  | .immediate .skipDiffer => "sneb"
  | .immediate .set => "movb"
  | .immediate .add => "addb"
  | .immediate .random => "rand"
  | .compare .skipEqual => "se"
  | .compare .skipDiffer => "sne"
  | .arithmetic .copy => "mov"
  | .arithmetic .or => "or"
  | .arithmetic .and => "and"
  | .arithmetic .xor => "xor"
  | .arithmetic .add => "add"
  | .arithmetic .sub => "sub"
  | .arithmetic .shiftRight => "shr"
  | .arithmetic .subFrom => "bsub"
  | .arithmetic .shiftLeft => "shl"
  | .draw => "draw"
  | .register .skipPressed => "sek"
  | .register .skipReleased => "snek"
  | .register .readDelay => "getdt"
  | .register .waitKey => "waitk"
  | .register .setDelay => "setdt"
  | .register .setSound => "movst"
  | .register .addIndex => "addI"
  | .register .pointGlyph => "font"
  | .register .storeDecimal => "bcd"
  | .register .storeRegisters => "dmao"
  | .register .loadRegisters => "dmai"

def ofName? (name : String) : Option Operation :=
  all.find? fun op => op.name == name

end Operation

namespace Instruction

/-- The operands that the instruction takes, as fields in the order in which they are written. -/
def operandFields : Instruction → List (String × Json)
  | .plain _ => []
  | .address _ a => [("A", .ofNat a.toNat)]
  | .immediate _ x b => [("B", .ofNat b.toNat), ("x", .ofNat x.toNat)]
  | .compare _ x y => [("y", .ofNat y.toNat), ("x", .ofNat x.toNat)]
  -- A copy has its registers the other way round than the rest of its group.
  | .arithmetic .copy x y => [("x", .ofNat x.toNat), ("y", .ofNat y.toNat)]
  | .arithmetic _ x y => [("y", .ofNat y.toNat), ("x", .ofNat x.toNat)]
  | .draw x y n => [("y", .ofNat y.toNat), ("x", .ofNat x.toNat), ("n", .ofNat n.toNat)]
  | .register _ x => [("x", .ofNat x.toNat)]

def toJson : Instruction → Json
  | .plain op => .string (Operation.plain op).name
  | i => .object [(i.operation.name, .object i.operandFields)]

/-- Reads the operands of an operation that takes any. They are told by their names, which
only a record may leave out. -/
def readOperands? (fields : List (String × Json)) (op : Operation) : Option Instruction :=
  match op with
  | .plain _ => none
  | .address op => do return .address op (← address? "A")
  | .immediate op => do
    let b ← byte? "B"
    return .immediate op (← register? "x") b
  | .compare op => do
    let x ← register? "x"
    return .compare op x (← register? "y")
  | .arithmetic op => do
    let x ← register? "x"
    return .arithmetic op x (← register? "y")
  | .draw => do
    let x ← register? "x"
    let y ← register? "y"
    return .draw x y (← byte? "n")
  | .register op => do return .register op (← register? "x")
where
  address? (name : String) : Option UInt16 := (Json.field? name fields).bind Json.uint16?
  byte? (name : String) : Option UInt8 := (Json.field? name fields).bind Json.uint8?
  register? (name : String) : Option UInt64 := (Json.field? name fields).bind Json.uint64?

def ofJson? : Json → Option Instruction
  | .object [(name, .object fields)] => (Operation.ofName? name).bind (readOperands? fields)
  | j => do
    let name ← j.caseName?
    -- A bare name is enough only for an operation without operands.
    match ← Operation.ofName? name with
    | .plain op => some (.plain op)
    | _ => none

end Instruction

/-! ### Registers -/

namespace Registers

/-- The fields of a record of registers, in the order in which they are written. -/
def fieldNames : List String := ["v", "i", "pc", "stack", "sp"]

def fields (r : Registers) : List (String × Json) :=
  [("v", .array (r.v.toList.map fun b => .ofNat b.toNat)),
   ("i", .ofNat r.i.toNat),
   ("pc", .ofNat r.pc.toNat),
   ("stack", .array (r.stack.toList.map fun a => .ofNat a.toNat)),
   ("sp", .ofNat r.sp.toNat)]

def toJson (r : Registers) : Json := .object r.fields

def ofJson? (j : Json) : Option Registers := do
  match ← j.record? fieldNames with
  | [v, i, pc, stack, sp] =>
    let v ← v.vector? Json.uint8? 16
    let i ← i.uint16?
    let pc ← pc.uint16?
    let stack ← stack.vector? Json.uint16? 16
    let sp ← sp.uint64?
    return { v, i, pc, stack, sp }
  | _ => none

end Registers

/-! ### Memory -/

namespace Memory

def toJson (m : Memory) : Json :=
  .object [("memory", .array (m.bytes.toList.map fun b => .ofNat b.toNat))]

/-- Reads a memory of whatever length the array has. -/
def ofJson? (j : Json) : Option Memory := do
  match ← j.record? ["memory"] with
  | [bytes] =>
    let bytes ← bytes.list? Json.uint8?
    return ⟨bytes.toArray⟩
  | _ => none

end Memory

/-! ### Regions and status -/

def Region.toJson (r : Region) : Json := .string r.name

def Region.ofJson? (j : Json) : Option Region := do
  let name ← j.caseName?
  Region.all.find? fun r => r.name == name

def Status.toJson (s : Status) : Json := .string s.name

def Status.ofJson? (j : Json) : Option Status := do
  let name ← j.caseName?
  Status.all.find? fun s => s.name == name

end Chip8
