import Chip8.Instruction
import Chip8.Numeral

/-!
# Assembly text

An instruction is written as a mnemonic, filled up to seven characters, and its
operands. Several operations share a mnemonic, and the marks on their operands
tell them apart: `#` for a byte, `$` for an address, `v` for a register, and the
names `I`, `DT` and `ST`. The destination comes last.
-/
namespace Chip8

open Numeral

namespace Operation

def mnemonic : Operation → String
  | .plain .clearScreen => "cls"
  | .plain .ret => "ret"
  | .address .jump => "jmp"
  | .address .call => "call"
  | .address .setIndex => "mov"
  | .address .jumpOffset => "jmp"
  | .immediate .skipEqual => "se"
  | .immediate .skipDiffer => "sne"
  | .immediate .set => "mov"
  | .immediate .add => "add"
  | .immediate .random => "rand"
  | .compare .skipEqual => "se"
  | .compare .skipDiffer => "sne"
  | .arithmetic .copy => "mov"
  | .arithmetic .or => "or"
  | .arithmetic .and => "and"
  | .arithmetic .xor => "xor"
  | .arithmetic .add => "add"
  | .arithmetic .sub => "sub"
  | .arithmetic .shiftRight => "shr"
  | .arithmetic .subFrom => "bsub"
  | .arithmetic .shiftLeft => "shl"
  | .draw => "draw"
  | .register .skipPressed => "sek"
  | .register .skipReleased => "snek"
  | .register .readDelay => "mov"
  | .register .waitKey => "waitk"
  | .register .setDelay => "mov"
  | .register .setSound => "mov"
  | .register .addIndex => "add"
  | .register .pointGlyph => "font"
  | .register .storeDecimal => "bcd"
  | .register .storeRegisters => "dmao"
  | .register .loadRegisters => "dmai"

end Operation

namespace Instruction

def registerText (x : UInt64) : String := "v" ++ hex .upper 0 x.toNat

def operandText : Instruction → String
  | .plain _ => ""
  | .address .jump a => hex .lower 3 a.toNat
  | .address .call a => hex .lower 3 a.toNat
  | .address .setIndex a => "$" ++ hex .lower 3 a.toNat ++ ", I"
  | .address .jumpOffset a => "$" ++ hex .lower 3 a.toNat ++ "+v0"
  | .immediate _ x b => "#" ++ hex .lower 2 b.toNat ++ ", " ++ registerText x
  | .compare _ x y => registerText y ++ ", " ++ registerText x
  | .arithmetic _ x y => registerText y ++ ", " ++ registerText x
  | .draw x y n => "#" ++ hex .lower 0 n.toNat ++ ", " ++ registerText x ++ ", " ++ registerText y
  | .register .readDelay x => "DT, " ++ registerText x
  | .register .setDelay x => registerText x ++ ", DT"
  | .register .setSound x => registerText x ++ ", ST"
  | .register .addIndex x => registerText x ++ ", I"
  | .register .pointGlyph x => registerText x ++ ", I"
  | .register .storeDecimal x => registerText x ++ ", &I"
  | .register _ x => registerText x

def text (i : Instruction) : String :=
  padRight 7 i.operation.mnemonic ++ i.operandText

end Instruction

end Chip8
