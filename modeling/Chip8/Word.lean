/-!
# Words

A word is sixteen bits: two bytes, the high one first in memory, or four
hexadecimal digits, counted from the least significant place.
-/
namespace Chip8

abbrev Word := UInt16

namespace Word

/-- The hexadecimal digit at a place, the last digit being at place 0. -/
def digit (w : Word) (place : Nat) : Nat :=
  w.toNat >>> (4 * place) % 16

def ofBytes (high low : UInt8) : Word :=
  UInt16.ofNat (high.toNat * 256 + low.toNat)

def high (w : Word) : UInt8 :=
  UInt8.ofNat (w.toNat / 256)

def low (w : Word) : UInt8 :=
  UInt8.ofNat (w.toNat % 256)

theorem high_ofBytes (a b : UInt8) : high (ofBytes a b) = a := by
  have bound_a := a.toNat_lt
  have bound_b := b.toNat_lt
  apply UInt8.toNat_inj.1
  simp only [high, ofBytes, UInt16.toNat_ofNat', UInt8.toNat_ofNat']
  omega

theorem low_ofBytes (a b : UInt8) : low (ofBytes a b) = b := by
  have bound_a := a.toNat_lt
  have bound_b := b.toNat_lt
  apply UInt8.toNat_inj.1
  simp only [low, ofBytes, UInt16.toNat_ofNat', UInt8.toNat_ofNat']
  omega

theorem ofBytes_high_low (w : Word) : ofBytes (high w) (low w) = w := by
  have bound := w.toNat_lt
  apply UInt16.toNat_inj.1
  simp only [high, low, ofBytes, UInt16.toNat_ofNat', UInt8.toNat_ofNat']
  omega

/-- The words that a byte string spells, a last odd byte left out. -/
def ofByteList : List UInt8 → List Word
  | a :: b :: rest => ofBytes a b :: ofByteList rest
  | _ => []

end Word

/-- Addresses wrap at the end of the 4096 bytes of memory. -/
def wrapAddress (a : Word) : Word := a &&& 0xfff

end Chip8
