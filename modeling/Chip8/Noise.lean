/-!
# Noise

A stream of bytes that look drawn at random. A seed determines all of them. Each
is mixed from its number alone, so that a byte says nothing about those near it,
nor about those at any regular distance from it.
-/
namespace Chip8.Noise

/-- Lets every bit of a number have a share in every bit of the result. The steps
can be undone one by one, so different numbers stay different. -/
def mix (x : UInt64) : UInt64 :=
  let x := (x ^^^ (x >>> 30)) * 0xbf58476d1ce4e5b9
  let x := (x ^^^ (x >>> 27)) * 0x94d049bb133111eb
  x ^^^ (x >>> 31)

/-- The byte of a number. Numbers are spread over the whole range first. -/
def byte (seed : UInt64) (number : Nat) : UInt8 :=
  (mix (mix seed + UInt64.ofNat (number + 1) * 0x9e3779b97f4a7c15) >>> 56).toUInt8

end Chip8.Noise
