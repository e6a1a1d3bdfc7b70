import Chip8.Fault
import Chip8.Word

/-!
# Memory

The machine has 4096 bytes, and every address is taken modulo that size. Each
byte of a longer value wraps on its own, so a word at the last address continues
at the first one. The size belongs to the addressing, not to the type: a memory
restored from a snapshot may be shorter, and an access past its end is a trap.
-/
namespace Chip8

/-- The number of bytes that addresses can reach. -/
def memorySize : Nat := 4096

/-- The address where programs are loaded. -/
def programStart : Word := 0x200

structure Memory where
  bytes : Array UInt8
deriving DecidableEq, Repr

/-- The named parts of memory. -/
inductive Region
  | charset
  | program
deriving DecidableEq, Repr

namespace Region

def all : List Region := [.charset, .program]

def start : Region → Nat
  | .charset => 0
  | .program => 0x200

/-- The first address past the region. -/
def stop : Region → Nat
  | .charset => 80
  | .program => 4096

def size (r : Region) : Nat := r.stop - r.start

def name : Region → String
  | .charset => "Charset"
  | .program => "Program"

end Region

namespace Memory

/-! ### Glyphs -/

/-- The number of rows of a glyph. -/
def glyphHeight : Nat := 5

/-- The glyphs of the sixteen digits, five rows each. -/
def charset : List UInt8 :=
  [0xf0, 0x90, 0x90, 0x90, 0xf0,
   0x20, 0x60, 0x20, 0x20, 0x70,
   0xf0, 0x10, 0xf0, 0x80, 0xf0,
   0xf0, 0x10, 0xf0, 0x10, 0xf0,
   0x90, 0x90, 0xf0, 0x10, 0x10,
   0xf0, 0x80, 0xf0, 0x10, 0xf0,
   0xf0, 0x80, 0xf0, 0x90, 0xf0,
   0xf0, 0x10, 0x20, 0x40, 0x40,
   0xf0, 0x90, 0xf0, 0x90, 0xf0,
   0xf0, 0x90, 0xf0, 0x10, 0xf0,
   0xf0, 0x90, 0xf0, 0x90, 0x90,
   0xe0, 0x90, 0xe0, 0x90, 0xe0,
   0xf0, 0x80, 0x80, 0x80, 0xf0,
   0xe0, 0x90, 0x90, 0x90, 0xe0,
   0xf0, 0x80, 0xf0, 0x80, 0xf0,
   0xf0, 0x80, 0xf0, 0x80, 0x80]

/-- The address of a digit's glyph. Values above fifteen are not cut down and
lie past the last glyph. -/
def glyphAddress (digit : UInt8) : Word :=
  UInt16.ofNat (digit.toNat * glyphHeight)

/-- A blank memory that holds the glyphs at its start. -/
def initial : Memory :=
  ⟨(charset ++ List.replicate (memorySize - charset.length) 0).toArray⟩

def size (m : Memory) : Nat := m.bytes.size

/-! ### Bytes and words -/

def read (m : Memory) (address : Nat) : Except Abort UInt8 :=
  match m.bytes[address % memorySize]? with
  | some byte => .ok byte
  | none => .error (.trap (.memoryIndex (address % memorySize)))

def write (m : Memory) (address : Nat) (byte : UInt8) : Attempt Memory Unit :=
  if inside : address % memorySize < m.bytes.size then
    (.ok (), ⟨m.bytes.set (address % memorySize) byte inside⟩)
  else (.error (.trap (.memoryIndex (address % memorySize))), m)

theorem size_initial : initial.size = memorySize := by
  simp only [initial, size, List.size_toArray, List.length_append, List.length_replicate]
  decide

theorem size_write (m : Memory) (address : Nat) (byte : UInt8) :
    (m.write address byte).2.size = m.size := by
  unfold write
  split
  · simp [size]
  · rfl

/-- A byte that was written is read at every address that stands for the same place. -/
theorem read_write_same {m n : Memory} {a b : Nat} {byte : UInt8}
    (written : m.write a byte = (.ok (), n)) (same : b % memorySize = a % memorySize) :
    n.read b = .ok byte := by
  unfold write at written
  split at written
  next inside =>
    cases written
    simp [read, same, inside]
  next => cases written

theorem read_write_other {m n : Memory} {a b : Nat} {byte : UInt8}
    (written : m.write a byte = (.ok (), n)) (other : b % memorySize ≠ a % memorySize) :
    n.read b = m.read b := by
  unfold write at written
  split at written
  next inside =>
    cases written
    simp [read, Ne.symm other]
  next => cases written

def readWord (m : Memory) (address : Nat) : Except Abort Word := do
  let high ← m.read address
  let low ← m.read (address + 1)
  return Word.ofBytes high low

def writeWord (m : Memory) (address : Nat) (w : Word) : Attempt Memory Unit :=
  (m.write address (Word.high w)).andThen fun _ m => m.write (address + 1) (Word.low w)

/-! ### Runs of bytes -/

/-- Writes the bytes one after the other, so that a run longer than memory
overwrites its own beginning. -/
def writeBytes (m : Memory) (address : Nat) : List UInt8 → Attempt Memory Unit
  | [] => (.ok (), m)
  | byte :: rest =>
    (m.write address byte).andThen fun _ m => m.writeBytes (address + 1) rest

def readBytes (m : Memory) (address : Nat) : Nat → Except Abort (List UInt8)
  | 0 => .ok []
  | count + 1 => do
    let byte ← m.read address
    let rest ← m.readBytes (address + 1) count
    return byte :: rest

/-- Addresses that stand for the same place begin the same run. -/
theorem readBytes_congr (m : Memory) {a b : Nat} (same : b % memorySize = a % memorySize)
    (count : Nat) : m.readBytes b count = m.readBytes a count := by
  induction count generalizing a b with
  | zero => rfl
  | succ count ih =>
    have next : (b + 1) % memorySize = (a + 1) % memorySize := by
      rw [Nat.add_mod, same, ← Nat.add_mod]
    simp only [readBytes, read, same]
    rw [ih next]

theorem writeBytes_congr (m : Memory) {a b : Nat} (same : b % memorySize = a % memorySize)
    (bytes : List UInt8) : m.writeBytes b bytes = m.writeBytes a bytes := by
  induction bytes generalizing m a b with
  | nil => rfl
  | cons byte rest ih =>
    have next : (b + 1) % memorySize = (a + 1) % memorySize := by
      rw [Nat.add_mod, same, ← Nat.add_mod]
    simp only [writeBytes, write, same, ih _ next]

/-! ### Regions -/

def region (m : Memory) (r : Region) : Except Abort (List UInt8) :=
  if r.stop ≤ m.size then .ok ((m.bytes.toList.drop r.start).take r.size)
  else .error (.trap (.regionBounds r.start r.stop))

def fillRegion (m : Memory) (r : Region) (byte : UInt8) : Attempt Memory Unit :=
  if r.stop ≤ m.size then m.writeBytes r.start (List.replicate r.size byte)
  else (.error (.trap (.regionBounds r.start r.stop)), m)

def clearRegion (m : Memory) (r : Region) : Attempt Memory Unit :=
  m.fillRegion r 0

/-- Copies the data to the start of the region. Whether it fits is checked before the
first byte is written. -/
def loadRegion (m : Memory) (r : Region) (data : List UInt8) : Attempt Memory Unit :=
  if r.stop ≤ m.size then
    if data.length ≤ r.size then m.writeBytes r.start data
    else (.error (.fault (.programTooLarge data.length r.size)), m)
  else (.error (.trap (.regionBounds r.start r.stop)), m)

/-! ### Changes made from outside -/

/-- The ways in which a host changes memory in place. -/
inductive Update
  | byte (address : Nat) (value : UInt8)
  | word (address : Nat) (value : Word)
  | bytes (address : Word) (data : List UInt8)
  | fill (region : Region) (value : UInt8)
  | load (region : Region) (data : List UInt8)
deriving DecidableEq, Repr

def update (m : Memory) : Update → Attempt Memory Unit
  | .byte address value => m.write address value
  | .word address value => m.writeWord address value
  | .bytes address data => m.writeBytes address.toNat data
  | .fill r value => m.fillRegion r value
  | .load r data => m.loadRegion r data

end Memory

end Chip8
