import Chip8.Machine
import Chip8.Instruction.Encoding

/-!
# Execution

What each instruction does to the machine. An instruction leaves the program
counter two bytes in front of where execution goes on, because a tick ends by
moving past the instruction. The instruction that waits for a key only prepares
the keypad here; the tick takes care of the wait.
-/
namespace Chip8.Machine

/-- How far an instruction comes by itself. -/
inductive Progress
  | done
  /-- Waiting for a key, which is meant for a register. -/
  | waiting (x : Fin 16)
deriving DecidableEq, Repr

def withRegisters (m : Machine) (registers : Registers) : Machine := { m with registers }

def executePlain (m : Machine) : PlainOp → Attempt Machine Unit
  | .clearScreen => (.ok (), { m with screen := m.screen.clear })
  | .ret =>
    (m.registers.pop.within m.withRegisters).andThen fun address m =>
      (.ok (), m.withRegisters { m.registers with pc := address })

def executeAddress (m : Machine) (a : Word) : AddressOp → Attempt Machine Unit
  | .jump => (.ok (), m.withRegisters (m.registers.branch a))
  | .call =>
    ((m.registers.push m.registers.pc).within m.withRegisters).andThen fun _ m =>
      (.ok (), m.withRegisters (m.registers.branch a))
  | .setIndex => (.ok (), m.setIndex a)
  | .jumpOffset =>
    (.ok (), m.withRegisters (m.registers.branch (a + (m.registers.v.read 0).toUInt16)))

def executeImmediate (m : Machine) (random : UInt8) (x : Fin 16) (b : UInt8) :
    ImmediateOp → Machine
  | .skipEqual => m.withRegisters (m.registers.skipIf (m.registers.v.read x == b))
  | .skipDiffer => m.withRegisters (m.registers.skipIf (m.registers.v.read x != b))
  | .set => m.withRegisters (m.registers.setV x b)
  | .add => m.withRegisters (m.registers.setV x (m.registers.v.read x + b))
  | .random => m.withRegisters (m.registers.setV x (random &&& b))

def executeCompare (m : Machine) (x y : Fin 16) : CompareOp → Machine
  | .skipEqual =>
    m.withRegisters (m.registers.skipIf (m.registers.v.read x == m.registers.v.read y))
  | .skipDiffer =>
    m.withRegisters (m.registers.skipIf (m.registers.v.read x != m.registers.v.read y))

/-- Draws the sprite at the index register. The position is read before vF is
written. -/
def executeDraw (m : Machine) (x y : Fin 16) (n : UInt8) : Attempt Machine Unit :=
  .finding m (m.memory.readBytes m.registers.i.toNat n.toNat) fun sprite =>
    let (hit, screen) := m.screen.draw (m.registers.v.read x) (m.registers.v.read y) sprite
    (.ok (), { m with screen, registers := m.registers.setV Registers.vF (if hit then 1 else 0) })

/-- The three decimal digits of a byte. -/
def decimalDigits (value : UInt8) : List UInt8 :=
  [value / 100 % 10, value / 10 % 10, value % 10]

/-- The end of an instruction that has nothing to wait for. -/
def finish (_ : Unit) (m : Machine) : Attempt Machine Progress := (.ok .done, m)

/-- A sound of length one is too short to be heard and changes nothing. -/
def executeRegister (m : Machine) (x : Fin 16) : RegisterOp → Attempt Machine Progress
  | .skipPressed => done (m.registers.skipIf (m.keypad.isPressed vx))
  | .skipReleased => done (m.registers.skipIf (!m.keypad.isPressed vx))
  | .readDelay => done (m.registers.setV x m.delay.value)
  | .waitKey => (.ok (.waiting x), { m with keypad := m.keypad.arm })
  | .setDelay => finish () { m with delay := m.delay.set vx }
  | .setSound => finish () (if vx = 1 then m else { m with sound := m.sound.set vx })
  | .addIndex => done (m.registers.addIndex x)
  | .pointGlyph => finish () (m.setIndex (Memory.glyphAddress vx))
  | .storeDecimal => store (decimalDigits vx)
  | .storeRegisters => store (m.registers.upTo x)
  | .loadRegisters =>
    .finding m (m.memory.readBytes m.registers.i.toNat (x.val + 1)) fun values =>
      ((m.registers.setUpTo x values).within m.withRegisters).andThen finish
where
  vx : UInt8 := m.registers.v.read x
  done (registers : Registers) : Attempt Machine Progress := finish () (m.withRegisters registers)
  store (bytes : List UInt8) : Attempt Machine Progress :=
    ((m.memory.writeBytes m.registers.i.toNat bytes).within m.withMemory).andThen finish

/-- Executes one instruction; `random` is the byte drawn if it asks for one. -/
def execute (m : Machine) (random : UInt8) : Instruction → Attempt Machine Progress
  | .plain op => (m.executePlain op).andThen finish
  | .address op a => (m.executeAddress a op).andThen finish
  | .immediate op x b =>
    .finding m (Registers.index x) fun x => finish () (m.executeImmediate random x b op)
  | .compare op x y =>
    .finding m (Registers.index x) fun x =>
      .finding m (Registers.index y) fun y => finish () (m.executeCompare x y op)
  | .arithmetic op x y =>
    .finding m (Registers.index x) fun x =>
      .finding m (Registers.index y) fun y =>
        finish () (m.withRegisters (m.registers.arithmetic op x y))
  | .draw x y n =>
    .finding m (Registers.index x) fun x =>
      .finding m (Registers.index y) fun y => (m.executeDraw x y n).andThen finish
  | .register op x => .finding m (Registers.index x) fun x => m.executeRegister x op

end Chip8.Machine
