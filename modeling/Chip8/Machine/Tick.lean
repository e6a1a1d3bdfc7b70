import Chip8.Machine.Execution
import Chip8.Listing

/-!
# Ticks

A tick executes one instruction. It counts the cycle, fetches the word at the
program counter, decodes and executes it, and moves on. A word that is no
instruction and an instruction that fails both halt the machine where it stands.
A tick that waits for a key is taken up again when the keypad allows it. Ticks of
a halted machine do nothing.
-/
namespace Chip8

namespace Machine

/-- How far a tick comes without anyone else. -/
inductive Turn
  | finished (result : Except Abort Unit) (m : Machine)
  | waiting (x : Fin 16) (m : Machine)

/-- The word at the program counter. -/
def fetch (m : Machine) : Except Abort Word := m.memory.readWord m.registers.pc.toNat

def advance (m : Machine) : Machine := { m with registers := m.registers.advance }

/-- The distance of an address from the start of programs. -/
def programOffset (address : Word) : Int := (address.toNat : Int) - programStart.toNat

/-- Executes the word that was fetched. -/
def turn (m : Machine) (random : UInt8) (w : Word) : Turn :=
  match Instruction.decode w with
  | none =>
    let pc := m.registers.pc
    .finished (.error (.fault (.unknownInstruction w pc (programOffset pc)))) m.halt
  | some instruction =>
    match m.execute random instruction with
    | (.ok .done, m) => .finished (.ok ()) m.advance
    | (.ok (.waiting x), m) => .waiting x m
    -- Nothing that the instruction has done is taken back.
    | (.error (.fault fault), m) => .finished (.error (.fault fault)) m.halt
    | (.error (.trap trap), m) => .finished (.error (.trap trap)) m

def beginTick (m : Machine) (random : UInt8) : Turn :=
  match m.status with
  | .halted => .finished (.ok ()) m
  | .running =>
    -- The cycle counts even if the word turns out to be no instruction.
    let m := { m with cycle := m.cycle + 1 }
    match m.fetch with
    | .error abort => .finished (.error abort) m
    | .ok w => m.turn random w

/-- The end of a tick that waits, if the keypad allows it. -/
def wake? (x : Fin 16) (m : Machine) : Option (Except Abort Unit × Machine) :=
  match m.keypad.keyOrInterruption? with
  | none => none
  | some (.ok key) => some (.ok (), (m.withRegisters (m.registers.setV x key)).advance)
  | some (.error fault) => some (.error (.fault fault), m.halt)

/-- The instruction that the next tick executes, shown with its cycle and address. -/
def traceLine (m : Machine) (w : Word) : String :=
  escape "90" ++ padLeft 3 (Numeral.decimal (m.cycle + 1).toNat) ++ escape "39" ++ " " ++
    Numeral.hex .lower 3 m.registers.pc.toNat ++ ": " ++
    padRight 36 ((Palette.colored .terminal).once .terminal w) ++ "\n"

/-- What the next tick prints. -/
def traceText (m : Machine) : String :=
  if m.settings.debug ∧ m.status = .running then
    match m.fetch with
    | .ok w => m.traceLine w
    | .error _ => ""
  else ""

end Machine

/-! ### Sessions -/

/-- How a tick or a run ends. -/
inductive Outcome
  | done
  | failed (abort : Abort)
  /-- Waiting for a key, with no events left to come. -/
  | blocked
  /-- Still running after the number of ticks that was asked for. -/
  | unfinished
deriving DecidableEq, Repr

def Outcome.ofResult : Except Abort Unit → Outcome
  | .ok () => .done
  | .error abort => .failed abort

/-- A machine at work: the events that are still to come while it waits, the answers
to those that have come, and what has been printed. Events come in groups: the machine
looks at its keypad once before each group, and again when the last one has come. -/
structure Session where
  machine : Machine
  arrivals : List (List Machine.Event) := []
  answers : Array (Except Fault Keypad.Answer) := #[]
  printed : Array String := #[]

namespace Session

/-- One tick. While it waits for a key, events arrive; the groups that come after the
wait are left for later. A key that has been latched does not end the wait before the
next look, so an interruption in the same group comes before it. -/
def tick (s : Session) (random : UInt8) : Outcome × Session :=
  let line := s.machine.traceText
  let s := if line.isEmpty then s else { s with printed := s.printed.push line }
  match s.machine.beginTick random with
  | .finished result machine => (.ofResult result, { s with machine })
  | .waiting x machine =>
    let vigil := awaitResult (Machine.wake? x) (applyAll Machine.apply) machine s.arrivals
    let answers := s.answers ++ vigil.answers.flatten.toArray
    let s := { s with arrivals := vigil.rest, answers }
    match vigil.result with
    | some (result, machine) => (.ofResult result, { s with machine })
    | none => (.blocked, { s with machine := vigil.state })

end Session

end Chip8
