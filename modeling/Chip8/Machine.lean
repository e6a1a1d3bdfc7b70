import Chip8.Registers
import Chip8.Screen
import Chip8.Keypad
import Chip8.Timer
import Chip8.Numeral.Duration

/-!
# The machine

A machine is its memory, screen, registers, two timers and keypad, together with
whether it still runs, how many instructions it has begun, and whether somebody
has asked it to stop. Its settings are part of it and never change what it
computes.
-/
namespace Chip8

/-- Whether instructions are still executed. Only a reset leaves `halted`. -/
inductive Status
  | running
  | halted
deriving DecidableEq, Repr

namespace Status

def all : List Status := [.running, .halted]

def name : Status → String
  | .running => "Running"
  | .halted => "Halted"

end Status

/-- The nominal period of the timers, a sixtieth of a second. -/
def timerPeriod : Duration := ⟨1000000000 / 60⟩

structure Settings where
  /-- Whether each instruction is shown before it is executed. -/
  debug : Bool := false
  /-- The pause between instructions. -/
  pace : Option Duration := none
  period : Duration := timerPeriod
deriving DecidableEq, Repr

structure Machine where
  settings : Settings := { }
  memory : Memory := Memory.initial
  screen : Screen := Screen.blank
  registers : Registers := Registers.initial
  delay : Timer := Timer.start "delay"
  sound : Timer := Timer.start "sound"
  keypad : Keypad := Keypad.initial
  status : Status := .running
  cycle : UInt64 := 0
  stopRequested : Bool := false
deriving DecidableEq, Repr

namespace Machine

/-- A machine with nothing but the glyphs in memory. -/
def new (settings : Settings) : Machine := { settings }

/-! ### Requests of a host -/

def withMemory (m : Machine) (memory : Memory) : Machine := { m with memory }

/-- Clears the program region and loads a program there. A program that does not fit
leaves the region cleared. -/
def loadProgram (m : Machine) (program : List UInt8) : Attempt Machine Unit :=
  -- The old program goes first, so a refused one leaves nothing of it behind.
  ((m.memory.clearRegion .program).andThen fun _ memory =>
    memory.loadRegion .program program).within m.withMemory

def setRegister (m : Machine) (register : Nat) (value : UInt8) : Attempt Machine Unit :=
  if known : register < 16 then
    (.ok (), { m with registers := m.registers.setV ⟨register, known⟩ value })
  else (.error (.fault (.invalidRegister register)), m)

def setPc (m : Machine) (pc : Word) : Machine :=
  { m with registers.pc := wrapAddress pc }

def setIndex (m : Machine) (i : Word) : Machine :=
  { m with registers.i := i }

def updateMemory (m : Machine) (update : Memory.Update) : Attempt Machine Unit :=
  (m.memory.update update).within m.withMemory

def toggleDebug (m : Machine) : Machine :=
  { m with settings.debug := !m.settings.debug }

/-- Installs an observer of the sound timer. -/
def observeTone (m : Machine) (id : Nat) : Machine :=
  { m with sound := m.sound.observe id }

/-- Stops both clocks and waits for them; the timers keep their values. -/
def shutdown (m : Machine) : Machine :=
  { m with delay := m.delay.cancel, sound := m.sound.cancel }

/-! ### Stopping -/

/-- The first half of a request to stop. -/
def raiseStop (m : Machine) : Machine := { m with stopRequested := true }

/-- The second half of a request to stop, which ends a wait for a key. -/
def interruptKeypad (m : Machine) : Machine := { m with keypad := m.keypad.interrupt }

def stop (m : Machine) : Machine := m.raiseStop.interruptKeypad

def halt (m : Machine) : Machine := { m with status := .halted }

/-! ### Reset -/

/-- The parts of a reset, each of them one step for everybody else. -/
inductive ResetStep
  | registers
  | delay
  | sound
  | releaseKey (key : Key)
  | latch
  | screen
  | status
  | stopRequest
  | cycle
deriving DecidableEq, Repr

def resetStep (m : Machine) : ResetStep → Machine
  | .registers => { m with registers := Registers.initial }
  | .delay => { m with delay := m.delay.set 0 }
  | .sound => { m with sound := m.sound.set 0 }
  | .releaseKey key => { m with keypad := (m.keypad.markFree key).2 }
  | .latch => { m with keypad := m.keypad.clearLatch }
  | .screen => { m with screen := m.screen.clear }
  | .status => { m with status := .running }
  | .stopRequest => { m with stopRequested := false }
  | .cycle => { m with cycle := 0 }

/-- The order in which a reset goes through its parts. -/
def resetSteps : List ResetStep :=
  [.registers, .delay, .sound] ++ (List.finRange 16).map .releaseKey ++
    [.latch, .screen, .status, .stopRequest, .cycle]

/-- Makes the machine ready to run again, with its memory as it is. -/
def reset (m : Machine) : Machine := resetSteps.foldl resetStep m

theorem foldl_releaseKey (m : Machine) (keys : List Key) :
    (keys.map .releaseKey).foldl resetStep m = { m with keypad := m.keypad.freeAll keys } := by
  induction keys generalizing m with
  | nil => rfl
  | cons key rest ih =>
    simp only [List.map_cons, List.foldl_cons]
    rw [ih]
    rfl

/-- What a reset comes to once all its parts are done. -/
theorem reset_eq (m : Machine) : m.reset =
    { m with
      registers := Registers.initial
      delay := m.delay.set 0
      sound := m.sound.set 0
      keypad := Keypad.initial
      screen := m.screen.clear
      status := .running
      stopRequested := false
      cycle := 0 } := by
  have keypad := m.keypad.reset_eq
  simp only [Keypad.reset] at keypad
  simp only [reset, resetSteps, List.foldl_append, foldl_releaseKey, List.foldl_cons,
    List.foldl_nil, resetStep, keypad]

/-! ### What others do while the machine is busy -/

inductive TimerName
  | delay
  | sound
deriving DecidableEq, Repr

/-- Events from outside: someone uses the keypad or asks for a stop, or a clock
takes one off its timer. -/
inductive Event
  | keypad (event : Keypad.Event)
  | stop
  | countDown (timer : TimerName)
deriving DecidableEq, Repr

def apply (m : Machine) : Event → Except Fault Keypad.Answer × Machine
  | .keypad event =>
    let (answer, keypad) := m.keypad.apply event
    (answer, { m with keypad })
  | .stop => (.ok .done, m.stop)
  | .countDown .delay => (.ok .done, { m with delay := m.delay.countDown })
  | .countDown .sound => (.ok .done, { m with sound := m.sound.countDown })

/-- Lets both clocks go on within their periods. -/
def settleClocks (m : Machine) : Machine :=
  { m with delay := m.delay.settle, sound := m.sound.settle }

end Machine

end Chip8
