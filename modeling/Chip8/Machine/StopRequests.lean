import Chip8.Interleaving
import Chip8.Machine.Tick

/-!
# Stop requests against runs and resets

A request to stop changes two cells, the stop flag and then the keypad, and a run
or a reset on another thread may act in between. Here a run and a reset are cut
into the steps that others can come between, and an interleaving is a list of
actions that the state admits one after the other. Keys are pressed and released
during a run, and the timers count down.
-/
namespace Chip8

/-! ### A run -/

namespace StopDuringRun

/-- Where the run stands. -/
inductive Phase
  /-- About to look at the status and at the stop flag. -/
  | head
  /-- Past the stop flag, about to begin a tick. -/
  | ticking
  /-- In a tick, waiting for a key. -/
  | waiting (x : Fin 16)
  /-- After an interrupted tick, about to look at the stop flag. -/
  | interrupted
  | returned (result : Except Abort Unit)

/-- Where a tick leads that ended with a result. -/
def Phase.ofResult : Except Abort Unit → Phase
  | .ok () => .head
  | .error (.fault .interrupted) => .interrupted
  | .error abort => .returned (.error abort)

structure State where
  machine : Machine
  phase : Phase := .head
  /-- Stop requests that have set the flag and not yet interrupted the keypad. -/
  owed : Nat := 0
  /-- Presses that have marked their key and not yet offered it. -/
  offers : List Key := []
  /-- The number of ticks begun. -/
  begun : Nat := 0

inductive Action
  | run (random : UInt8)
  | raiseStop
  | interruptKeypad
  | press (key : Key)
  | offer (key : Key)
  | release (key : Key)
  | countDown (timer : Machine.TimerName)
deriving DecidableEq, Repr

/-- One step of the run, unless it is blocked or has returned. -/
def State.runStep? (s : State) (random : UInt8) : Option State :=
  match s.phase with
  | .head =>
    match s.machine.status with
    | .halted => some { s with phase := .returned (.ok ()) }
    | .running =>
      if s.machine.stopRequested then
        some { s with machine := s.machine.halt, phase := .returned (.ok ()) }
      else some { s with phase := .ticking }
  | .ticking =>
    match s.machine.beginTick random with
    | .finished result machine =>
      some { s with machine, phase := .ofResult result, begun := s.begun + 1 }
    | .waiting x machine => some { s with machine, phase := .waiting x, begun := s.begun + 1 }
  | .waiting x =>
    (Machine.wake? x s.machine).map fun (result, machine) =>
      { s with machine, phase := .ofResult result }
  | .interrupted =>
    let result := if s.machine.stopRequested then .ok () else .error (.fault .interrupted)
    some { s with phase := .returned result }
  | .returned _ => none

def State.withKeypad (s : State) (keypad : Keypad) : State :=
  { s with machine := { s.machine with keypad } }

/-- One step, if the action can be taken. -/
def State.step? (s : State) : Action → Option State
  | .run random => s.runStep? random
  | .raiseStop => some { s with machine := s.machine.raiseStop, owed := s.owed + 1 }
  | .interruptKeypad =>
    if 0 < s.owed then
      some { s with machine := s.machine.interruptKeypad, owed := s.owed - 1 }
    else none
  | .press key =>
    let (changed, keypad) := s.machine.keypad.markHeld key
    some { s.withKeypad keypad with offers := if changed then key :: s.offers else s.offers }
  | .offer key =>
    if s.offers.contains key then
      some { s.withKeypad (s.machine.keypad.offer key) with offers := s.offers.erase key }
    else none
  | .release key => some (s.withKeypad (s.machine.keypad.markFree key).2)
  | .countDown timer => some { s with machine := (s.machine.apply (.countDown timer)).2 }

/-- The state after a list of actions, if each can be taken in its turn. -/
def State.run? (s : State) (actions : List Action) : Option State :=
  replay? State.step? s actions

end StopDuringRun

/-! ### A reset -/

namespace StopDuringReset

structure State where
  machine : Machine
  /-- The steps that the reset still has to take. -/
  remaining : List Machine.ResetStep := Machine.resetSteps
  /-- Stop requests that have set the flag and not yet interrupted the keypad. -/
  owed : Nat := 0

inductive Action
  | reset
  | raiseStop
  | interruptKeypad
deriving DecidableEq, Repr

/-- One step, if the action can be taken. -/
def State.step? (s : State) : Action → Option State
  | .reset =>
    match s.remaining with
    | [] => none
    | step :: rest => some { s with machine := s.machine.resetStep step, remaining := rest }
  | .raiseStop => some { s with machine := s.machine.raiseStop, owed := s.owed + 1 }
  | .interruptKeypad =>
    if 0 < s.owed then
      some { s with machine := s.machine.interruptKeypad, owed := s.owed - 1 }
    else none

/-- The state after a list of actions, if each can be taken in its turn. -/
def State.run? (s : State) (actions : List Action) : Option State :=
  replay? State.step? s actions

/-- Everything that was begun has come to its end. -/
def State.completed (s : State) : Bool := s.remaining.isEmpty && s.owed == 0

end StopDuringReset

end Chip8
