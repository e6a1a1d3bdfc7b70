import Chip8.Interleaving
import Chip8.Keypad

/-!
# The rendezvous of one waiter with many pressers

A press is two steps, the mark on the key and the offer to the latch, and other
parties may act in between. A wait is the clearing of the latch followed by looks
at it, any number of which may find nothing. Every interleaving of these steps is
a list of actions that the state admits one after the other.
-/
namespace Chip8.Rendezvous

/-- Where the one who waits stands. -/
inductive Waiter
  | idle
  | waiting
  | returned (result : Except Fault UInt8)

structure State where
  keypad : Keypad
  /-- Presses that have marked their key and not yet offered it. -/
  offers : List Key := []
  waiter : Waiter := .idle

inductive Action
  | press (key : Key)
  | offer (key : Key)
  | release (key : Key)
  | interrupt
  | arm
  | look
deriving DecidableEq, Repr

/-- One step, if the action can be taken. -/
def State.step? (s : State) : Action → Option State
  | .press key =>
    let (changed, keypad) := s.keypad.markHeld key
    some { s with keypad, offers := if changed then key :: s.offers else s.offers }
  | .offer key =>
    if s.offers.contains key then
      some { s with keypad := s.keypad.offer key, offers := s.offers.erase key }
    else none
  | .release key => some { s with keypad := (s.keypad.markFree key).2 }
  | .interrupt => some { s with keypad := s.keypad.interrupt }
  | .arm =>
    match s.waiter with
    | .idle => some { s with keypad := s.keypad.arm, waiter := .waiting }
    | _ => none
  | .look =>
    match s.waiter with
    | .waiting =>
      match s.keypad.keyOrInterruption? with
      | some result => some { s with waiter := .returned result }
      | none => some s
    | _ => none

/-- The state after a list of actions, if each can be taken in its turn. -/
def State.run? (s : State) (actions : List Action) : Option State :=
  replay? State.step? s actions

end Chip8.Rendezvous
