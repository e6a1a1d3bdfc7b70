import Chip8.Interleaving
import Chip8.Timer

/-!
# A timer under every interleaving

The host sets, reads, observes and cancels while the clock takes its own steps.
What needs the lock has to wait while the clock holds it. A cancellation stores
its request under the lock and notifies the clock later, so both are actions of
their own. An idle clock may also wake without a notification, and then finds out
for itself whether there is anything to do. Whether a period has ended is left open
at every step of the clock.
-/
namespace Chip8.Timer

/-- A timer together with the cancellations that still owe their notification. -/
structure Shared where
  timer : Timer
  owed : Nat := 0
deriving DecidableEq, Repr

inductive Action
  | set (value : UInt8)
  | get
  | observe (id : Nat)
  | requestStop
  | notifyStop
  /-- An idle clock wakes without a reason. -/
  | stir
  | clock (late : Bool)
deriving DecidableEq, Repr

/-- Whether the clock lets others have the lock. -/
def Shared.unlocked (s : Shared) : Bool := s.timer.phase ≠ .testing

/-- One step, if the action can be taken. -/
def Shared.step? (s : Shared) : Action → Option Shared
  | .set value => if s.unlocked then some { s with timer := s.timer.set value } else none
  | .get => if s.unlocked then some s else none
  | .observe id => if s.unlocked then some { s with timer := s.timer.observe id } else none
  | .requestStop =>
    if s.unlocked then some { timer := s.timer.requestStop, owed := s.owed + 1 } else none
  | .notifyStop =>
    if 0 < s.owed then some { timer := s.timer.notify, owed := s.owed - 1 } else none
  | .stir => some { s with timer := s.timer.notify }
  | .clock late => some { s with timer := s.timer.clockStep late }

/-- The state after a list of actions, if each can be taken in its turn. -/
def Shared.run? (s : Shared) (actions : List Action) : Option Shared :=
  replay? Shared.step? s actions

/-- Whether the clock itself changes the value with this action. -/
def Shared.decrements (s : Shared) : Action → Bool
  | .clock late => (s.timer.clockStep late).value ≠ s.timer.value
  | _ => false

end Chip8.Timer
