/-!
# Timers

A timer counts a byte down to zero on a clock of its own. The clock sleeps while
the value is zero; a value that is set wakes it. It then announces that the timer
is active, waits for the end of each period, takes one off the value, and
announces the end when zero is reached. Announcements go to the observer that is
installed at that moment.

The clock holds the timer's lock only while it tests the value. Its other phases
are the points where it has let go of the lock and where others may act.
-/
namespace Chip8

/-- Where a clock stands between two of its steps. -/
inductive ClockPhase
  /-- About to take the lock. -/
  | ready
  /-- Holding the lock. -/
  | testing
  /-- About to announce that the timer is active, or that it no longer is. -/
  | announcing (active : Bool)
  /-- Idle until the next notification. -/
  | parked (notified : Bool)
  /-- Waiting for the end of the period. -/
  | sleeping
  | exited
deriving DecidableEq, Repr

/-- The phase after a notification, which only an idle clock takes note of. -/
def ClockPhase.notified : ClockPhase → ClockPhase
  | .parked _ => .parked true
  | phase => phase

/-- An observer, under the name its host has given it and its place in the order
of installation, which no other observer of the timer has. -/
structure Observer where
  id : Nat
  serial : Nat
deriving DecidableEq, Repr

structure Timer where
  name : String
  value : UInt8 := 0
  active : Bool := false
  stopped : Bool := false
  observer : Option Observer := none
  /-- The number of observers that have ever been installed. -/
  installed : Nat := 0
  /-- Everything that observers have heard, oldest first. -/
  heard : List (Observer × Bool) := []
  phase : ClockPhase := .ready
  /-- Whether the clock has not been waited for yet. -/
  running : Bool := true
deriving DecidableEq, Repr

namespace Timer

def start (name : String) : Timer := { name }

/-! ### Single steps -/

/-- Wakes the clock if it is idle. -/
def notify (t : Timer) : Timer := { t with phase := t.phase.notified }

/-- Lets the installed observer hear something. -/
def tell (t : Timer) (active : Bool) : Timer :=
  { t with heard := t.heard ++ t.observer.toList.map fun observer => (observer, active) }

/-- Sets the value and wakes the clock. -/
def set (t : Timer) (value : UInt8) : Timer :=
  { t with value }.notify

/-- Replaces the observer. The new one hears at once if the timer is active. -/
def observe (t : Timer) (id : Nat) : Timer :=
  let t := { t with observer := some ⟨id, t.installed⟩, installed := t.installed + 1 }
  if t.active then t.tell true else t

/-- Takes one off the value, unless it is zero. -/
def countDown (t : Timer) : Timer :=
  { t with value := if t.value = 0 then 0 else t.value - 1 }

/-- Asks the clock to exit. -/
def requestStop (t : Timer) : Timer := { t with stopped := true }

/-- One step of the clock. `late` tells whether the period has ended by now. -/
def clockStep (late : Bool) (t : Timer) : Timer :=
  match t.phase with
  | .ready => { t with phase := .testing }
  | .testing =>
    if t.stopped then { t with phase := .exited }
    else if t.value = 0 then
      if t.active then { t with phase := .announcing false }
      else { t with phase := .parked false }
    else if !t.active then { t with phase := .announcing true }
    -- The lock is kept here: the value that is left is tested at once.
    else if late then { t with value := t.value - 1 }
    else { t with phase := .sleeping }
  | .announcing active => { { t with active }.tell active with phase := .ready }
  | .parked notified => if notified then { t with phase := .ready } else t
  -- A value that is set does not end the period early; only a stop does.
  | .sleeping => if late || t.stopped then { t with phase := .ready } else t
  | .exited => t

/-! ### Undisturbed clocks -/

/-- Steps of the clock within a period. -/
def clockSteps (late : Bool) : Nat → Timer → Timer
  | 0, t => t
  | n + 1, t => clockSteps late n (t.clockStep late)

/-- Lets the clock go on until it parks, sleeps or exits. From any phase that
takes at most eight steps. -/
def settle (t : Timer) : Timer := clockSteps false 8 t

/-- Lets one period end: a sleeping clock wakes, takes one off a value that is
not zero, and goes on. -/
def elapse (t : Timer) : Timer := (clockSteps true 3 t).settle

/-- Lets a number of periods end. -/
def elapseMany : Nat → Timer → Timer
  | 0, t => t
  | n + 1, t => elapseMany n t.elapse

/-- Asks the clock to exit and waits until it has. -/
def cancel (t : Timer) : Timer :=
  { t.requestStop.notify.settle with running := false }

end Timer

end Chip8
