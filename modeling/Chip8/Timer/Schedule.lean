import Chip8.Timer

/-!
# Timers in time

A clock that wakes begins a period at that moment. Each period ends at a deadline
and the next one follows it at once, until the clock finds a value of zero and
parks. A value that is set meanwhile leaves the deadline where it is. Moments and
periods are counted in nanoseconds.
-/
namespace Chip8.Timer

/-- Lets the periods end whose deadlines are not after `now`. Each of them takes
one off the value, so there are at most as many as the value says. -/
def countUntil (period now : Nat) : (count deadline : Nat) → Timer → Option Nat × Timer
  | 0, deadline, t => (some deadline, t)
  | count + 1, deadline, t =>
    if now < deadline then (some deadline, t)
    else if t.elapse.phase = .sleeping then countUntil period now count (deadline + period) t.elapse
    else (none, t.elapse)

/-- The deadline of a clock that has none: it has one if it wakes at `moment` and
finds a value. -/
def begin (period moment : Nat) (t : Timer) : Option Nat × Timer :=
  (if t.settle.phase = .sleeping then some (moment + period) else none, t.settle)

/-- What a clock does up to `now`, which is not before it can wake. The deadline is
that of its current period. -/
def attend (period waking now : Nat) (deadline : Option Nat) (t : Timer) : Option Nat × Timer :=
  let (deadline, t) :=
    match deadline with
    | some _ => (deadline, t)
    | none => t.begin period waking
  match deadline with
  | some deadline => countUntil period now (t.value.toNat + 1) deadline t
  | none => (none, t)

end Chip8.Timer
