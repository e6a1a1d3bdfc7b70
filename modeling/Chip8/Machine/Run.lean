import Chip8.Machine.Tick

/-!
# Runs

A run ticks until the machine halts or is asked to stop. The request is noticed
between two ticks, or when it ends a wait for a key; either way the run ends
without a fault. What the run depends on from outside is a *world*: the random
bytes, and what happens between its ticks.
-/
namespace Chip8

structure World where
  /-- The byte that the tick of this number draws. -/
  random : Nat → UInt8
  /-- What happens right before the tick of this number. -/
  between : Nat → List Machine.Event := fun _ => []

namespace Session

/-- Lets events happen between two ticks. -/
def meet (s : Session) (events : List Machine.Event) : Session :=
  { s with machine := (applyAll Machine.apply s.machine events).2 }

/-- At most `count` ticks, the first of them with number `first`. They end with
the first one that is not done. -/
def ticks (world : World) : (count first : Nat) → Session → Outcome × Session
  | 0, _, s => (.done, s)
  | count + 1, first, s =>
    match (s.meet (world.between first)).tick (world.random first) with
    | (.done, s) => ticks world count (first + 1) s
    | (outcome, s) => (outcome, s)

/-- A run of at most `count` ticks, the first of them with number `first`. -/
def run (world : World) : (count first : Nat) → Session → Outcome × Session
  | 0, _, s => (.unfinished, s)
  | count + 1, first, s =>
    match s.machine.status with
    | .halted => (.done, s)
    | .running =>
      let s := s.meet (world.between first)
      if s.machine.stopRequested then (.done, { s with machine := s.machine.halt })
      else
        match s.tick (world.random first) with
        | (.done, s) => run world count (first + 1) s
        -- A wait that a stop request has cut short is not a fault of the program.
        | (.failed (.fault .interrupted), s) =>
          if s.machine.stopRequested then (.done, s) else (.failed (.fault .interrupted), s)
        | (outcome, s) => (outcome, s)

end Session

end Chip8
