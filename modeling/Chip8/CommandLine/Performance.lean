import Chip8.Machine.Idling
import Chip8.Machine.Run
import Chip8.Timer.Schedule

/-!
# Performances

A run against a clock, without anyone at the keypad. Time passes at each
instruction, by an amount that is the same for all of them, and during a wait for
a key, which only a request to stop can end. The machine works in short *slices*;
between two of them the clocks of the timers do what is due. Where the machine
waits or idles, nothing happens before the next deadline, so the time until then
is left out.
-/
namespace Chip8

/-- How time passes, in nanoseconds. -/
structure Tempo where
  /-- From one instruction to the next. -/
  stride : Nat
  /-- How late the host wakes a thread. -/
  wakeDelay : Nat
  /-- What a slice may take. -/
  sliceLength : Nat
  /-- When the machine is asked to stop. -/
  stopTime : Option Nat := none
deriving DecidableEq, Repr

/-- Instructions in a slice. -/
def Tempo.sliceTicks (t : Tempo) : Nat := max 1 (t.sliceLength / t.stride)

structure Performance where
  session : Session
  now : Nat := 0
  /-- The deadlines of the clocks that count. -/
  delay : Option Nat := none
  sound : Option Nat := none
  /-- Whether the machine waits for a key. -/
  waiting : Bool := false

namespace Performance

/-- Lets both clocks do what is due by `now`. A clock that parks can wake from
`waking` on. -/
def attend (p : Performance) (waking now : Nat) : Performance :=
  let m := p.session.machine
  let period := m.settings.period.nanoseconds
  let (delayDeadline, delay) := m.delay.attend period waking now p.delay
  let (soundDeadline, sound) := m.sound.attend period waking now p.sound
  { p with
    session.machine := { m with delay, sound }
    now
    delay := delayDeadline
    sound := soundDeadline }

/-- Lets an amount of time pass. -/
def pass (p : Performance) (t : Tempo) (amount : Nat) : Performance :=
  p.attend (p.now + min amount t.wakeDelay) (p.now + amount)

/-- The earlier of two moments, as far as there are any. -/
def earlier : Option Nat → Option Nat → Option Nat
  | some a, some b => some (min a b)
  | some a, none => some a
  | none, b => b

/-- The next moment at which anything happens to a machine that does nothing. -/
def nextMoment (p : Performance) (t : Tempo) : Option Nat :=
  earlier t.stopTime (earlier p.delay p.sound)

def late (p : Performance) (t : Tempo) : Bool :=
  match t.stopTime with
  | some stop => stop ≤ p.now
  | none => false

/-- Stops the machine, whether it waits for a key or not. -/
def stop (p : Performance) : Performance :=
  { p with session.machine := p.session.machine.stop.halt }

/-- The machine that makes rounds after a while, and the round. A machine that
shows what it executes does not idle. -/
def idle? (p : Performance) (t : Tempo) : Option (Machine × Round) :=
  let m := p.session.machine
  if m.settings.debug then none else m.idle? (t.sliceTicks / 4)

/-- Whether a clock without a deadline is about to find that there is a value. -/
def awakens (p : Performance) (m : Machine) : Bool :=
  (p.delay.isNone && m.delay.value != 0) || (p.sound.isNone && m.sound.value != 0)

/-- Lets the machine become another one, which takes the time of the ticks between. -/
def become (t : Tempo) (m : Machine) (p : Performance) : Performance :=
  { p with
    session.machine := m
    now := p.now + (m.cycle - p.session.machine.cycle).toNat * t.stride }

/-- How a slice ends. -/
inductive Progress
  | ended (outcome : Outcome) (p : Performance)
  | goesOn (p : Performance)
  /-- Nothing will ever happen again. -/
  | stuck

/-- Lets the machine work for a slice. The cycle tells the number of its next tick. -/
def work (t : Tempo) (random : Nat → UInt8) (p : Performance) : Progress :=
  let first := p.session.machine.cycle.toNat
  let (outcome, session) := Session.run { random } t.sliceTicks first p.session
  let ticks := (session.machine.cycle - p.session.machine.cycle).toNat
  let p := { p with session }
  match outcome with
  | .unfinished => .goesOn (p.pass t (ticks * t.stride))
  -- The tick that waits or ends the run has no pause behind it.
  | .blocked => .goesOn { p.pass t ((ticks - 1) * t.stride) with waiting := true }
  | outcome => .ended outcome (p.pass t ((ticks - 1) * t.stride))

/-- One slice, or the time until something happens. -/
def slice (t : Tempo) (random : Nat → UInt8) (p : Performance) : Progress :=
  if p.late t then .ended .done p.stop
  else if p.waiting then
    match p.nextMoment t with
    | some moment => .goesOn (p.attend moment moment)
    | none => .stuck
  else
    match p.idle? t with
    | none => p.work t random
    | some (idle, round) =>
      if p.awakens idle then p.work t random
      else
        match p.nextMoment t with
        | some moment =>
          let time := moment - (p.become t idle).now
          let rounds := time / (t.stride * round.ticks)
          if rounds = 0 then p.work t random
          else .goesOn (p.become t (idle.later (round.times rounds)))
        | none => .stuck

/-- Goes on until the run ends, for about `budget` ticks. -/
def perform (t : Tempo) (random : Nat → UInt8) (budget : Nat) (p : Performance) :
    Option (Outcome × Performance) :=
  if budget = 0 then none
  else
    match p.slice t random with
    | .ended outcome p => some (outcome, p)
    | .goesOn p => perform t random (budget - t.sliceTicks) p
    | .stuck => none
termination_by budget
decreasing_by
  have some : 1 ≤ t.sliceTicks := Nat.le_max_left _ _
  omega

end Performance

end Chip8
