import Chip8.Machine.Run
import Chip8.Proofs.Machine.Events

/-!
# Rounds

Ticks in a row and runs are made of the same rounds: the world acts, and then the
machine ticks. A run differs only in where it looks up: at the status before a
round, at the stop flag in the middle of it, and at the flag once more when the
round has ended with an interruption.
-/
namespace Chip8.Session

variable {world : World} {count first : Nat} {s t : Session} {outcome : Outcome}

/-- The session right before the tick of this number. -/
def before (s : Session) (world : World) (number : Nat) : Session :=
  s.meet (world.between number)

/-- What the world does before the tick of this number, and the tick. -/
def round (s : Session) (world : World) (number : Nat) : Outcome × Session :=
  (s.before world number).tick (world.random number)

theorem status_before (s : Session) (world : World) (number : Nat) :
    (s.before world number).machine.status = s.machine.status :=
  (Machine.sameInside_after s.machine (world.between number)).status

theorem round_cases (s : Session) (world : World) (number : Nat) :
    (∃ t, s.round world number = (.done, t)) ∨
      ∃ outcome t, s.round world number = (outcome, t) ∧ outcome ≠ .done := by
  cases round : s.round world number with
  | mk outcome t =>
    by_cases done : outcome = .done
    · rw [done]
      exact Or.inl ⟨t, rfl⟩
    · exact Or.inr ⟨outcome, t, rfl, done⟩

/-! ### Ticks -/

theorem ticks_of_done (done : s.round world first = (.done, t)) :
    ticks world (count + 1) first s = ticks world count (first + 1) t := by
  unfold round before at done
  rw [ticks, done]

theorem ticks_of_ended (ended : s.round world first = (outcome, t)) (last : outcome ≠ .done) :
    ticks world (count + 1) first s = (outcome, t) := by
  unfold round before at ended
  rw [ticks, ended]
  cases outcome with
  | done => exact absurd rfl last
  | _ => rfl

/-! ### Runs -/

theorem run_of_halted (halted : s.machine.status = .halted) :
    run world (count + 1) first s = (.done, s) := by
  simp only [run, halted]

theorem run_of_running (running : s.machine.status = .running) :
    run world (count + 1) first s =
      if (s.before world first).machine.stopRequested then
        (.done, { s.before world first with machine := (s.before world first).machine.halt })
      else
        match s.round world first with
        | (.done, s) => run world count (first + 1) s
        | (.failed (.fault .interrupted), s) =>
          if s.machine.stopRequested then (.done, s) else (.failed (.fault .interrupted), s)
        | (outcome, s) => (outcome, s) := by
  simp only [run, running]
  rfl

theorem run_of_stopped (running : s.machine.status = .running)
    (stopped : (s.before world first).machine.stopRequested = true) :
    run world (count + 1) first s =
      (.done, { s.before world first with machine := (s.before world first).machine.halt }) := by
  rw [run_of_running running, if_pos stopped]

theorem run_of_done (running : s.machine.status = .running)
    (unstopped : (s.before world first).machine.stopRequested = false)
    (done : s.round world first = (.done, t)) :
    run world (count + 1) first s = run world count (first + 1) t := by
  rw [run_of_running running, unstopped, done]
  rfl

/-- A wait that a stop request has cut short ends the run without a fault. -/
theorem run_of_cut (running : s.machine.status = .running)
    (unstopped : (s.before world first).machine.stopRequested = false)
    (cut : s.round world first = (.failed (.fault .interrupted), t))
    (stopped : t.machine.stopRequested = true) :
    run world (count + 1) first s = (.done, t) := by
  rw [run_of_running running, unstopped, cut]
  simp only [Bool.false_eq_true, if_false, stopped, if_true]

theorem run_of_ended (running : s.machine.status = .running)
    (unstopped : (s.before world first).machine.stopRequested = false)
    (ended : s.round world first = (outcome, t)) (last : outcome ≠ .done)
    (uncut : outcome = .failed (.fault .interrupted) → t.machine.stopRequested = false) :
    run world (count + 1) first s = (outcome, t) := by
  rw [run_of_running running, unstopped, ended]
  simp only [Bool.false_eq_true, if_false]
  split
  next same =>
    cases same
    exact absurd rfl last
  next same =>
    cases same
    rw [uncut rfl]
    rfl
  next same => exact same ▸ rfl

/-- Whatever ends a run after a tick, the run leaves what the tick has left. -/
theorem run_cases_of_ended (running : s.machine.status = .running)
    (unstopped : (s.before world first).machine.stopRequested = false)
    (ended : s.round world first = (outcome, t)) (last : outcome ≠ .done) :
    run world (count + 1) first s = (outcome, t) ∨ run world (count + 1) first s = (.done, t) := by
  by_cases interrupted : outcome = .failed (.fault .interrupted)
  · cases stopped : t.machine.stopRequested with
    | true =>
      rw [interrupted] at ended
      exact Or.inr (run_of_cut running unstopped ended stopped)
    | false => exact Or.inl (run_of_ended running unstopped ended last fun _ => stopped)
  · exact Or.inl (run_of_ended running unstopped ended last fun same => absurd same interrupted)

/-- What events, ticks and the end of a run keep, a run keeps. -/
theorem run_induction {P : Machine → Prop} (world : World)
    (apply : ∀ m event, P m → P (m.apply event).2) (halt : ∀ m, P m → P m.halt)
    (tick : ∀ s random, P s.machine → P (tick s random).2.machine)
    (count first : Nat) {s : Session} (holds : P s.machine) :
    P (run world count first s).2.machine := by
  -- A run halts by itself only after a look at the flag; all else is done by its rounds.
  induction count generalizing first s with
  | zero => exact holds
  | succ count ih =>
    cases running : s.machine.status with
    | halted =>
      rw [run_of_halted running]
      exact holds
    | running =>
      have met : P (s.before world first).machine := Machine.after_induction apply _ holds
      have ticked : P (s.round world first).2.machine := tick _ _ met
      cases stopped : (s.before world first).machine.stopRequested with
      | true =>
        rw [run_of_stopped running stopped]
        exact halt _ met
      | false =>
        rcases s.round_cases world first with ⟨t, round⟩ | ⟨outcome, t, round, last⟩
        · rw [round] at ticked
          rw [run_of_done running stopped round]
          exact ih (first + 1) ticked
        · rw [round] at ticked
          rcases run_cases_of_ended running stopped round last with same | finished
          · rw [same]
            exact ticked
          · rw [finished]
            exact ticked

end Chip8.Session
