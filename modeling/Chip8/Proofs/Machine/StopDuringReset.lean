import Chip8.Proofs.Machine.StopDuringRun

/-!
# Stop requests during a reset

A request raises the stop flag and then interrupts the keypad. A reset takes both back,
but in the same order as its own parts come: first the latch of the keypad and later the
flag. So an interruption stays if it comes after the latch has been cleared, while the
flag stays up only if it is raised after it has been lowered. A request that has raised
the flag before the latter and interrupts the keypad after the former is kept by half:
nobody sees a request any more, and yet the next wait for a key will fail.

It is the only way in which the two can come apart.
-/
namespace Chip8.StopDuringReset

variable {s t u : State} {action : Action} {actions : List Action}
  {step : Machine.ResetStep} {done rest : List Machine.ResetStep}

/-! ### Single steps -/

theorem reset_step (taken : s.step? .reset = some t) :
    ∃ step rest, s.remaining = step :: rest ∧
      t = { s with machine := s.machine.resetStep step, remaining := rest } := by
  simp only [State.step?] at taken
  split at taken
  next => cases taken
  next step rest remaining =>
    cases taken
    exact ⟨step, rest, remaining, rfl⟩

theorem interruptKeypad_step (taken : s.step? .interruptKeypad = some t) :
    0 < s.owed ∧ t = { s with machine := s.machine.interruptKeypad, owed := s.owed - 1 } := by
  simp only [State.step?] at taken
  split at taken
  next owed =>
    cases taken
    exact ⟨owed, rfl⟩
  next => cases taken

/-- Only the reset has fewer parts to do after a step, by the first of them. -/
theorem remaining_step (taken : s.step? action = some t) :
    t.remaining = s.remaining ∨ action = .reset ∧ ∃ step, s.remaining = step :: t.remaining := by
  cases action with
  | reset =>
    obtain ⟨step, rest, remaining, rfl⟩ := reset_step taken
    exact Or.inr ⟨rfl, step, remaining⟩
  | raiseStop =>
    cases taken
    exact Or.inl rfl
  | interruptKeypad =>
    obtain ⟨owed, rfl⟩ := interruptKeypad_step taken
    exact Or.inl rfl

/-! ### What the flags remember -/

theorem stopRequested_step (past : .stopRequest ∉ s.remaining) (taken : s.step? action = some t) :
    t.machine.stopRequested = (s.machine.stopRequested || decide (action = .raiseStop)) := by
  cases action with
  | reset =>
    obtain ⟨step, rest, remaining, rfl⟩ := reset_step taken
    rw [remaining, List.mem_cons, not_or] at past
    cases step with
    | stopRequest => exact absurd rfl past.1
    | _ => simp [Machine.resetStep]
  | raiseStop =>
    cases taken
    simp [Machine.raiseStop]
  | interruptKeypad =>
    obtain ⟨owed, rfl⟩ := interruptKeypad_step taken
    simp [Machine.interruptKeypad]

theorem interrupted_step (past : .latch ∉ s.remaining) (taken : s.step? action = some t) :
    t.machine.keypad.latch.interrupted =
      (s.machine.keypad.latch.interrupted || decide (action = .interruptKeypad)) := by
  cases action with
  | reset =>
    obtain ⟨step, rest, remaining, rfl⟩ := reset_step taken
    rw [remaining, List.mem_cons, not_or] at past
    cases step with
    | latch => exact absurd rfl past.1
    | _ => simp [Machine.resetStep, Keypad.markFree]
  | raiseStop =>
    cases taken
    simp [Machine.raiseStop]
  | interruptKeypad =>
    obtain ⟨owed, rfl⟩ := interruptKeypad_step taken
    simp [Machine.interruptKeypad, Keypad.interrupt]

/-- Once the reset has lowered a flag, the flag is up if somebody raises it. -/
theorem flag_run (flag : Machine → Bool) {raise : Action} {lower : Machine.ResetStep}
    (raises : ∀ s action t, lower ∉ s.remaining → State.step? s action = some t →
      flag t.machine = (flag s.machine || decide (action = raise)))
    (past : lower ∉ s.remaining) (ran : s.run? actions = some t) :
    flag t.machine = (flag s.machine || decide (raise ∈ actions)) := by
  induction actions generalizing s with
  | nil =>
    cases ran
    simp
  | cons action rest ih =>
    obtain ⟨u, taken, later⟩ := replay?_cons.mp ran
    -- Steps of the reset are never put back.
    have still : lower ∉ u.remaining := by
      rcases remaining_step taken with same | ⟨_, step, fewer⟩
      · rw [same]
        exact past
      · rw [fewer, List.mem_cons, not_or] at past
        exact past.2
    rw [ih still later, raises s action u past taken]
    simp [Bool.or_assoc, eq_comm]

theorem stopRequested_run (past : .stopRequest ∉ s.remaining) (ran : s.run? actions = some t) :
    t.machine.stopRequested = (s.machine.stopRequested || decide (.raiseStop ∈ actions)) :=
  flag_run (·.stopRequested) (fun _ _ _ => stopRequested_step) past ran

theorem interrupted_run (past : .latch ∉ s.remaining) (ran : s.run? actions = some t) :
    t.machine.keypad.latch.interrupted =
      (s.machine.keypad.latch.interrupted || decide (.interruptKeypad ∈ actions)) :=
  flag_run (·.keypad.latch.interrupted) (fun _ _ _ => interrupted_step) past ran

/-- As long as nobody interrupts the keypad, every request is owed its second half. -/
theorem owed_run (none : .interruptKeypad ∉ actions) (ran : s.run? actions = some t) :
    t.owed = s.owed + actions.count .raiseStop := by
  induction actions generalizing s with
  | nil =>
    cases ran
    rfl
  | cons action rest ih =>
    obtain ⟨u, taken, later⟩ := replay?_cons.mp ran
    rw [List.mem_cons, not_or] at none
    cases action with
    | reset =>
      obtain ⟨step, remaining, split, rfl⟩ := reset_step taken
      simpa using ih none.2 later
    | raiseStop =>
      cases taken
      rw [ih none.2 later, List.count_cons_self]
      simp only
      omega
    | interruptKeypad => exact absurd rfl none.1

/-- A request that has been made after some point and completed interrupts the keypad
after that point. -/
theorem interruptKeypad_of_raiseStop (ran : s.run? actions = some t) (settled : t.owed = 0)
    (raised : .raiseStop ∈ actions) : .interruptKeypad ∈ actions := by
  apply Classical.byContradiction
  intro none
  have owed := owed_run none ran
  have counted := List.count_pos_iff.mpr raised
  omega

/-- The state in which a step of the reset has been taken. -/
def State.resetTo (s : State) (step : Machine.ResetStep) (rest : List Machine.ResetStep) : State :=
  { s with machine := s.machine.resetStep step, remaining := rest }

/-- A reset that is over has taken each of its steps at some point. -/
theorem exists_reset_of_finished (remaining : s.remaining = done ++ step :: rest)
    (ran : s.run? actions = some t) (finished : t.remaining = []) :
    ∃ before after u, actions = before ++ .reset :: after ∧
      s.run? before = some u ∧ u.remaining = step :: rest ∧
      u.step? .reset = some (u.resetTo step rest) ∧ (u.resetTo step rest).run? after = some t := by
  induction actions generalizing s done with
  | nil =>
    cases ran
    simp [finished] at remaining
  | cons action actions ih =>
    obtain ⟨v, taken, later⟩ := replay?_cons.mp ran
    -- The step in question is taken now or, the reset having come nearer to it, later.
    by_cases now : action = .reset ∧ done = []
    · obtain ⟨rfl, rfl⟩ := now
      obtain ⟨first, others, split, rfl⟩ := reset_step taken
      cases split.symm.trans remaining
      exact ⟨[], actions, s, rfl, rfl, remaining, taken, later⟩
    · have nearer : ∃ done, v.remaining = done ++ step :: rest := by
        rcases remaining_step taken with same | ⟨reset, first, fewer⟩
        · exact ⟨done, same.trans remaining⟩
        · cases done with
          | nil => exact absurd ⟨reset, rfl⟩ now
          | cons head done => exact ⟨done, (List.cons.inj (fewer.symm.trans remaining)).2⟩
      obtain ⟨done, remaining⟩ := nearer
      obtain ⟨before, after, u, rfl, reached, last⟩ := ih remaining later
      exact ⟨action :: before, after, u, rfl, replay?_cons.mpr ⟨v, taken, reached⟩, last⟩

/-! ### Where the flags part -/

/-- The flags after a reset tell what has happened since each of them was lowered. -/
theorem exists_flags_of_finished (start : s.remaining = Machine.resetSteps)
    (ran : s.run? actions = some t) (finished : t.remaining = []) :
    ∃ first second third, actions = first ++ .reset :: (second ++ .reset :: third) ∧
      (∃ u, s.run? first = some u ∧ u.remaining.head? = some .latch) ∧
      (∃ u, s.run? (first ++ .reset :: second) = some u ∧
        u.remaining.head? = some .stopRequest) ∧
      t.machine.keypad.latch.interrupted = decide (.interruptKeypad ∈ second ++ third) ∧
      t.machine.stopRequested = decide (.raiseStop ∈ third) ∧
      (t.owed = 0 → .raiseStop ∈ third → .interruptKeypad ∈ third) := by
  obtain ⟨first, others, u, rfl, before, clears, clear, cleared⟩ :=
    exists_reset_of_finished start ran finished
  -- The flag is lowered in the part of the reset that follows the clearing of the latch.
  have remaining : (u.resetTo .latch [.screen, .status, .stopRequest, .cycle]).remaining =
      [.screen, .status] ++ .stopRequest :: [.cycle] := rfl
  obtain ⟨second, third, v, rfl, between, lowers, lower, lowered⟩ :=
    exists_reset_of_finished remaining cleared finished
  have interrupted := interrupted_run (by simp [State.resetTo]) cleared
  have stopRequested := stopRequested_run (by simp [State.resetTo]) lowered
  have reached : s.run? (first ++ .reset :: second) = some v :=
    replay?_append.mpr ⟨u, before, replay?_cons.mpr ⟨_, clear, between⟩⟩
  refine ⟨first, second, third, rfl, ⟨u, before, ?_⟩, ⟨v, reached, ?_⟩, ?_, ?_, ?_⟩
  · rw [clears]
    rfl
  · rw [lowers]
    rfl
  · rw [interrupted]
    simp [State.resetTo, Machine.resetStep, Keypad.clearLatch]
  · rw [stopRequested]
    simp [State.resetTo, Machine.resetStep]
  · exact interruptKeypad_of_raiseStop lowered

/-- A machine that is ready for its next run, the two flags as they have been left. -/
structure Prepared (m n : Machine) : Prop where
  wellFormed : n.WellFormed
  running : n.status = .running
  interrupted : n.keypad.latch.interrupted = m.keypad.latch.interrupted
  stopRequested : n.stopRequested = m.stopRequested

/-- When a reset and all requests are over, a raised flag has an interruption with it. The
two agree unless the keypad has been interrupted since its latch was cleared and nobody
has raised the flag since that was lowered. As long as they agree, no later run takes an
interruption for a fault; if not, one that begins with a wait for a key does so at once,
and nobody has to act for it. -/
theorem agree_iff_unsplit {s t : State} {actions : List Action}
    (start : s.remaining = Machine.resetSteps) (ran : s.run? actions = some t)
    (completed : t.completed = true) :
    (t.machine.stopRequested = true → t.machine.keypad.latch.interrupted = true) ∧
    (∃ first second third, actions = first ++ .reset :: (second ++ .reset :: third) ∧
      (∃ u, s.run? first = some u ∧ u.remaining.head? = some .latch) ∧
      (∃ u, s.run? (first ++ .reset :: second) = some u ∧
        u.remaining.head? = some .stopRequest) ∧
      (t.machine.stopRequested = t.machine.keypad.latch.interrupted ↔
        (.interruptKeypad ∈ second ++ third → .raiseStop ∈ third))) ∧
    (t.machine.stopRequested = t.machine.keypad.latch.interrupted →
      ∀ m offers later r, Prepared t.machine m →
        StopDuringRun.State.run? { machine := m, offers } later = some r →
          r.phase ≠ .returned (.error (.fault .interrupted))) ∧
    (t.machine.stopRequested ≠ t.machine.keypad.latch.interrupted →
      ∀ m x random, Prepared t.machine m → m.upcoming? = some (.register .waitKey x) →
        ∃ r, StopDuringRun.State.run? { machine := m } (List.replicate 4 (.run random)) = some r ∧
          r.phase = .returned (.error (.fault .interrupted))) := by
  have finished : t.remaining = [] := by simp_all [State.completed]
  have settled : t.owed = 0 := by simp_all [State.completed]
  obtain ⟨first, second, third, split, clears, lowers, interrupted, stopRequested, settles⟩ :=
    exists_flags_of_finished start ran finished
  -- A request that raises the flag for good still has to interrupt the keypad.
  have kept : t.machine.stopRequested = true → t.machine.keypad.latch.interrupted = true := by
    intro raised
    rw [stopRequested, decide_eq_true_iff] at raised
    rw [interrupted, decide_eq_true_iff]
    exact List.mem_append_right second (settles settled raised)
  refine ⟨kept, ⟨first, second, third, split, clears, lowers, ?_⟩, ?_, ?_⟩
  · rw [interrupted, stopRequested, decide_eq_decide]
    constructor
    · intro agree
      exact agree.mpr
    · intro follows
      exact ⟨fun raised => List.mem_append_right second (settles settled raised), follows⟩
  · intro agree m offers later r prepared run
    have sound := StopDuringRun.sound_head (s := { machine := m, offers }) prepared.wellFormed
      prepared.running rfl (fun cut => ?_) (fun owed => absurd owed (Nat.lt_irrefl 0))
    · exact (StopDuringRun.sound_run sound run).uncut
    · rw [prepared.stopRequested, agree, ← prepared.interrupted]
      exact cut
  · intro differ m x random prepared decoded
    cases raised : t.machine.stopRequested with
    | true => exact absurd (raised.trans (kept raised).symm) differ
    | false =>
      rw [raised] at differ
      have cut : t.machine.keypad.latch.interrupted = true := by simpa using differ.symm
      exact StopDuringRun.interrupted_of_wait prepared.wellFormed prepared.running
        (prepared.stopRequested.trans raised) (prepared.interrupted.trans cut) decoded random

/-- A request after the reset is kept, and the next run ends without a fault. -/
theorem late_stop_is_kept :
    let actions : List Action := List.replicate 24 .reset ++ [.raiseStop, .interruptKeypad]
    ∃ t, State.run? { machine := Machine.fresh 0xf00a } actions = some t ∧
      t.machine.stopRequested = true ∧ t.machine.keypad.latch.interrupted = true ∧
      ∀ m offers later r, Prepared t.machine m →
        StopDuringRun.State.run? { machine := m, offers } later = some r →
          r.phase ≠ .returned (.error (.fault .interrupted)) := by
  intro actions
  generalize Machine.fresh 0xf00a = m
  have ran : State.run? { machine := m } actions =
      some { machine := m.reset.raiseStop.interruptKeypad, remaining := [] } := rfl
  have ⟨kept, _, uncut, _⟩ := agree_iff_unsplit (s := { machine := m }) rfl ran rfl
  exact ⟨_, ran, rfl, kept rfl, uncut (kept rfl).symm⟩

/-- A request that raises the flag in front of a reset and interrupts the keypad behind it
fails a run that nobody stops. -/
theorem straddling_stop_splits :
    let actions : List Action := .raiseStop :: List.replicate 24 .reset ++ [.interruptKeypad]
    ∃ t, State.run? { machine := Machine.fresh 0xf00a } actions = some t ∧ t.completed = true ∧
      t.machine.stopRequested = false ∧ t.machine.keypad.latch.interrupted = true ∧
      ∃ r, StopDuringRun.State.run? { machine := t.machine } (List.replicate 4 (.run 0)) = some r ∧
        r.phase = .returned (.error (.fault .interrupted)) := by
  intro actions
  have wellFormed := (Machine.reachable_fresh 0xf00a).wellFormed
  have word := Machine.word_fresh 0xf00a
  rw [Machine.word, Machine.registers_fresh] at word
  generalize Machine.fresh 0xf00a = m at *
  have ran : State.run? { machine := m } actions =
      some { machine := m.raiseStop.reset.interruptKeypad, remaining := [] } := rfl
  -- The reset has put the program counter back, and memory is as it was.
  have decoded : m.raiseStop.reset.interruptKeypad.upcoming? = some (.register .waitKey 0) := by
    simp only [Machine.upcoming?, Machine.word, Machine.interruptKeypad, Machine.reset_eq,
      Machine.raiseStop, word]
    rfl
  have fails := StopDuringRun.interrupted_of_wait wellFormed.raiseStop.reset.interruptKeypad
    rfl rfl rfl decoded 0
  exact ⟨_, ran, rfl, rfl, rfl, fails⟩

end Chip8.StopDuringReset
