import Chip8.Machine.Simulation
import Chip8.Proofs.Machine.Rounds
import Chip8.Proofs.Machine.Ticks

/-!
# Sessions in lockstep

Machines that correspond, and do so as long as the same is done to them, go through the
same ticks: they begin them together, wait for the same events and end in the same way. Where an
instruction adds to the index register, the sums have to be related as well. The same then
holds of a row of ticks and of a run, which look at nothing more than the status and the
stop flag. What is printed is compared by a relation of its own, since it may depend on
more than the machines do.
-/
namespace Chip8

namespace Machine

/-- Two ticks that have come equally far, and have left related machines. -/
inductive Turn.Related (R : Machine → Machine → Prop) : Turn → Turn → Prop
  | finished {m n : Machine} (result : Except Abort Unit) (related : R m n) :
      Turn.Related R (.finished result m) (.finished result n)
  | waiting {m n : Machine} (x : Fin 16) (related : R m n) :
      Turn.Related R (.waiting x m) (.waiting x n)

/-- Two ticks that have ended in the same way, and have left related machines. -/
def SameEnd (R : Machine → Machine → Prop) (first second : Except Abort Unit × Machine) : Prop :=
  second.1 = first.1 ∧ R first.2 second.2

/-- If the machine is about to add to its index register, the sums are related as well. -/
def SumsAlike (Q : Registers → Registers → Prop) (m n : Machine) : Prop :=
  m.status = .running → ∀ x j, m.upcoming? = some (.register .addIndex x) →
    Registers.index x = .ok j → Q (m.registers.addIndex j) (n.registers.addIndex j)

namespace Correspondence

variable {Q : Registers → Registers → Prop} {R : Machine → Machine → Prop}
  (correspondence : Correspondence Q R) {m n : Machine} (related : R m n)
include correspondence related

theorem halt : R m.halt n.halt := correspondence.withStatus related .halted

theorem advance : R m.advance n.advance :=
  correspondence.withRegisters related
    (correspondence.congruence.advance (correspondence.registers related))

theorem fetch : n.fetch = m.fetch := by
  unfold Machine.fetch
  rw [correspondence.memory related,
    correspondence.congruence.pc (correspondence.registers related)]

theorem upcoming? : n.upcoming? = m.upcoming? := by
  unfold Machine.upcoming? Machine.word
  rw [correspondence.memory related,
    correspondence.congruence.pc (correspondence.registers related)]

theorem turn (random : UInt8) {w : Word}
    (sums : ∀ x j, Instruction.decode w = some (.register .addIndex x) →
      Registers.index x = .ok j → Q (m.registers.addIndex j) (n.registers.addIndex j)) :
    Turn.Related R (m.turn random w) (n.turn random w) := by
  unfold Machine.turn
  cases decoded : Instruction.decode w with
  | none =>
    simp only [correspondence.congruence.pc (correspondence.registers related)]
    exact .finished _ (correspondence.halt related)
  | some i =>
    -- Both execute the same instruction, and come to an end in the same way.
    have ended := correspondence.execute related random i fun x j same =>
      sums x j (decoded.trans (congrArg some same))
    simp only
    generalize m.execute random i = first at ended ⊢
    generalize n.execute random i = second at ended ⊢
    obtain ⟨end?, m⟩ := first
    obtain ⟨other, n⟩ := second
    obtain ⟨same, related⟩ := ended
    simp only at same related
    subst same
    -- Whatever it has done to the one machine it has done to the other one.
    match other with
    | .ok .done => exact .finished _ (correspondence.advance related)
    | .ok (.waiting x) => exact .waiting x related
    | .error (.fault fault) => exact .finished _ (correspondence.halt related)
    | .error (.trap trap) => exact .finished _ related

theorem beginTick (sums : SumsAlike Q m n) (random : UInt8) :
    Turn.Related R (m.beginTick random) (n.beginTick random) := by
  have status := correspondence.status related
  cases same : m.status with
  | halted =>
    rw [beginTick_of_halted same, beginTick_of_halted (status.trans same)]
    exact .finished _ related
  | running =>
    have counted : R m.counted n.counted := correspondence.count related
    rw [beginTick_of_running same, beginTick_of_running (status.trans same),
      correspondence.fetch counted]
    cases fetched : m.counted.fetch with
    | error abort => exact .finished _ counted
    | ok w =>
      have upcoming : m.upcoming? = Instruction.decode w := upcoming?_of_fetch fetched
      exact correspondence.turn counted random fun x j decoded =>
        sums same x j (upcoming.trans decoded)

theorem wake? (x : Fin 16) :
    Option.Rel (SameEnd R) (Machine.wake? x m) (Machine.wake? x n) := by
  unfold Machine.wake?
  rw [correspondence.keypad related]
  cases m.keypad.keyOrInterruption? with
  | none => exact .none
  | some answer =>
    cases answer with
    | ok key => exact .some ⟨rfl, correspondence.advance (correspondence.setV related x key)⟩
    | error fault => exact .some ⟨rfl, correspondence.halt related⟩

theorem apply (event : Event) :
    (n.apply event).1 = (m.apply event).1 ∧ R (m.apply event).2 (n.apply event).2 := by
  cases event with
  | keypad event =>
    simp only [Machine.apply, correspondence.keypad related]
    exact ⟨trivial, correspondence.withKeypad related _⟩
  | stop =>
    -- Raising the flag has to be taken apart from interrupting the keypad.
    have same : n.stop = { n.raiseStop with keypad := m.keypad.interrupt } := by
      rw [← correspondence.keypad related]
      rfl
    rw [Machine.apply, Machine.apply, same]
    exact ⟨rfl, correspondence.withKeypad (correspondence.withStop related true) _⟩
  | countDown timer =>
    cases timer with
    | delay => exact ⟨rfl, correspondence.countDownDelay related⟩
    | sound => exact ⟨rfl, correspondence.countDownSound related⟩

theorem applyAll (events : List Event) :
    (Chip8.applyAll Machine.apply n events).1 = (Chip8.applyAll Machine.apply m events).1 ∧
      R (m.after events) (n.after events) :=
  applyAll_related (R := R) (fun _ _ event related => correspondence.apply related event)
    related events

theorem after (events : List Event) : R (m.after events) (n.after events) :=
  (correspondence.applyAll related events).2

theorem awaits (x : Fin 16) (arrivals : List (List Event)) :
    Vigil.Related R (SameEnd R)
      (awaitResult (Machine.wake? x) (Chip8.applyAll Machine.apply) m arrivals)
      (awaitResult (Machine.wake? x) (Chip8.applyAll Machine.apply) n arrivals) :=
  awaitResult_related (R := R) (S := SameEnd R) (fun _ _ related => correspondence.wake? related x)
    (fun _ _ events related => correspondence.applyAll related events) related arrivals

end Correspondence

theorem Simulation.sumsAlike {R : Machine → Machine → Prop} (simulation : Simulation R)
    (m n : Machine) (related : R m n) : SumsAlike Eq m n :=
  fun _ _ j _ _ => congrArg (·.addIndex j) (simulation.registers related).symm

end Machine

namespace Session
open Machine

/-- Sessions with related machines, and everything else the same but for what is printed. -/
structure Lockstep (R : Machine → Machine → Prop) (P : Array String → Array String → Prop)
    (s t : Session) : Prop where
  machine : R s.machine t.machine
  arrivals : t.arrivals = s.arrivals
  answers : t.answers = s.answers
  printed : P s.printed t.printed

/-- What happens to sessions that go on in lockstep. -/
def Joint (R : Machine → Machine → Prop) (P : Array String → Array String → Prop)
    (first second : Outcome × Session) : Prop :=
  second.1 = first.1 ∧ Lockstep R P first.2 second.2

theorem Joint.exists_eq {R : Machine → Machine → Prop} {P : Array String → Array String → Prop}
    {first second : Outcome × Session} (joint : Joint R P first second) :
    ∃ outcome u v, first = (outcome, u) ∧ second = (outcome, v) ∧ Lockstep R P u v := by
  obtain ⟨outcome, u⟩ := first
  obtain ⟨other, v⟩ := second
  obtain ⟨rfl, later⟩ := joint
  exact ⟨_, u, v, rfl, rfl, later⟩

section
variable {Q : Registers → Registers → Prop} {R : Machine → Machine → Prop}
  {P : Array String → Array String → Prop} (correspondence : Correspondence Q R)
  (sums : ∀ m n, R m n → SumsAlike Q m n)
  (shows : ∀ s t, Lockstep R P s t → P s.shown.printed t.shown.printed)
  {s t : Session} (lockstep : Lockstep R P s t)

include lockstep

theorem Lockstep.ended
    {v w : Vigil Machine (List Event) (List (Except Fault Keypad.Answer))
      (Except Abort Unit × Machine)}
    (vigils : Vigil.Related R (SameEnd R) v w) : Joint R P (s.ended v) (t.ended w) := by
  obtain ⟨result, state, answers, rest⟩ := vigils
  have all : t.answers ++ w.answers.flatten.toArray = s.answers ++ v.answers.flatten.toArray := by
    rw [lockstep.answers, answers]
  unfold Session.ended
  generalize v.result = first at result ⊢
  generalize w.result = second at result ⊢
  cases result with
  | none => exact ⟨rfl, state, rest, all, lockstep.printed⟩
  | some same => exact ⟨congrArg Outcome.ofResult same.1, same.2, rest, all, lockstep.printed⟩

include correspondence

theorem Lockstep.meet (events : List Event) : Lockstep R P (s.meet events) (t.meet events) :=
  ⟨correspondence.after lockstep.machine events, lockstep.arrivals, lockstep.answers,
    lockstep.printed⟩

include shows

omit correspondence in
theorem Lockstep.shown : Lockstep R P s.shown t.shown := by
  have printed := shows s t lockstep
  refine ⟨?_, ?_, ?_, printed⟩
  · rw [machine_shown, machine_shown]
    exact lockstep.machine
  · rw [arrivals_shown, arrivals_shown]
    exact lockstep.arrivals
  · rw [answers_shown, answers_shown]
    exact lockstep.answers

omit correspondence in
/-- Ticks that have begun together end together, if waits do so. -/
theorem Lockstep.tick_of_begun {random : UInt8}
    (begun : Turn.Related R (s.machine.beginTick random) (t.machine.beginTick random))
    (awaits : ∀ x m n, R m n → Vigil.Related R (SameEnd R)
      (awaitResult (Machine.wake? x) (applyAll Machine.apply) m s.arrivals)
      (awaitResult (Machine.wake? x) (applyAll Machine.apply) n s.arrivals)) :
    Joint R P (s.tick random) (t.tick random) := by
  have shown := lockstep.shown shows
  generalize first : s.machine.beginTick random = here at begun
  generalize second : t.machine.beginTick random = there at begun
  -- A turn that waits meets the same arrivals on both sides.
  cases begun with
  | finished result related =>
    rw [tick_of_finished first, tick_of_finished second]
    exact ⟨rfl, related, shown.arrivals, shown.answers, shown.printed⟩
  | waiting x related =>
    rw [tick_of_waiting first, tick_of_waiting second, lockstep.arrivals]
    exact shown.ended (awaits x _ _ related)

/-- Sums in the index register only have to be related if the tick makes them. -/
theorem Lockstep.tick (alike : SumsAlike Q s.machine t.machine) (random : UInt8) :
    Joint R P (s.tick random) (t.tick random) :=
  lockstep.tick_of_begun shows (correspondence.beginTick lockstep.machine alike random)
    fun x _ _ related => correspondence.awaits related x s.arrivals

include sums

theorem Lockstep.round (world : World) (number : Nat) :
    Joint R P (s.round world number) (t.round world number) := by
  have met := lockstep.meet correspondence (world.between number)
  exact met.tick correspondence shows (sums _ _ met.machine) (world.random number)

theorem Lockstep.ticks (world : World) (count first : Nat) :
    Joint R P (ticks world count first s) (ticks world count first t) := by
  induction count generalizing first s t with
  | zero => exact ⟨rfl, lockstep⟩
  | succ count ih =>
    obtain ⟨outcome, u, v, here, there, later⟩ :=
      (lockstep.round correspondence sums shows world first).exists_eq
    -- The rounds end in the same way, so either both rows go on or none does.
    by_cases done : outcome = .done
    · rw [done] at here there
      rw [ticks_of_done here, ticks_of_done there]
      exact ih later (first + 1)
    · rw [ticks_of_ended here done, ticks_of_ended there done]
      exact ⟨rfl, later⟩

/-- A run looks up between its ticks, but only at what related machines agree on. -/
theorem Lockstep.run (world : World) (count first : Nat) :
    Joint R P (run world count first s) (run world count first t) := by
  induction count generalizing first s t with
  | zero => exact ⟨rfl, lockstep⟩
  | succ count ih =>
    have status := correspondence.status lockstep.machine
    cases goes : s.machine.status with
    | halted =>
      rw [run_of_halted goes, run_of_halted (status.trans goes)]
      exact ⟨rfl, lockstep⟩
    | running =>
      have before : Lockstep R P (s.before world first) (t.before world first) :=
        lockstep.meet correspondence (world.between first)
      have stop := correspondence.stopRequested before.machine
      cases raised : (s.before world first).machine.stopRequested with
      | true =>
        rw [run_of_stopped goes raised, run_of_stopped (status.trans goes) (stop.trans raised)]
        exact ⟨rfl, correspondence.halt before.machine, before.arrivals, before.answers,
          before.printed⟩
      | false =>
        obtain ⟨outcome, u, v, here, there, later⟩ :=
          (lockstep.round correspondence sums shows world first).exists_eq
        -- The four ways in which a run goes on after a round, each of them on both sides.
        have goesToo := status.trans goes
        have lowered := stop.trans raised
        have stopped := correspondence.stopRequested later.machine
        by_cases done : outcome = .done
        · rw [done] at here there
          rw [run_of_done goes raised here, run_of_done goesToo lowered there]
          exact ih later (first + 1)
        · by_cases cut : outcome = .failed (.fault .interrupted) ∧ u.machine.stopRequested = true
          · obtain ⟨rfl, up⟩ := cut
            rw [run_of_cut goes raised here up, run_of_cut goesToo lowered there (stopped.trans up)]
            exact ⟨rfl, later⟩
          · have uncut (interrupted : outcome = .failed (.fault .interrupted)) :
                u.machine.stopRequested = false := by
              simpa [interrupted] using cut
            rw [run_of_ended goes raised here done uncut, run_of_ended goesToo lowered there done
              fun interrupted => stopped.trans (uncut interrupted)]
            exact ⟨rfl, later⟩

end

end Session

end Chip8
