import Chip8.Timer.Interleaving

/-!
# Steps of a shared timer

The clock lets go of the lock before it parks, before it sleeps and before each
announcement, so what it has just tested may no longer hold when it goes on. Two
things stay true all the same. Only the clock announces anything, so whether the timer
is active cannot change behind its back. And whoever sets the value of a parked clock,
or asks it to stop, also notifies it or still owes it the notification.
-/
namespace Chip8.Timer

variable {t u : Timer} {p q : Shared} {action : Action} {actions : List Action}

/-! ### Steps -/

/-- The timer after an announcement. -/
def announced (t : Timer) (active : Bool) : Timer :=
  { { t with active }.tell active with phase := .ready }

/-- What a step of the clock can come to. -/
inductive Clocked (t : Timer) : Timer → Prop
  | locked (ready : t.phase = .ready) : Clocked t { t with phase := .testing }
  | left (testing : t.phase = .testing) (stopped : t.stopped = true) :
      Clocked t { t with phase := .exited }
  | ended (testing : t.phase = .testing) (going : t.stopped = false) (zero : t.value = 0)
      (active : t.active = true) : Clocked t { t with phase := .announcing false }
  | parked (testing : t.phase = .testing) (going : t.stopped = false) (zero : t.value = 0)
      (inactive : t.active = false) : Clocked t { t with phase := .parked false }
  | began (testing : t.phase = .testing) (going : t.stopped = false) (set : t.value ≠ 0)
      (inactive : t.active = false) : Clocked t { t with phase := .announcing true }
  | counted (testing : t.phase = .testing) (going : t.stopped = false) (set : t.value ≠ 0)
      (active : t.active = true) : Clocked t { t with value := t.value - 1 }
  | slept (testing : t.phase = .testing) (going : t.stopped = false) (set : t.value ≠ 0)
      (active : t.active = true) : Clocked t { t with phase := .sleeping }
  | announced {active : Bool} (announcing : t.phase = .announcing active) :
      Clocked t (t.announced active)
  | woken (waiting : t.phase = .parked true ∨ t.phase = .sleeping) :
      Clocked t { t with phase := .ready }
  | stayed (waiting : t.phase = .parked false ∨ t.phase = .sleeping ∨ t.phase = .exited) :
      Clocked t t

theorem clocked_of_testing (late : Bool) (testing : t.phase = .testing) :
    Clocked t (t.clockStep late) := by
  simp only [clockStep, testing]
  split
  next stopped => exact .left testing stopped
  next going =>
    rw [Bool.not_eq_true] at going
    split
    next zero =>
      split
      next active => exact .ended testing going zero active
      next inactive => exact .parked testing going zero (by simpa using inactive)
    next set =>
      split
      next inactive => exact .began testing going set (by simpa using inactive)
      next active =>
        rw [Bool.not_eq_true', Bool.not_eq_false] at active
        split
        next =>
          -- The clock keeps the lock, so the phase is the one it was in.
          rw [← testing]
          exact .counted testing going set active
        next => exact .slept testing going set active

theorem clocked_clockStep (t : Timer) (late : Bool) : Clocked t (t.clockStep late) := by
  cases phase : t.phase with
  | ready =>
    simp only [clockStep, phase]
    exact .locked phase
  | testing => exact clocked_of_testing late phase
  | announcing active =>
    simp only [clockStep, phase]
    exact .announced phase
  | parked notified =>
    simp only [clockStep, phase]
    cases notified with
    | true => exact .woken (Or.inl phase)
    | false => exact .stayed (Or.inl phase)
  | sleeping =>
    simp only [clockStep, phase]
    split
    next => exact .woken (Or.inr phase)
    next => exact .stayed (Or.inr (Or.inl phase))
  | exited =>
    simp only [clockStep, phase]
    exact .stayed (Or.inr (Or.inr phase))

/-- What a step can come to. -/
inductive Stepped (p : Shared) : Action → Shared → Prop
  | set (value : UInt8) : Stepped p (.set value) { p with timer := p.timer.set value }
  | got : Stepped p .get p
  | observed (id : Nat) : Stepped p (.observe id) { p with timer := p.timer.observe id }
  | asked : Stepped p .requestStop { timer := p.timer.requestStop, owed := p.owed + 1 }
  | notified (owed : 0 < p.owed) :
      Stepped p .notifyStop { timer := p.timer.notify, owed := p.owed - 1 }
  | stirred : Stepped p .stir { p with timer := p.timer.notify }
  | clocked {t : Timer} (late : Bool) (clocked : Clocked p.timer t) :
      Stepped p (.clock late) { p with timer := t }

theorem stepped_step? (taken : p.step? action = some q) : Stepped p action q := by
  cases action with
  | set value =>
    obtain ⟨_, ⟨⟩⟩ := Option.ite_none_right_eq_some.mp taken
    exact .set value
  | get =>
    obtain ⟨_, ⟨⟩⟩ := Option.ite_none_right_eq_some.mp taken
    exact .got
  | observe id =>
    obtain ⟨_, ⟨⟩⟩ := Option.ite_none_right_eq_some.mp taken
    exact .observed id
  | requestStop =>
    obtain ⟨_, ⟨⟩⟩ := Option.ite_none_right_eq_some.mp taken
    exact .asked
  | notifyStop =>
    obtain ⟨owed, ⟨⟩⟩ := Option.ite_none_right_eq_some.mp taken
    exact .notified owed
  | stir =>
    cases taken
    exact .stirred
  | clock late =>
    cases taken
    exact .clocked late (clocked_clockStep p.timer late)

/-- An observer hears nothing by being installed, unless the timer is active. -/
theorem observe_eq (t : Timer) (id : Nat) :
    t.observe id =
      { t with
        observer := some ⟨id, t.installed⟩
        installed := t.installed + 1
        heard := t.heard ++ if t.active then [(⟨id, t.installed⟩, true)] else [] } := by
  cases active : t.active <;> simp [observe, tell, active]

/-! ### What the clock can rely on -/

/-- What is known of the timer where its clock stands. -/
def Fits (p : Shared) : ClockPhase → Prop
  | .announcing active => p.timer.active = !active
  | .parked notified =>
    p.timer.active = false ∧
      (notified = false → p.timer.value = 0 ∧ (p.timer.stopped = true → 0 < p.owed))
  | _ => True

/-- A notification leaves nothing to know but whether the timer is active. -/
theorem Fits.notified {phase : ClockPhase} (fits : Fits p phase)
    (same : q.timer.active = p.timer.active) : Fits q phase.notified := by
  cases phase with
  | announcing active => exact same.trans fits
  | parked notified => exact ⟨same.trans fits.1, nofun⟩
  | _ => trivial

theorem Stepped.fits (stepped : Stepped p action q) (fits : Fits p p.timer.phase) :
    Fits q q.timer.phase := by
  cases stepped with
  | set value => exact fits.notified rfl
  | got => exact fits
  | observed id =>
    rw [observe_eq]
    exact fits
  | asked =>
    -- The request is stored here; what it owes is counted until it notifies the clock.
    change Fits _ p.timer.phase
    cases phase : p.timer.phase with
    | parked notified =>
      rw [phase] at fits
      exact ⟨fits.1, fun unnotified => ⟨(fits.2 unnotified).1, fun _ => Nat.succ_pos _⟩⟩
    | announcing active =>
      rw [phase] at fits
      exact fits
    | _ => trivial
  | notified owed => exact fits.notified rfl
  | stirred => exact fits.notified rfl
  | clocked late clocked =>
    -- What the clock has tested becomes what is known where it goes next.
    cases clocked with
    | ended testing going zero active => exact active
    | began testing going set inactive => exact inactive
    | parked testing going zero inactive =>
      exact ⟨inactive, fun _ => ⟨zero, fun stopped => by simp [going] at stopped⟩⟩
    | counted testing going set active =>
      change Fits _ p.timer.phase
      rw [testing]
      trivial
    | stayed => exact fits
    | _ => trivial

theorem fits_run {name : String}
    (ran : Shared.run? { timer := Timer.start name } actions = some p) :
    Fits p p.timer.phase := by
  have keeps : ∀ s action t, Fits s s.timer.phase → s.step? action = some t →
      Fits t t.timer.phase :=
    fun _ _ _ fits taken => (stepped_step? taken).fits fits
  refine replay?_keeps keeps ?_ ran
  trivial

end Chip8.Timer
