import Chip8.Proofs.Timer.Phases

/-!
# What a timer counts

Between two settings of the value it is the clock alone that changes it, by one at a
time. It tests the value and takes one off under the same lock, so no setting comes
between the two, and nothing is ever taken off zero. The lock is where it also finds a
request to stop: once that is stored, nothing is taken off any more.
-/
namespace Chip8.Timer

variable {t u : Timer} {p q : Shared} {action : Action} {actions : List Action}
  {value : UInt8} {n : Nat}

/-! ### The account -/

/-- The value that was set last, if it was `value` before the action. -/
def Action.setting (value : UInt8) : Action → UInt8
  | .set value => value
  | _ => value

/-- How often the clock has taken one off since the value was set, after an action. -/
def Shared.countAfter (p : Shared) (n : Nat) : Action → Nat
  | .set _ => 0
  | action => if p.decrements action then n + 1 else n

/-- How often the clock has taken one off since the value was set, after a list of
actions. -/
def Shared.takenSinceSet (p : Shared) (n : Nat) : List Action → Nat
  | [] => n
  | action :: rest =>
    (p.step? action).elim n fun q => q.takenSinceSet (p.countAfter n action) rest

/-! ### One step -/

/-- What the clock has made sure of before it takes one off. -/
structure Counts (t : Timer) : Prop where
  left : 0 < t.value
  active : t.active = true
  going : t.stopped = false

theorem toNat_sub_one (left : 0 < value) : (value - 1).toNat + 1 = value.toNat := by
  have positive : 1 ≤ value := left
  rw [UInt8.toNat_sub_of_le value 1 positive]
  exact Nat.sub_add_cancel positive

theorem Clocked.value_cases (clocked : Clocked t u) :
    u.value = t.value ∨ Counts t ∧ u.value.toNat + 1 = t.value.toNat := by
  cases clocked with
  | counted testing going set active =>
    -- The value has been tested under this lock, so the subtraction does not wrap.
    have left : 0 < t.value := UInt8.pos_iff_ne_zero.mpr set
    exact Or.inr ⟨⟨left, active, going⟩, toNat_sub_one left⟩
  | _ => exact Or.inl rfl

theorem counts_of_decrements (counted : p.decrements action = true) :
    ∃ late, action = .clock late ∧ Counts p.timer ∧
      (p.timer.clockStep late).value.toNat + 1 = p.timer.value.toNat := by
  cases action with
  | clock late =>
    rcases (clocked_clockStep p.timer late).value_cases with same | lower
    · simp [Shared.decrements, same] at counted
    · exact ⟨late, rfl, lower⟩
  | _ => cases counted

/-- What the clock does not take off, the hosts have set. -/
theorem value_step (uncounted : p.decrements action = false) (taken : p.step? action = some q) :
    q.timer.value = action.setting p.timer.value := by
  cases stepped_step? taken with
  | observed id => rw [observe_eq]; rfl
  | clocked late clocked =>
    cases taken
    simpa [Shared.decrements, Action.setting] using uncounted
  | _ => rfl

theorem balance_step (balance : p.timer.value.toNat + n = value.toNat)
    (taken : p.step? action = some q) :
    q.timer.value.toNat + p.countAfter n action = (action.setting value).toNat := by
  cases counted : p.decrements action with
  | true =>
    obtain ⟨late, rfl, _, lower⟩ := counts_of_decrements counted
    cases taken
    simp only [Shared.countAfter, counted, if_true, Action.setting]
    omega
  | false =>
    rw [value_step counted taken]
    -- A new value opens a new account; every other action leaves the old one open.
    cases action with
    | set value => rfl
    | _ => simpa [Shared.countAfter, counted, Action.setting] using balance

theorem uncounted_of_stopped (stopped : p.timer.stopped = true) : p.decrements action = false := by
  cases counted : p.decrements action with
  | false => rfl
  | true =>
    obtain ⟨late, rfl, counts, _⟩ := counts_of_decrements counted
    exact absurd stopped (by simp [counts.going])

theorem stopped_step (stopped : p.timer.stopped = true) (taken : p.step? action = some q) :
    q.timer.stopped = true := by
  cases stepped_step? taken with
  | observed id => rw [observe_eq]; exact stopped
  | asked => rfl
  | clocked late clocked => cases clocked <;> exact stopped
  | _ => exact stopped

/-! ### Whole runs -/

theorem balance_run (balance : p.timer.value.toNat + n = value.toNat)
    (ran : p.run? actions = some q) :
    q.timer.value.toNat + p.takenSinceSet n actions =
      (actions.foldl Action.setting value).toNat := by
  -- The account goes on from whatever it was before, so it is open here what that is.
  induction actions generalizing p value n with
  | nil =>
    cases ran
    exact balance
  | cons action rest ih =>
    obtain ⟨u, taken, later⟩ := replay?_cons.mp ran
    rw [Shared.takenSinceSet, taken, List.foldl_cons]
    exact ih (balance_step balance taken) later

theorem value_run_of_stopped (stopped : p.timer.stopped = true) (ran : p.run? actions = some q) :
    q.timer.stopped = true ∧ q.timer.value = actions.foldl Action.setting p.timer.value := by
  induction actions generalizing p with
  | nil =>
    cases ran
    exact ⟨stopped, rfl⟩
  | cons action rest ih =>
    obtain ⟨u, taken, later⟩ := replay?_cons.mp ran
    have := ih (stopped_step stopped taken) later
    rwa [value_step (uncounted_of_stopped stopped) taken] at this

/-- In every interleaving, the value is what was set last, less what the clock has taken
off since. The clock takes one off at a time, only from a value above zero and only
while the timer is active and nobody has asked it to stop. After a request to stop only
the hosts change the value. And a parked clock that nobody has notified, or still has to,
has missed neither a value nor a request. -/
theorem countdown_in_every_interleaving {name : String}
    (ran : Shared.run? { timer := Timer.start name } actions = some p) :
    (p.timer.value.toNat + Shared.takenSinceSet { timer := Timer.start name } 0 actions =
      (actions.foldl Action.setting 0).toNat) ∧
    (∀ action q, p.step? action = some q →
      (p.decrements action = true →
        0 < p.timer.value ∧ p.timer.active = true ∧ p.timer.stopped = false ∧
          q.timer.value.toNat + 1 = p.timer.value.toNat) ∧
      (p.decrements action = false → q.timer.value = action.setting p.timer.value)) ∧
    (p.timer.stopped = true → ∀ later q, p.run? later = some q →
      q.timer.stopped = true ∧ (∀ action, q.decrements action = false) ∧
        q.timer.value = later.foldl Action.setting p.timer.value) ∧
    (p.timer.phase = .parked false → p.owed = 0 →
      p.timer.value = 0 ∧ p.timer.active = false ∧ p.timer.stopped = false) := by
  refine ⟨balance_run rfl ran, ?_, ?_, ?_⟩
  · intro action q taken
    refine ⟨fun counted => ?_, fun uncounted => value_step uncounted taken⟩
    obtain ⟨late, rfl, counts, lower⟩ := counts_of_decrements counted
    cases taken
    exact ⟨counts.left, counts.active, counts.going, lower⟩
  · intro stopped later q next
    obtain ⟨still, value⟩ := value_run_of_stopped stopped next
    exact ⟨still, fun _ => uncounted_of_stopped still, value⟩
  · intro parked owed
    have fits := fits_run ran
    rw [parked] at fits
    obtain ⟨inactive, idle⟩ := fits
    obtain ⟨zero, request⟩ := idle rfl
    refine ⟨zero, inactive, ?_⟩
    cases stopped : p.timer.stopped with
    | false => rfl
    | true => exact absurd (request stopped) (by simp [owed])

/-- A request that comes while the clock sleeps: of the two that were set, one is left. -/
theorem request_during_countdown :
    let actions : List Action :=
      [.set 2, .clock false, .clock false, .clock false, .clock false, .clock true,
        .clock false, .requestStop]
    ∃ q, Shared.run? { timer := Timer.start "delay" } actions = some q ∧
      q.timer.value.toNat + Shared.takenSinceSet { timer := Timer.start "delay" } 0 actions = 2 ∧
      ∀ later r, q.run? later = some r → r.timer.value = later.foldl Action.setting 1 := by
  intro actions
  have ran : Shared.run? { timer := Timer.start "delay" } actions = some _ := rfl
  obtain ⟨balance, _, kept, _⟩ := countdown_in_every_interleaving ran
  exact ⟨_, ran, balance, fun later r next => (kept rfl later r next).2.2⟩

end Chip8.Timer
