import Chip8.Machine
import Chip8.Proofs.Waiting

/-!
# What others do to a machine

Events reach the keypad, the timers and the stop flag. Everything else is inside
the machine, out of their reach. What they make of the held keys, the timers and
the flag does not depend on the latch, which only tells a wait when to end.
-/
namespace Chip8.Machine

/-- The machine after events from outside. -/
def after (m : Machine) (events : List Event) : Machine := (applyAll apply m events).2

/-- What every event keeps, any number of them keeps. -/
theorem after_induction {P : Machine → Prop} (apply : ∀ m event, P m → P (m.apply event).2)
    {m : Machine} (events : List Event) (holds : P m) : P (m.after events) := by
  induction events generalizing m with
  | nil => exact holds
  | cons event rest ih => exact ih (apply m event holds)

/-! ### Inside -/

/-- Agreement on what no event reaches. -/
structure SameInside (m n : Machine) : Prop where
  settings : n.settings = m.settings
  memory : n.memory = m.memory
  screen : n.screen = m.screen
  registers : n.registers = m.registers
  status : n.status = m.status
  cycle : n.cycle = m.cycle

theorem SameInside.trans {m n o : Machine} (first : SameInside m n) (second : SameInside n o) :
    SameInside m o where
  settings := second.settings.trans first.settings
  memory := second.memory.trans first.memory
  screen := second.screen.trans first.screen
  registers := second.registers.trans first.registers
  status := second.status.trans first.status
  cycle := second.cycle.trans first.cycle

theorem sameInside_apply (m : Machine) (event : Event) : SameInside m (m.apply event).2 := by
  cases event with
  | keypad event => exact ⟨rfl, rfl, rfl, rfl, rfl, rfl⟩
  | stop => exact ⟨rfl, rfl, rfl, rfl, rfl, rfl⟩
  | countDown timer => cases timer <;> exact ⟨rfl, rfl, rfl, rfl, rfl, rfl⟩

theorem sameInside_after (m : Machine) (events : List Event) : SameInside m (m.after events) := by
  induction events generalizing m with
  | nil => exact ⟨rfl, rfl, rfl, rfl, rfl, rfl⟩
  | cons event rest ih => exact (sameInside_apply m event).trans (ih (m.apply event).2)

/-! ### Outside -/

/-- Agreement on what events reach, except for the latch. -/
structure SameOutside (m n : Machine) : Prop where
  delay : n.delay = m.delay
  sound : n.sound = m.sound
  held : n.keypad.held = m.keypad.held
  stopRequested : n.stopRequested = m.stopRequested

theorem held_press (k : Keypad) (key : Nat) : (k.apply (.press key)).2.held =
    if known : key < 16 then k.held.write ⟨key, known⟩ true else k.held := by
  simp only [Keypad.apply, Keypad.press]
  by_cases known : key < 16
  · simp only [known, dite_true]
    split <;> rfl
  · simp only [known, dite_false]

theorem held_release (k : Keypad) (key : Nat) : (k.apply (.release key)).2.held =
    if known : key < 16 then k.held.write ⟨key, known⟩ false else k.held := by
  simp only [Keypad.apply, Keypad.release]
  by_cases known : key < 16
  · simp only [known, dite_true]
    rfl
  · simp only [known, dite_false]

/-- What an event makes of the keys does not depend on the latch. -/
theorem held_apply {k l : Keypad} (same : l.held = k.held) (event : Keypad.Event) :
    (l.apply event).2.held = (k.apply event).2.held := by
  cases event with
  | press key => rw [held_press, held_press, same]
  | release key => rw [held_release, held_release, same]
  | interrupt => exact same

theorem SameOutside.apply {m n : Machine} (same : SameOutside m n) (event : Event) :
    SameOutside (m.apply event).2 (n.apply event).2 := by
  obtain ⟨delay, sound, held, stopRequested⟩ := same
  cases event with
  | keypad event => exact ⟨delay, sound, held_apply held event, stopRequested⟩
  | stop => exact ⟨delay, sound, held, rfl⟩
  | countDown timer =>
    cases timer with
    | delay => exact ⟨congrArg Timer.countDown delay, sound, held, stopRequested⟩
    | sound => exact ⟨delay, congrArg Timer.countDown sound, held, stopRequested⟩

theorem SameOutside.after {m n : Machine} (same : SameOutside m n) (events : List Event) :
    SameOutside (m.after events) (n.after events) := by
  induction events generalizing m n with
  | nil => exact same
  | cons event rest ih => exact ih (same.apply event)

/-- No event takes a stop request back. -/
theorem stopRequested_after {m : Machine} (raised : m.stopRequested = true) (events : List Event) :
    (m.after events).stopRequested = true := by
  induction events generalizing m with
  | nil => exact raised
  | cons event rest ih =>
    apply ih
    cases event with
    | keypad event => exact raised
    | stop => rfl
    | countDown timer => cases timer <;> exact raised

/-! ### The end of a wait -/

/-- The machine after groups of events. -/
theorem snd_applyAll_applyAll (m : Machine) (groups : List (List Event)) :
    (applyAll (applyAll apply) m groups).2 = m.after groups.flatten := by
  rw [after, applyAll_flatten]

/-- A wait that has met these groups of events. No look before the last of them has found
anything in the latch, and the look that follows it finds `found`. -/
structure Awaits (m : Machine) (met : List (List Event)) (found : Wakeup) : Prop where
  parked : ∀ seen, seen <+: met → seen ≠ met → (m.after seen.flatten).keypad.look = .parked
  found : (m.after met.flatten).keypad.look = found

end Chip8.Machine
