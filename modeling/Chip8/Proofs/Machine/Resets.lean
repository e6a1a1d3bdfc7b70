import Chip8.Proofs.Machine.Companions

/-!
# A reset forgets everything but memory

What a reset leaves over, besides memory and settings, is the number of draws, the
observers, and where the clocks of the timers stand. None of it has any influence on what
the machine does. So from the outside a machine after a reset is a new machine with the
same memory, and it stays one whatever is requested of both.
-/
namespace Chip8

namespace Timer

/-! ### Clocks do not change the value on their own -/

theorem value_clockStep (t : Timer) : (t.clockStep false).value = t.value := by
  unfold clockStep
  cases t.phase with
  | testing =>
    simp only
    split
    · rfl
    · split
      · split <;> rfl
      · split <;> rfl
  | parked notified => cases notified <;> rfl
  | sleeping =>
    simp only
    split <;> rfl
  | _ => rfl

theorem value_clockSteps (steps : Nat) (t : Timer) :
    (clockSteps false steps t).value = t.value := by
  induction steps generalizing t with
  | zero => rfl
  | succ steps ih => exact (ih (t.clockStep false)).trans t.value_clockStep

theorem value_cancel (t : Timer) : t.cancel.value = t.value :=
  value_clockSteps 8 t.requestStop.notify

theorem value_observe (t : Timer) (id : Nat) : (t.observe id).value = t.value := by
  unfold observe
  simp only
  split <;> rfl

theorem value_countDown {t u : Timer} (same : u.value = t.value) :
    u.countDown.value = t.countDown.value := by
  simp only [countDown, same]

end Timer

namespace Machine

variable {draws : UInt64} {m n : Machine}

/-- Agreement on everything that can be seen, but for a number of draws. -/
structure Equivalent (draws : UInt64) (m n : Machine) : Prop where
  settings : n.settings = m.settings
  memory : n.memory = m.memory
  registers : n.registers = m.registers
  keypad : n.keypad = m.keypad
  status : n.status = m.status
  cycle : n.cycle = m.cycle
  stopRequested : n.stopRequested = m.stopRequested
  delay : n.delay.value = m.delay.value
  sound : n.sound.value = m.sound.value
  pixels : n.screen.pixels = m.screen.pixels
  generation : n.screen.generation = m.screen.generation + draws

theorem generation_bump {s t : Screen} (same : t.generation = s.generation + draws) :
    t.bump.generation = s.bump.generation + draws := by
  simp only [Screen.bump, same, UInt64.add_assoc, UInt64.add_comm draws]

theorem simulation_equivalent (draws : UInt64) : Simulation (Equivalent draws) where
  memory same := same.memory
  registers same := same.registers
  keypad same := same.keypad
  pixels same := same.pixels
  delay same := same.delay
  status same := same.status
  stopRequested same := same.stopRequested
  withMemory same _ := { same with memory := rfl }
  withRegisters same _ := { same with registers := rfl }
  withKeypad same _ := { same with keypad := rfl }
  withStatus same _ := { same with status := rfl }
  withStop same _ := { same with stopRequested := rfl }
  redraw same _ := { same with pixels := rfl, generation := generation_bump same.generation }
  setDelay same _ := { same with delay := rfl }
  setSound same _ := { same with sound := rfl }
  countDownDelay same := { same with delay := Timer.value_countDown same.delay }
  countDownSound same := { same with sound := Timer.value_countDown same.sound }
  count same := { same with cycle := congrArg (· + 1) same.cycle }

/-! ### Requests -/

theorem traceText_equivalent (same : Equivalent draws m n) : n.traceText = m.traceText := by
  have fetch := (simulation_equivalent draws).correspondence.fetch same
  unfold traceText traceLine
  rw [same.settings, same.status, fetch, same.cycle, same.registers]

/-- Equivalent machines do the same with a request, and stay equivalent. -/
theorem companions_equivalent (draws : UInt64) : Companions Eq (Equivalent draws) where
  toCorrespondence := (simulation_equivalent draws).correspondence
  traceText same := traceText_equivalent same
  reset same := by
    -- Both get the same values, and the difference in draws is older than the reset.
    rw [reset_eq, reset_eq, Screen.clear_eq, Screen.clear_eq]
    exact ⟨same.settings, same.memory, rfl, rfl, rfl, rfl, rfl, rfl, rfl, rfl,
      generation_bump same.generation⟩
  toggleDebug same :=
    { same with settings := congrArg (fun s => { s with debug := !s.debug }) same.settings }
  observeTone same id :=
    { same with sound := by simp only [observeTone, Timer.value_observe, same.sound] }
  shutdown same :=
    -- The clocks may take different steps to their exits, but none that counts down.
    { same with
      delay := by simp only [shutdown, Timer.value_cancel, same.delay]
      sound := by simp only [shutdown, Timer.value_cancel, same.sound] }

theorem reply_equivalent (same : Equivalent draws m n) (request : Request) :
    n.reply request = m.reply request :=
  ((companions_equivalent draws).answered_of_sums same
    (simulation_equivalent draws).sumsAlike request).reply

theorem performAll_equivalent (same : Equivalent draws m n) (requests : List Request) :
    Equivalent draws (m.performAll requests) (n.performAll requests) :=
  (companions_equivalent draws).performAll same (simulation_equivalent draws).sumsAlike requests

/-! ### Resets -/

theorem equivalent_reset (m : Machine) :
    Equivalent (m.screen.generation + 1) { new m.settings with memory := m.memory } m.reset := by
  rw [reset_eq, Screen.clear_eq]
  exact ⟨rfl, rfl, rfl, rfl, rfl, rfl, rfl, rfl, rfl, rfl, (UInt64.zero_add _).symm⟩

/-- Whatever a machine has been through, after a reset it agrees with a new machine that
has its settings and its memory. Whatever is then requested of both, they give the same
replies and stay the same, but for the number of draws before the reset. -/
theorem reset_forgets (m : Machine) :
    let fresh := { new m.settings with memory := m.memory }
    let draws := m.screen.generation + 1
    Equivalent draws fresh m.reset ∧
      ∀ requests, Equivalent draws (fresh.performAll requests) (m.reset.performAll requests) ∧
        ∀ request, (m.reset.performAll requests).reply request =
          (fresh.performAll requests).reply request := by
  intro fresh draws
  have same := equivalent_reset m
  refine ⟨same, ?_⟩
  intro requests
  have later := performAll_equivalent same requests
  exact ⟨later, fun request => reply_equivalent later request⟩

end Machine

end Chip8
