import Chip8.Proofs.Machine.Lockstep

/-!
# Settings have no influence

The settings decide what is printed before a tick and how long a host pauses after
it. What the tick computes is the same under all of them: machines that agree without
their settings go on in lockstep, whatever their sessions print.
-/
namespace Chip8

namespace Machine

/-- The machine without its settings. -/
def bare (m : Machine) : Machine := { m with settings := { } }

theorem simulation_bare : Simulation fun m n => n.bare = m.bare where
  memory same := congrArg (fun m => m.memory) same
  registers same := congrArg (fun m => m.registers) same
  keypad same := congrArg (fun m => m.keypad) same
  pixels same := congrArg (fun m => m.screen.pixels) same
  delay same := congrArg (fun m => m.delay.value) same
  status same := congrArg (fun m => m.status) same
  stopRequested same := congrArg (fun m => m.stopRequested) same
  withMemory same memory := congrArg (fun m => { m with memory }) same
  withRegisters same registers := congrArg (fun m => m.withRegisters registers) same
  withKeypad same keypad := congrArg (fun m => { m with keypad }) same
  withStatus same status := congrArg (fun m => { m with status }) same
  withStop same stopRequested := congrArg (fun m => { m with stopRequested }) same
  redraw same pixels :=
    congrArg (fun m => { m with screen := { m.screen with pixels }.bump }) same
  setDelay same value := congrArg (fun m => { m with delay := m.delay.set value }) same
  setSound same value := congrArg (fun m => { m with sound := m.sound.set value }) same
  countDownDelay same := congrArg (fun m => { m with delay := m.delay.countDown }) same
  countDownSound same := congrArg (fun m => { m with sound := m.sound.countDown }) same
  count same := congrArg (fun m => { m with cycle := m.cycle + 1 }) same

end Machine

namespace Session
open Machine

/-- The session without its settings and without what it has printed. -/
def bare (s : Session) : Session := { s with machine := s.machine.bare, printed := #[] }

theorem lockstep_iff_bare {s t : Session} :
    Lockstep (fun m n => n.bare = m.bare) (fun _ _ => True) s t ↔ t.bare = s.bare := by
  constructor
  · rintro ⟨machine, arrivals, answers, -⟩
    simp only [bare, machine, arrivals, answers]
  · intro same
    exact ⟨congrArg (fun s => s.machine) same, congrArg (fun s => s.arrivals) same,
      congrArg (fun s => s.answers) same, trivial⟩

/-- Sessions that differ in their settings only do the same. -/
theorem ticks_congr {s t : Session} (same : t.bare = s.bare) (world : World) (count first : Nat) :
    (ticks world count first t).1 = (ticks world count first s).1 ∧
      (ticks world count first t).2.bare = (ticks world count first s).2.bare := by
  have lockstep := lockstep_iff_bare.mpr same
  obtain ⟨outcome, later⟩ := lockstep.ticks simulation_bare.correspondence simulation_bare.sumsAlike
    (fun _ _ _ => trivial) world count first
  exact ⟨outcome, lockstep_iff_bare.mp later⟩

theorem before_congr {s t : Session} (same : t.bare = s.bare) (world : World) (number : Nat) :
    (t.before world number).bare = (s.before world number).bare := by
  have lockstep := lockstep_iff_bare.mpr same
  exact lockstep_iff_bare.mp (lockstep.meet simulation_bare.correspondence (world.between number))

end Session

end Chip8
