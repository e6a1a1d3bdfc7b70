import Chip8.Machine.Tick
import Chip8.Proofs.Machine.Effects
import Chip8.Proofs.Machine.Events

/-!
# How a tick ends

A tick of a well-formed running machine ends in one of six ways, and `ticked_tick`
says which. Events from outside only come in if the instruction waits for a key:
the wait meets some of them, and its end is decided by what it then finds in the
latch. A tick of a halted machine does nothing.
-/
namespace Chip8

namespace Machine

/-- The word at the program counter of a machine with a full memory. -/
def word (m : Machine) : Word :=
  Word.ofBytes (m.memory.byte m.registers.pc.toNat) (m.memory.byte (m.registers.pc.toNat + 1))

/-- The instruction at the program counter, if there is one. -/
def upcoming? (m : Machine) : Option Instruction := Instruction.decode m.word

/-- The machine that executes its next instruction. -/
def counted (m : Machine) : Machine := { m with cycle := m.cycle + 1 }

/-- The machine that waits for a key. -/
def armed (m : Machine) : Machine := { m.counted with keypad := m.keypad.arm }

theorem fetch_of_room {m : Machine} (room : memorySize ≤ m.memory.size) : m.fetch = .ok m.word :=
  Memory.readWord_of_room room _

theorem fetch_eq {m : Machine} (full : m.memory.Full) : m.fetch = .ok m.word :=
  fetch_of_room full.room

theorem upcoming?_of_fetch {m : Machine} {w : Word} (fetched : m.fetch = .ok w) :
    m.upcoming? = Instruction.decode w :=
  congrArg Instruction.decode (Memory.word_of_readWord fetched)

theorem WellFormed.counted {m : Machine} (wellFormed : m.WellFormed) : m.counted.WellFormed :=
  ⟨wellFormed.registers, wellFormed.memory⟩

theorem WellFormed.armed {m : Machine} (wellFormed : m.WellFormed) : m.armed.WellFormed :=
  ⟨wellFormed.registers, wellFormed.memory⟩

theorem beginTick_of_halted {m : Machine} (halted : m.status = .halted) (random : UInt8) :
    m.beginTick random = .finished (.ok ()) m := by
  unfold beginTick
  rw [halted]

theorem beginTick_of_running {m : Machine} (running : m.status = .running) (random : UInt8) :
    m.beginTick random =
      match m.counted.fetch with
      | .error abort => .finished (.error abort) m.counted
      | .ok w => m.counted.turn random w := by
  unfold beginTick
  split
  next halted =>
    rw [running] at halted
    cases halted
  next => rfl

/-- The ways in which the next instruction may end are those of any instruction. -/
theorem WellFormed.executed {m : Machine} (wellFormed : m.WellFormed) {i : Instruction}
    (decoded : m.upcoming? = some i) {random : UInt8} {ended : Attempt Machine Progress}
    (same : m.counted.execute random i = ended) : Executed m.counted i ended :=
  same ▸ executed_execute wellFormed.counted (Instruction.narrow_of_decode decoded) random

/-! ### Waking up -/

theorem wake?_of_parked {m : Machine} (parked : m.keypad.look = .parked) (x : Fin 16) :
    wake? x m = none := by
  simp only [wake?, Keypad.keyOrInterruption?, parked]

theorem wake?_of_pressed {m : Machine} {key : UInt8} (pressed : m.keypad.look = .pressed key)
    (x : Fin 16) :
    wake? x m = some (.ok (), (m.withRegisters (m.registers.setV x key)).advance) := by
  simp only [wake?, Keypad.keyOrInterruption?, pressed]

theorem wake?_of_interrupted {m : Machine} (interrupted : m.keypad.look = .interrupted)
    (x : Fin 16) : wake? x m = some (.error (.fault .interrupted), m.halt) := by
  simp only [wake?, Keypad.keyOrInterruption?, interrupted]

theorem parked_of_wake? {m : Machine} {x : Fin 16} (none : wake? x m = none) :
    m.keypad.look = .parked := by
  cases found : m.keypad.look with
  | parked => rfl
  | pressed key => simp [wake?_of_pressed found] at none
  | interrupted => simp [wake?_of_interrupted found] at none

theorem awaits_of_unanswered {m : Machine} {x : Fin 16} {met : List (List Event)}
    (unanswered : Unanswered (wake? x) (applyAll apply) m met) :
    m.Awaits met (m.after met.flatten).keypad.look := by
  refine ⟨fun seen before proper => ?_, rfl⟩
  have none := unanswered seen before proper
  rw [snd_applyAll_applyAll] at none
  exact parked_of_wake? none

/-! ### The beginning of a tick -/

/-- How far a tick comes by itself, with the machine that it leaves. An instruction that fails
has not changed anything. -/
inductive Begun (m : Machine) (random : UInt8) : Turn → Prop
  | unknown (undecodable : m.upcoming? = none) :
      Begun m random (.finished
        (.error (.fault (.unknownInstruction m.word m.registers.pc (programOffset m.registers.pc))))
        m.counted.halt)
  | refused {i : Instruction} {fault : Fault} (decoded : m.upcoming? = some i)
      (failed : m.counted.execute random i = (.error (.fault fault), m.counted)) :
      Begun m random (.finished (.error (.fault fault)) m.counted.halt)
  | executed {i : Instruction} {n : Machine} (decoded : m.upcoming? = some i)
      (done : m.counted.execute random i = (.ok .done, n)) :
      Begun m random (.finished (.ok ()) n.advance)
  | waiting {x : UInt64} (narrow : x.toNat < 16)
      (decoded : m.upcoming? = some (.register .waitKey x)) :
      Begun m random (.waiting ⟨x.toNat, narrow⟩ m.armed)

theorem begun_beginTick {m : Machine} (wellFormed : m.WellFormed) (running : m.status = .running)
    (random : UInt8) : Begun m random (m.beginTick random) := by
  have fetched : m.counted.fetch = .ok m.word := fetch_eq wellFormed.memory
  rw [beginTick_of_running running, fetched]
  simp only [turn]
  cases decoded : m.upcoming? with
  | none =>
    rw [show Instruction.decode m.word = none from decoded]
    exact .unknown decoded
  | some i =>
    rw [show Instruction.decode m.word = some i from decoded]
    generalize progress : m.counted.execute random i = ended
    have executed := wellFormed.executed decoded progress
    simp only [progress]
    -- All instructions but the wait for a key finish their tick themselves.
    cases executed with
    | underflow empty => exact .refused decoded progress
    | overflow full => exact .refused decoded progress
    | returned occupied popped => exact .executed decoded progress
    | called free pushed => exact .executed decoded progress
    | ordinary kind kept => exact .executed decoded progress
    | armed narrow => exact .waiting narrow decoded

/-- The wait for a key does not end by itself. -/
theorem beginTick_of_wait {m : Machine} (wellFormed : m.WellFormed) (running : m.status = .running)
    {x : UInt64} (decoded : m.upcoming? = some (.register .waitKey x)) (random : UInt8) :
    ∃ narrow, m.beginTick random = .waiting ⟨x.toNat, narrow⟩ m.armed := by
  have begun := begun_beginTick wellFormed running random
  generalize m.beginTick random = turn at begun ⊢
  cases begun with
  | unknown undecodable => cases undecodable.symm.trans decoded
  | refused again refused =>
    cases again.symm.trans decoded
    cases wellFormed.executed again refused
  | executed again done =>
    cases again.symm.trans decoded
    cases wellFormed.executed again done with
    | ordinary kind kept => cases kind
  | waiting narrow again =>
    cases again.symm.trans decoded
    exact ⟨narrow, rfl⟩

/-! ### One tick -/

/-- How a tick ends, with the machine that it leaves. -/
inductive Ticked (m : Machine) (random : UInt8) (arrivals : List (List Event)) :
    Outcome → Machine → Prop
  | unknown (undecodable : m.upcoming? = none) :
      Ticked m random arrivals
        (.failed
          (.fault (.unknownInstruction m.word m.registers.pc (programOffset m.registers.pc))))
        m.counted.halt
  | refused {i : Instruction} {fault : Fault} (decoded : m.upcoming? = some i)
      (failed : m.counted.execute random i = (.error (.fault fault), m.counted)) :
      Ticked m random arrivals (.failed (.fault fault)) m.counted.halt
  | executed {i : Instruction} {n : Machine} (decoded : m.upcoming? = some i)
      (done : m.counted.execute random i = (.ok .done, n)) :
      Ticked m random arrivals .done n.advance
  | pressed {x : UInt64} {key : UInt8} {met rest : List (List Event)} (narrow : x.toNat < 16)
      (decoded : m.upcoming? = some (.register .waitKey x)) (split : arrivals = met ++ rest)
      (awaits : m.armed.Awaits met (.pressed key)) :
      Ticked m random arrivals .done
        ((m.armed.after met.flatten).withRegisters (m.registers.setV ⟨x.toNat, narrow⟩ key)).advance
  | interrupted {x : UInt64} {met rest : List (List Event)}
      (decoded : m.upcoming? = some (.register .waitKey x)) (split : arrivals = met ++ rest)
      (awaits : m.armed.Awaits met .interrupted) :
      Ticked m random arrivals (.failed (.fault .interrupted)) (m.armed.after met.flatten).halt
  | blocked {x : UInt64} (decoded : m.upcoming? = some (.register .waitKey x))
      (awaits : m.armed.Awaits arrivals .parked) :
      Ticked m random arrivals .blocked (m.armed.after arrivals.flatten)

end Machine

namespace Session
open Machine

/-- The session after the line of its next tick has been printed. -/
def shown (s : Session) : Session :=
  if s.machine.traceText.isEmpty then s
  else { s with printed := s.printed.push s.machine.traceText }

theorem arrivals_shown (s : Session) : s.shown.arrivals = s.arrivals := by
  unfold shown
  split <;> rfl

theorem answers_shown (s : Session) : s.shown.answers = s.answers := by
  unfold shown
  split <;> rfl

theorem machine_shown (s : Session) : s.shown.machine = s.machine := by
  unfold shown
  split <;> rfl

theorem tick_of_finished {s : Session} {random : UInt8} {result : Except Abort Unit}
    {machine : Machine} (finished : s.machine.beginTick random = .finished result machine) :
    s.tick random = (.ofResult result, { s.shown with machine }) := by
  simp only [tick]
  rw [← shown, machine_shown, finished]

/-- The session at the end of a wait. -/
def ended (s : Session)
    (vigil : Vigil Machine (List Event) (List (Except Fault Keypad.Answer))
      (Except Abort Unit × Machine)) : Outcome × Session :=
  let answers := s.answers ++ vigil.answers.flatten.toArray
  let s := { s with arrivals := vigil.rest, answers }
  match vigil.result with
  | some (result, machine) => (.ofResult result, { s with machine })
  | none => (.blocked, { s with machine := vigil.state })

theorem tick_of_waiting {s : Session} {random : UInt8} {x : Fin 16} {machine : Machine}
    (waiting : s.machine.beginTick random = .waiting x machine) :
    s.tick random = s.shown.ended (awaitResult (wake? x) (applyAll apply) machine s.arrivals) := by
  simp only [tick]
  rw [← shown, machine_shown, waiting]
  simp only [arrivals_shown]
  rfl

theorem tick_of_halted {s : Session} (halted : s.machine.status = .halted) (random : UInt8) :
    s.tick random = (.done, s) := by
  have finished := beginTick_of_halted halted random
  have quiet : s.machine.traceText = "" := by
    unfold traceText
    simp only [halted, reduceCtorEq, and_false, if_false]
  have silent : s.shown = s := by
    unfold shown
    rw [quiet]
    rfl
  rw [tick_of_finished finished, silent]
  rfl

/-- The end of a wait for a key that has been armed. -/
theorem ticked_ended {s : Session} {m : Machine} {random : UInt8} {x : UInt64}
    (narrow : x.toNat < 16) (decoded : m.upcoming? = some (.register .waitKey x)) :
    let turn := s.ended (awaitResult (wake? ⟨x.toNat, narrow⟩) (applyAll apply) m.armed s.arrivals)
    Ticked m random s.arrivals turn.1 turn.2.machine := by
  obtain ⟨met, rest, split, eq, unanswered, last⟩ :=
    awaitResult_split (wake? ⟨x.toNat, narrow⟩) (applyAll apply) m.armed s.arrivals
  have awaits := awaits_of_unanswered unanswered
  have inside := sameInside_after m.armed met.flatten
  rw [snd_applyAll_applyAll] at last eq
  simp only [eq]
  show Ticked m random s.arrivals
    (s.ended ⟨wake? _ (m.armed.after met.flatten), m.armed.after met.flatten, _, rest⟩).1
    (s.ended ⟨wake? _ (m.armed.after met.flatten), m.armed.after met.flatten, _, rest⟩).2.machine
  -- What the latch holds at the last look decides how the wait ends.
  cases found : (m.armed.after met.flatten).keypad.look with
  | parked =>
    rw [found] at awaits
    have none := wake?_of_parked found ⟨x.toNat, narrow⟩
    rw [last none, List.append_nil] at split
    rw [none, split]
    exact .blocked decoded awaits
  | pressed key =>
    rw [found] at awaits
    rw [wake?_of_pressed found, inside.registers]
    exact .pressed narrow decoded split awaits
  | interrupted =>
    rw [found] at awaits
    rw [wake?_of_interrupted found]
    exact .interrupted decoded split awaits

/-- A tick of a well-formed running machine ends in one of the six ways, and in no other. -/
theorem ticked_tick {s : Session} (wellFormed : s.machine.WellFormed)
    (running : s.machine.status = .running) (random : UInt8) :
    Ticked s.machine random s.arrivals (s.tick random).1 (s.tick random).2.machine := by
  -- What the machine does alone decides everything but the end of a wait.
  generalize begun : s.machine.beginTick random = turn
  have alone := begun_beginTick wellFormed running random
  rw [begun] at alone
  cases alone with
  | unknown undecodable =>
    rw [tick_of_finished begun]
    exact .unknown undecodable
  | refused decoded failed =>
    rw [tick_of_finished begun]
    exact .refused decoded failed
  | executed decoded done =>
    rw [tick_of_finished begun]
    exact .executed decoded done
  | waiting narrow decoded =>
    rw [tick_of_waiting begun, ← s.arrivals_shown]
    exact ticked_ended narrow decoded

end Session

end Chip8
