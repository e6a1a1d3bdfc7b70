import Chip8.Machine.History
import Chip8.Proofs.Machine.Lockstep

/-!
# Companions

A host learns from a machine what it replies to requests. Machines that correspond, also
after what only a host can do to them, give the same replies to the same requests, and
correspond again after each of them. So whatever distinguishes them cannot be noticed from
outside, however long one tries.
-/
namespace Chip8.Machine

/-- All that a request tells: how it ends, what those are answered who act in the
meantime, what they have left to do, and what is printed. -/
structure Reply where
  outcome : Outcome
  answers : Array (Except Fault Keypad.Answer) := #[]
  arrivals : List (List Event) := []
  printed : Array String := #[]

def Reply.ofSession (ended : Outcome × Session) : Reply :=
  { outcome := ended.1
    answers := ended.2.answers
    arrivals := ended.2.arrivals
    printed := ended.2.printed }

def reply (m : Machine) (request : Request) : Reply :=
  match request with
  | .event event => { outcome := (m.perform request).1, answers := #[(m.apply event).1] }
  | .tick random arrivals => .ofSession (Session.tick { machine := m, arrivals } random)
  | .run world count arrivals => .ofSession (Session.run world count 0 { machine := m, arrivals })
  | _ => { outcome := (m.perform request).1 }

/-- A correspondence of machines that show the same before a tick and that go on to
correspond after what only a host does. -/
structure Companions (Q : Registers → Registers → Prop) (R : Machine → Machine → Prop) : Prop
    extends Correspondence Q R where
  traceText {m n : Machine} (related : R m n) : n.traceText = m.traceText
  reset {m n : Machine} (related : R m n) : R m.reset n.reset
  toggleDebug {m n : Machine} (related : R m n) : R m.toggleDebug n.toggleDebug
  observeTone {m n : Machine} (related : R m n) (id : Nat) : R (m.observeTone id) (n.observeTone id)
  shutdown {m n : Machine} (related : R m n) : R m.shutdown n.shutdown

/-- Both machines reply the same, and correspond again. -/
structure Answered (R : Machine → Machine → Prop) (m n : Machine) (request : Request) : Prop where
  reply : n.reply request = m.reply request
  related : R (m.perform request).2 (n.perform request).2

/-- Sessions of machines that correspond, with everything else the same. -/
abbrev Twins (R : Machine → Machine → Prop) : Session → Session → Prop :=
  Session.Lockstep R fun first second => second = first

variable {Q : Registers → Registers → Prop} {R : Machine → Machine → Prop} {m n : Machine}

theorem twins_of_related (related : R m n) (arrivals : List (List Event)) :
    Twins R { machine := m, arrivals } { machine := n, arrivals } :=
  ⟨related, rfl, rfl, rfl⟩

theorem ofSession_of_joint {first second : Outcome × Session}
    (joint : Session.Joint R (fun first second => second = first) first second) :
    Reply.ofSession second = Reply.ofSession first := by
  obtain ⟨outcome, machine, arrivals, answers, printed⟩ := joint
  unfold Reply.ofSession
  rw [outcome, arrivals, answers, printed]

/-- A request during which nobody else acts tells its outcome only. -/
theorem answered_of_outcome {request : Request}
    (alone : ∀ m : Machine, m.reply request = { outcome := (m.perform request).1 })
    (same : (n.perform request).1 = (m.perform request).1 ∧
      R (m.perform request).2 (n.perform request).2) : Answered R m n request := by
  obtain ⟨outcome, related⟩ := same
  refine ⟨?_, related⟩
  rw [alone, alone, outcome]

theorem loadProgram_of_same (same : n.memory = m.memory) (program : List UInt8) :
    ∃ result memory, m.loadProgram program = (result, { m with memory }) ∧
      n.loadProgram program = (result, { n with memory }) := by
  unfold loadProgram
  rw [same]
  exact ⟨_, _, rfl, rfl⟩

namespace Companions

variable (companions : Companions Q R)
include companions

theorem shows (s t : Session) (twins : Twins R s t) : t.shown.printed = s.shown.printed := by
  unfold Session.shown
  rw [companions.traceText twins.machine]
  split
  · exact twins.printed
  · exact congrArg (fun printed => printed.push s.machine.traceText) twins.printed

variable (related : R m n)
include related

theorem load (program : List UInt8) : Answered R m n (.load program) := by
  obtain ⟨result, memory, first, second⟩ :=
    loadProgram_of_same (companions.memory related) program
  apply answered_of_outcome fun _ => rfl
  simp only [perform, first, second]
  exact ⟨trivial, companions.withMemory related memory⟩

theorem setRegister (register : Nat) (value : UInt8) :
    Answered R m n (.setRegister register value) := by
  apply answered_of_outcome fun _ => rfl
  simp only [perform, Machine.setRegister]
  by_cases known : register < 16
  · simp only [known, dite_true]
    exact ⟨trivial, companions.setV related ⟨register, known⟩ value⟩
  · simp only [known, dite_false]
    exact ⟨trivial, related⟩

theorem updateMemory (update : Memory.Update) : Answered R m n (.memory update) := by
  apply answered_of_outcome fun _ => rfl
  simp only [perform, Machine.updateMemory, companions.memory related]
  exact ⟨rfl, companions.withMemory related _⟩

theorem event (event : Event) : Answered R m n (.event event) := by
  obtain ⟨answer, after⟩ := companions.apply related event
  refine ⟨?_, after⟩
  simp only [reply, perform, answer]

theorem tick (sums : SumsAlike Q m n) (random : UInt8) (arrivals : List (List Event)) :
    Answered R m n (.tick random arrivals) := by
  have joint := (twins_of_related related arrivals).tick companions.toCorrespondence
    companions.shows sums random
  exact ⟨ofSession_of_joint joint, joint.2.machine⟩

theorem run (sums : ∀ m n, R m n → SumsAlike Q m n) (world : World) (count : Nat)
    (arrivals : List (List Event)) : Answered R m n (.run world count arrivals) := by
  have joint := (twins_of_related related arrivals).run companions.toCorrespondence sums
    companions.shows world count 0
  exact ⟨ofSession_of_joint joint, joint.2.machine⟩

/-- Companions answer a request alike, unless it adds to their index registers in ways that
can be told apart. -/
theorem answered (request : Request)
    (ticks : ∀ random arrivals, request = .tick random arrivals → SumsAlike Q m n)
    (runs : ∀ world count arrivals, request = .run world count arrivals →
      ∀ m n, R m n → SumsAlike Q m n) : Answered R m n request := by
  cases request with
  | load program => exact companions.load related program
  | setRegister register value => exact companions.setRegister related register value
  | setPc pc =>
    have alike := companions.congruence.withPc (companions.registers related) (wrapAddress pc)
    exact answered_of_outcome (fun _ => rfl) ⟨rfl, companions.withRegisters related alike⟩
  | setIndex i => exact answered_of_outcome (fun _ => rfl) ⟨rfl, companions.setIndex related i⟩
  | memory update => exact companions.updateMemory related update
  | event event => exact companions.event related event
  | tick random arrivals => exact companions.tick related (ticks _ _ rfl) random arrivals
  | run world count arrivals => exact companions.run related (runs _ _ _ rfl) world count arrivals
  | reset => exact answered_of_outcome (fun _ => rfl) ⟨rfl, companions.reset related⟩
  | toggleDebug => exact answered_of_outcome (fun _ => rfl) ⟨rfl, companions.toggleDebug related⟩
  | observeTone id =>
    exact answered_of_outcome (fun _ => rfl) ⟨rfl, companions.observeTone related id⟩
  | shutdown => exact answered_of_outcome (fun _ => rfl) ⟨rfl, companions.shutdown related⟩

variable (sums : ∀ m n, R m n → SumsAlike Q m n)
include sums

theorem answered_of_sums (request : Request) : Answered R m n request :=
  companions.answered related request (fun _ _ _ => sums m n related) fun _ _ _ _ => sums

theorem performAll (requests : List Request) :
    R (m.performAll requests) (n.performAll requests) := by
  induction requests generalizing m n with
  | nil => exact related
  | cons request rest ih => exact ih (companions.answered_of_sums related sums request).related

end Companions

/-! ### Machines that differ in their registers -/

/-- Machines that agree on everything but their registers, which are related. -/
inductive Beside (Q : Registers → Registers → Prop) (m : Machine) : Machine → Prop
  | intro {registers : Registers} (alike : Q m.registers registers) :
      Beside Q m (m.withRegisters registers)

theorem agreement_beside (Q : Registers → Registers → Prop) : Agreement (Beside Q) := by
  constructor
  -- Whatever is read is the same, and whatever is written leaves the registers alone.
  case memory | keypad | pixels | delay | status | stopRequested =>
    rintro m _ ⟨_⟩
    rfl
  all_goals
    rintro m _ ⟨alike⟩
    intros
    exact .intro alike

theorem correspondence_beside (congruence : Registers.Congruence Q) :
    Correspondence Q (Beside Q) where
  toAgreement := agreement_beside Q
  congruence := congruence
  registers := by
    rintro m _ ⟨alike⟩
    exact alike
  withRegisters := by
    rintro m _ ⟨_⟩ r s alike
    exact .intro alike

theorem companions_beside (congruence : Registers.Congruence Q) (refl : ∀ r, Q r r) :
    Companions Q (Beside Q) where
  toCorrespondence := correspondence_beside congruence
  traceText := by
    rintro m _ ⟨alike⟩
    have fetch := (correspondence_beside congruence).fetch (.intro alike)
    unfold Machine.traceText traceLine
    rw [fetch]
    simp only [withRegisters, congruence.pc alike]
  reset := by
    rintro m _ ⟨alike⟩
    rw [reset_eq, reset_eq]
    exact .intro (refl _)
  toggleDebug := by
    rintro m _ ⟨alike⟩
    exact .intro alike
  observeTone := by
    rintro m _ ⟨alike⟩ id
    exact .intro alike
  shutdown := by
    rintro m _ ⟨alike⟩
    exact .intro alike

end Chip8.Machine
