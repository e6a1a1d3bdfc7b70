import Chip8.Proofs.Machine.Invariant

/-!
# Requests aside and requests in a row

Most requests do not take part in the course of a program: they leave alone whether
the machine runs, how far it has come, where its calls return to and what it shows.
What is left are ticks, runs and resets. Ticks and runs of a halted machine do nothing
either, so only a reset sets it going again, whatever else is requested before.
-/
namespace Chip8.Machine

/-- Whether the request neither ticks nor resets the machine. -/
def Request.aside : Request → Bool
  | .tick _ _ => false
  | .run _ _ _ => false
  | .reset => false
  | _ => true

/-- What a request aside leaves alone. -/
structure Passed (m n : Machine) : Prop where
  status : n.status = m.status
  cycle : n.cycle = m.cycle
  stack : n.registers.stack = m.registers.stack
  sp : n.registers.sp = m.registers.sp
  screen : n.screen = m.screen

theorem passed_perform (m : Machine) {request : Request} (aside : request.aside = true) :
    Passed m (m.perform request).2 := by
  cases request with
  | load program =>
    exact ⟨rfl, rfl, rfl, rfl, rfl⟩
  | setRegister register value =>
    simp only [perform, setRegister]
    by_cases known : register < 16
    · simp only [known, dite_true]
      exact ⟨rfl, rfl, rfl, rfl, rfl⟩
    · simp only [known, dite_false]
      exact ⟨rfl, rfl, rfl, rfl, rfl⟩
  | setPc pc => exact ⟨rfl, rfl, rfl, rfl, rfl⟩
  | setIndex i => exact ⟨rfl, rfl, rfl, rfl, rfl⟩
  | memory update =>
    exact ⟨rfl, rfl, rfl, rfl, rfl⟩
  | event event =>
    have inside := sameInside_apply m event
    have registers := inside.registers
    exact ⟨inside.status, inside.cycle, congrArg Registers.stack registers,
      congrArg Registers.sp registers, inside.screen⟩
  | tick random arrivals => cases aside
  | run world count arrivals => cases aside
  | reset => cases aside
  | toggleDebug => exact ⟨rfl, rfl, rfl, rfl, rfl⟩
  | observeTone id => exact ⟨rfl, rfl, rfl, rfl, rfl⟩
  | shutdown => exact ⟨rfl, rfl, rfl, rfl, rfl⟩

/-- A host can put any word in front of a machine. -/
theorem perform_word {m : Machine} (wellFormed : m.WellFormed) {address : Nat}
    (here : m.registers.pc.toNat = address) (w : Word) :
    ∃ memory, m.perform (.memory (.word address w)) = (.done, { m with memory }) ∧
      { m with memory }.word = w := by
  obtain ⟨memory, written, full⟩ := Memory.exists_writeWord wellFormed.memory address w
  refine ⟨memory, ?_, ?_⟩
  · have updated : m.memory.update (.word address w) = (.ok (), memory) := written
    simp only [perform, updateMemory, updated]
    rfl
  · have read := Memory.readWord_eq full m.registers.pc.toNat
    rw [here, Memory.readWord_writeWord written, ← here] at read
    exact (Except.ok.inj read).symm

/-- A new machine with a word in front of it. It is irreducible so that no comparison of
machines evaluates its memory. -/
@[irreducible]
def fresh (w : Word) : Machine := ((new { }).perform (.memory (.word 0x200 w))).2

theorem fresh_eq (w : Word) :
    ∃ memory, (new { }).perform (.memory (.word 0x200 w)) = (.done, fresh w) ∧
      fresh w = { new { } with memory } ∧ (fresh w).word = w := by
  have here : (new { }).registers.pc.toNat = 0x200 := rfl
  obtain ⟨memory, placed, word⟩ := perform_word (wellFormed_new { }) here w
  have same : fresh w = { new { } with memory } := by
    unfold fresh
    exact congrArg Prod.snd placed
  rw [same]
  exact ⟨memory, placed, rfl, word⟩

theorem reachable_fresh (w : Word) : (fresh w).Reachable := by
  obtain ⟨memory, placed, -⟩ := fresh_eq w
  have done := congrArg Prod.fst placed
  unfold fresh
  apply Reachable.perform _ (.new { })
  intro blocked
  cases done.symm.trans blocked

@[simp]
theorem word_fresh (w : Word) : (fresh w).word = w := by
  obtain ⟨memory, -, -, word⟩ := fresh_eq w
  exact word

@[simp]
theorem registers_fresh (w : Word) : (fresh w).registers = Registers.initial := by
  obtain ⟨memory, -, same, -⟩ := fresh_eq w
  rw [same]
  rfl

@[simp]
theorem status_fresh (w : Word) : (fresh w).status = .running := by
  obtain ⟨memory, -, same, -⟩ := fresh_eq w
  rw [same]
  rfl

@[simp]
theorem stopRequested_fresh (w : Word) : (fresh w).stopRequested = false := by
  obtain ⟨memory, -, same, -⟩ := fresh_eq w
  rw [same]
  rfl

@[simp]
theorem keypad_fresh (w : Word) : (fresh w).keypad = .initial := by
  obtain ⟨memory, -, same, -⟩ := fresh_eq w
  rw [same]
  rfl

/-- A fresh machine by what is known of it, for a proof that would compute its memory else. -/
theorem exists_fresh (w : Word) :
    ∃ m, fresh w = m ∧ m.Reachable ∧ m.status = .running ∧ m.registers = .initial ∧ m.word = w :=
  ⟨fresh w, rfl, reachable_fresh w, status_fresh w, registers_fresh w, word_fresh w⟩

/-- A requested tick of a running machine ends in one of the six ways. -/
theorem ticked_perform {m : Machine} (wellFormed : m.WellFormed) (running : m.status = .running)
    (random : UInt8) (arrivals : List (List Event)) :
    Ticked m random arrivals (m.perform (.tick random arrivals)).1
      (m.perform (.tick random arrivals)).2 :=
  Session.ticked_tick (s := { machine := m, arrivals }) wellFormed running random

/-- A tick whose instruction ends well is done, whatever else is in memory or on the stack. -/
theorem beginTick_of_done {m n : Machine} (running : m.status = .running)
    (room : memorySize ≤ m.memory.size) {random : UInt8} {i : Instruction}
    (decoded : m.upcoming? = some i) (done : m.counted.execute random i = (.ok .done, n)) :
    m.beginTick random = .finished (.ok ()) n.advance := by
  have fetched : m.counted.fetch = .ok m.word := fetch_of_room room
  rw [beginTick_of_running running, fetched]
  simp only [turn]
  rw [show Instruction.decode m.word = some i from decoded]
  simp only [done]

theorem tick_of_done {m n : Machine} (running : m.status = .running)
    (room : memorySize ≤ m.memory.size) {random : UInt8} {i : Instruction}
    (decoded : m.upcoming? = some i) (done : m.counted.execute random i = (.ok .done, n))
    (arrivals : List (List Event)) : m.perform (.tick random arrivals) = (.done, n.advance) := by
  have finished := beginTick_of_done running room decoded done
  simp only [perform, Session.tick_of_finished (s := { machine := m, arrivals }) finished]
  rfl

/-! ### Halted for good -/

theorem tick_of_halted {m : Machine} (halted : m.status = .halted) (random : UInt8)
    (arrivals : List (List Event)) : m.perform (.tick random arrivals) = (.done, m) := by
  simp only [perform, Session.tick_of_halted (s := { machine := m, arrivals }) halted random]

theorem run_of_halted {m : Machine} (halted : m.status = .halted) (world : World) (count : Nat)
    (arrivals : List (List Event)) : m.perform (.run world (count + 1) arrivals) = (.done, m) := by
  simp only [perform, Session.run_of_halted (s := { machine := m, arrivals }) halted]

/-- Only a reset sets a halted machine going. -/
theorem halted_perform {m : Machine} (halted : m.status = .halted) {request : Request}
    (kept : request ≠ .reset) : (m.perform request).2.status = .halted := by
  cases aside : request.aside with
  | true => exact (passed_perform m aside).status.trans halted
  | false =>
    cases request with
    | tick random arrivals =>
      rw [tick_of_halted halted]
      exact halted
    | run world count arrivals =>
      cases count with
      | zero => exact halted
      | succ count =>
        rw [run_of_halted halted]
        exact halted
    | reset => exact absurd rfl kept
    | _ => cases aside

/-! ### In a row -/

theorem performAll_cons (m : Machine) (request : Request) (rest : List Request) :
    m.performAll (request :: rest) = (m.perform request).2.performAll rest := rfl

theorem wellFormed_performAll {m : Machine} (wellFormed : m.WellFormed) (requests : List Request) :
    (m.performAll requests).WellFormed := by
  induction requests generalizing m with
  | nil => exact wellFormed
  | cons request rest ih => exact ih (safe_perform wellFormed request).wellFormed

theorem halted_performAll {m : Machine} (halted : m.status = .halted) {requests : List Request}
    (kept : .reset ∉ requests) : (m.performAll requests).status = .halted := by
  induction requests generalizing m with
  | nil => exact halted
  | cons request rest ih =>
    rw [List.mem_cons, not_or] at kept
    exact ih (halted_perform halted (Ne.symm kept.1)) kept.2

end Chip8.Machine
