import Chip8.Machine.Simulation
import Chip8.Machine.Tick

/-!
# Idling

A tick is *sure* if neither a random byte nor a key has a part in it. A machine
idles if sure ticks lead it back to where it was, but for the number of cycles and
the number of changes of its screen. Nothing it does depends on these two numbers,
any more than on its settings, so until somebody else acts it makes the same round
again and again, and rounds can be left out as long as they are counted.
-/
namespace Chip8

/-- What a round adds to the two counters. -/
structure Round where
  ticks : Nat
  draws : Nat
deriving DecidableEq, Repr

/-- Several rounds at once. -/
def Round.times (r : Round) (n : Nat) : Round := ⟨n * r.ticks, n * r.draws⟩

/-! ### Counters have no influence -/

/-- The same picture after more changes. -/
def Screen.later (s : Screen) (draws : Nat) : Screen :=
  { s with generation := s.generation + UInt64.ofNat draws }

theorem Screen.later_bump (s : Screen) (draws : Nat) :
    (s.later draws).bump = s.bump.later draws := by
  simp only [later, bump, UInt64.add_assoc, UInt64.add_comm (UInt64.ofNat draws)]

namespace Machine

/-- The same machine after a round. -/
def later (m : Machine) (r : Round) : Machine :=
  { m with cycle := m.cycle + UInt64.ofNat r.ticks, screen := m.screen.later r.draws }

theorem later_count (m : Machine) (r : Round) :
    { m.later r with cycle := (m.later r).cycle + 1 } =
      { m with cycle := m.cycle + 1 }.later r := by
  simp only [later, UInt64.add_assoc, UInt64.add_comm (UInt64.ofNat r.ticks)]

theorem agreement_later (r : Round) : Agreement fun m n => n = m.later r := by
  constructor
  case redraw =>
    rintro m n rfl pixels
    exact congrArg (fun screen => { m.later r with screen })
      (Screen.later_bump { m.screen with pixels } r.draws)
  case count =>
    rintro m n rfl
    exact m.later_count r
  all_goals
    rintro m n rfl
    intros
    rfl

theorem simulation_later (r : Round) : Simulation fun m n => n = m.later r where
  toAgreement := agreement_later r
  registers := by
    rintro m n rfl
    rfl
  withRegisters := by
    rintro m n rfl registers
    rfl

theorem execute_later (m : Machine) (r : Round) (random : UInt8) (instruction : Instruction) :
    (m.later r).execute random instruction =
      (m.execute random instruction).within (·.later r) :=
  (simulation_later r).execute_map m random instruction

/-! ### Sure ticks -/

end Machine

/-- Whether neither a random byte nor a key decides what the operation does. -/
def Operation.sure : Operation → Bool
  | .immediate .random => false
  | .register .waitKey => false
  | _ => true

namespace Machine

/-- A tick that executes a sure instruction, if the next one is of that kind and
does not fail. -/
def sureTick? (m : Machine) : Option Machine :=
  let m := { m with cycle := m.cycle + 1 }
  match m.fetch with
  | .ok w =>
    match Instruction.decode w with
    | some instruction =>
      if instruction.operation.sure then
        match m.execute 0 instruction with
        | (.ok .done, m) => some m.advance
        | _ => none
      else none
    | none => none
  | .error _ => none

/-- A sure instruction does the same whatever byte is drawn. -/
theorem execute_of_sure {instruction : Instruction}
    (sure : instruction.operation.sure = true) (m : Machine) (random : UInt8) :
    m.execute random instruction = m.execute 0 instruction := by
  cases instruction with
  | immediate op x b =>
    cases op with
    | random => simp [Instruction.operation, Operation.sure] at sure
    | _ => rfl
  | _ => rfl

/-- A sure tick is the next tick, whatever byte is drawn. -/
theorem beginTick_of_sureTick? {m n : Machine} (running : m.status = .running)
    (sure : m.sureTick? = some n) (random : UInt8) :
    m.beginTick random = .finished (.ok ()) n := by
  obtain ⟨settings, memory, screen, registers, delay, sound, keypad, status, cycle, stop⟩ := m
  cases running
  simp only [sureTick?] at sure
  -- A sure tick asks for the same things in the same order as any other.
  split at sure
  next w fetched =>
    split at sure
    next instruction decoded =>
      split at sure
      next kind =>
        split at sure
        next after done =>
          cases sure
          simp only [beginTick, fetched, turn, decoded, execute_of_sure kind, done]
        next => cases sure
      next => cases sure
    next => cases sure
  next => cases sure

theorem sureTick?_later (m : Machine) (r : Round) :
    (m.later r).sureTick? = m.sureTick?.map fun n => n.later r := by
  simp only [sureTick?, later_count, execute_later]
  generalize ({ m with cycle := m.cycle + 1 } : Machine) = m
  have fetched : (m.later r).fetch = m.fetch := rfl
  rw [fetched]
  cases m.fetch with
  | error abort => rfl
  | ok w =>
    cases decoded : Instruction.decode w with
    | none => simp only [decoded, Option.map_none]
    | some instruction =>
      simp only [decoded]
      cases instruction.operation.sure with
      | false => rfl
      | true =>
        obtain ⟨abort | progress, n⟩ := m.execute 0 instruction
        · rfl
        · cases progress <;> rfl

/-- Several sure ticks. -/
def sureTicks? : Nat → Machine → Option Machine
  | 0, m => some m
  | count + 1, m => m.sureTick?.bind (sureTicks? count)

theorem sureTicks?_later (count : Nat) (m : Machine) (r : Round) :
    sureTicks? count (m.later r) = (sureTicks? count m).map fun n => n.later r := by
  induction count generalizing m with
  | zero => rfl
  | succ count ih =>
    simp only [sureTicks?, sureTick?_later]
    cases m.sureTick? with
    | none => rfl
    | some n => exact ih n

theorem sureTicks?_add (first second : Nat) (m : Machine) :
    sureTicks? (first + second) m = (sureTicks? first m).bind (sureTicks? second) := by
  induction first generalizing m with
  | zero => rw [Nat.zero_add]; rfl
  | succ first ih =>
    rw [Nat.succ_add]
    simp only [sureTicks?]
    cases m.sureTick? with
    | none => rfl
    | some n => exact ih n

theorem later_later (m : Machine) (r s : Round) :
    (m.later r).later s = m.later ⟨r.ticks + s.ticks, r.draws + s.draws⟩ := by
  simp only [later, Screen.later, UInt64.ofNat_add, UInt64.add_assoc]

/-- A machine that has made one round can make any number of them. -/
theorem sureTicks?_times {m : Machine} {r : Round}
    (round : sureTicks? r.ticks m = some (m.later r)) (n : Nat) :
    sureTicks? (n * r.ticks) m = some (m.later (r.times n)) := by
  induction n with
  | zero => simp [sureTicks?, later, Screen.later, Round.times]
  | succ n ih =>
    rw [Nat.succ_mul, Nat.add_comm, sureTicks?_add, round, Option.bind_some, sureTicks?_later, ih,
      Option.map_some, later_later]
    simp only [Round.times, Nat.succ_mul]

/-! ### Finding a round -/

/-- The round that has led from `home` to `m` in so many ticks, if it is one. -/
def roundFrom? (home : Machine) (ticks : Nat) (m : Machine) : Option Round :=
  let round : Round := ⟨ticks, (m.screen.generation - home.screen.generation).toNat⟩
  if m = home.later round then some round else none

/-- Looks for a round among the next `count` ticks. The machine has left `home` so
many ticks ago. When it comes back to the registers of its home and is not the
same, it looks for a new home there, `moves` times at most. -/
def findRound? : (count moves : Nat) → (home : Machine) → (ticks : Nat) → Machine →
    Option (Machine × Round)
  | 0, _, _, _, _ => none
  | count + 1, moves, home, ticks, m =>
    match m.sureTick? with
    | none => none
    | some m =>
      if m.registers.pc = home.registers.pc ∧ m.registers = home.registers then
        match roundFrom? home (ticks + 1) m, moves with
        | some round, _ => some (home, round)
        | none, 0 => none
        | none, moves + 1 => findRound? count moves m 0 m
      else findRound? count moves home (ticks + 1) m

/-- A machine that this one becomes, and the round that it makes from then on. -/
def idle? (m : Machine) (count : Nat) : Option (Machine × Round) :=
  match m.status with
  | .running => findRound? count 2 m 0 m
  | .halted => none

theorem sureTicks?_of_findRound? {count moves ticks lead : Nat} {start home m idle : Machine}
    {round : Round} (led : sureTicks? lead start = some home)
    (left : sureTicks? ticks home = some m)
    (found : findRound? count moves home ticks m = some (idle, round)) :
    0 < round.ticks ∧ ∃ lead, sureTicks? lead start = some idle ∧
      sureTicks? round.ticks idle = some (idle.later round) := by
  induction count generalizing moves ticks lead home m with
  | zero => cases found
  | succ count ih =>
    simp only [findRound?] at found
    split at found
    next => cases found
    next n sure =>
      have more : sureTicks? (ticks + 1) home = some n := by
        rw [sureTicks?_add, left, Option.bind_some]
        simp only [sureTicks?, sure, Option.bind_some]
      -- Back at the registers of its home, the machine has made a round or moves its home here.
      split at found
      next =>
        split at found
        next same =>
          cases found
          unfold roundFrom? at same
          simp only at same
          split at same
          next equal =>
            cases same
            exact ⟨Nat.succ_pos ticks, lead, led, more.trans (congrArg some equal)⟩
          next => cases same
        next => cases found
        next =>
          have moved : sureTicks? (lead + (ticks + 1)) start = some n := by
            rw [sureTicks?_add, led, Option.bind_some, more]
          exact ih moved rfl found
      next => exact ih led more found

/-- Rounds of an idle machine can be left out: so many sure ticks lead to the same
machine, later by so many rounds. -/
theorem sureTicks?_of_idle? {m idle : Machine} {count : Nat} {round : Round}
    (found : m.idle? count = some (idle, round)) :
    0 < round.ticks ∧ ∃ lead, sureTicks? lead m = some idle ∧
      ∀ n, sureTicks? (n * round.ticks) idle = some (idle.later (round.times n)) := by
  unfold idle? at found
  split at found
  next =>
    have here : sureTicks? 0 m = some m := rfl
    obtain ⟨moves, lead, led, trip⟩ := sureTicks?_of_findRound? here here found
    exact ⟨moves, lead, led, sureTicks?_times trip⟩
  next => cases found

end Machine

end Chip8
