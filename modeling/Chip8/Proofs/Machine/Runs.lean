import Chip8.Proofs.Machine.Faults
import Chip8.Proofs.Machine.Settings

/-!
# Runs are ticks in a row

As long as nobody asks for a stop, a run does what the same number of ticks does, up
to and including the tick that fails. A stop request ends it at the next look, in
front of a tick. So a run has no effects of its own except for this halt, and none of
it depends on the settings under which it is made.

The flag is never lowered by an event or a tick. If it is down in the end, it has been
down at every look before.
-/
namespace Chip8

namespace Machine

variable {m n : Machine} {random : UInt8} {arrivals : List (List Event)} {outcome : Outcome}

/-- Every tick that ends counts a cycle, and the machine halts exactly if it has failed. -/
theorem Ticked.status_cycle (wellFormed : m.WellFormed) (running : m.status = .running)
    (ticked : Ticked m random arrivals outcome n) :
    n.cycle = m.cycle + 1 ∧ (outcome = .done → n.status = .running) ∧
      ∀ abort, outcome = .failed abort → n.status = .halted := by
  cases ticked with
  | unknown undecodable => exact ⟨rfl, by simp, fun _ _ => rfl⟩
  | refused decoded failed => exact ⟨rfl, by simp, fun _ _ => rfl⟩
  | executed decoded done =>
    have untouched := (wellFormed.executed decoded done).untouched
    exact ⟨untouched.cycle, fun _ => untouched.status.trans running, by simp⟩
  -- Whatever others do during a wait, they neither halt the machine nor count a cycle.
  | @pressed x key met rest narrow decoded split awaits =>
    have inside := sameInside_after m.armed met.flatten
    exact ⟨inside.cycle, fun _ => inside.status.trans running, by simp⟩
  | @interrupted x met rest decoded split awaits =>
    exact ⟨(sameInside_after m.armed met.flatten).cycle, by simp, fun _ _ => rfl⟩
  | blocked decoded awaits =>
    exact ⟨(sameInside_after m.armed arrivals.flatten).cycle, by simp, by simp⟩

/-- No tick takes a stop request back. -/
theorem Ticked.stopRequested (wellFormed : m.WellFormed)
    (ticked : Ticked m random arrivals outcome n) (raised : m.stopRequested = true) :
    n.stopRequested = true := by
  cases ticked with
  | unknown undecodable => exact raised
  | refused decoded failed => exact raised
  | executed decoded done =>
    have untouched := (wellFormed.executed decoded done).untouched
    exact untouched.stopRequested.trans raised
  | @pressed x key met rest narrow decoded split awaits =>
    exact stopRequested_after (m := m.armed) raised met.flatten
  | @interrupted x met rest decoded split awaits =>
    exact stopRequested_after (m := m.armed) raised met.flatten
  | blocked decoded awaits =>
    exact stopRequested_after (m := m.armed) raised arrivals.flatten

end Machine

namespace Session
open Machine

variable {world : World} {n count first : Nat} {s t : Session}

/-! ### Rounds -/

theorem ticked_round (wellFormed : s.machine.WellFormed) (running : s.machine.status = .running)
    (world : World) (number : Nat) :
    Ticked (s.before world number).machine (world.random number) s.arrivals
      (s.round world number).1 (s.round world number).2.machine :=
  ticked_tick (s := s.before world number) (wellFormed.after _)
    ((s.status_before world number).trans running) (world.random number)

theorem status_cycle_round (wellFormed : s.machine.WellFormed)
    (running : s.machine.status = .running) (world : World) (number : Nat) :
    let turn := s.round world number
    turn.2.machine.cycle = s.machine.cycle + 1 ∧
      (turn.1 = .done → turn.2.machine.status = .running) ∧
      ∀ abort, turn.1 = .failed abort → turn.2.machine.status = .halted := by
  have inside := sameInside_after s.machine (world.between number)
  have ticked := ticked_round wellFormed running world number
  obtain ⟨cycle, ends⟩ := ticked.status_cycle (wellFormed.after _) (inside.status.trans running)
  exact ⟨cycle.trans (congrArg (· + 1) inside.cycle), ends⟩

theorem stopRequested_round (wellFormed : s.machine.WellFormed)
    (raised : (s.before world first).machine.stopRequested = true) :
    (s.round world first).2.machine.stopRequested = true := by
  cases status : s.machine.status with
  | halted =>
    have halted : (s.before world first).machine.status = .halted :=
      (s.status_before world first).trans status
    unfold round
    rw [tick_of_halted halted]
    exact raised
  | running =>
    exact (ticked_round wellFormed status world first).stopRequested (wellFormed.after _) raised

/-! ### Ticks in a row -/

theorem round_of_ticks (done : (ticks world (n + 1) first s).1 = .done) :
    ∃ t, s.round world first = (.done, t) := by
  rcases s.round_cases world first with round | ⟨outcome, t, round, last⟩
  · exact round
  · rw [ticks_of_ended round last] at done
    exact absurd done last

theorem ticks_one (world : World) (first : Nat) (s : Session) :
    ticks world 1 first s = s.round world first := by
  rcases s.round_cases world first with ⟨t, round⟩ | ⟨outcome, t, round, last⟩
  · rw [round]
    exact ticks_of_done round
  · rw [round]
    exact ticks_of_ended round last

theorem ticks_add (done : (ticks world n first s).1 = .done) (count : Nat) :
    ticks world (n + count) first s =
      ticks world count (first + n) (ticks world n first s).2 := by
  induction n generalizing first s with
  | zero =>
    rw [Nat.zero_add]
    rfl
  | succ n ih =>
    obtain ⟨t, round⟩ := round_of_ticks done
    rw [ticks_of_done round] at done ⊢
    rw [Nat.succ_add, ticks_of_done round, ih done, Nat.add_assoc, Nat.add_comm 1 n]

theorem done_of_le (done : (ticks world n first s).1 = .done) (le : count ≤ n) :
    (ticks world count first s).1 = .done := by
  induction count generalizing first n s with
  | zero => rfl
  | succ count ih =>
    cases n with
    | zero => exact absurd le (Nat.not_succ_le_zero count)
    | succ n =>
      obtain ⟨t, round⟩ := round_of_ticks done
      rw [ticks_of_done round] at done ⊢
      exact ih done (Nat.le_of_succ_le_succ le)

/-- Ticks that are done leave a running machine and have counted their cycles. -/
theorem ticks_done (wellFormed : s.machine.WellFormed) (running : s.machine.status = .running)
    (done : (ticks world n first s).1 = .done) :
    (ticks world n first s).2.machine.WellFormed ∧
      (ticks world n first s).2.machine.status = .running ∧
      (ticks world n first s).2.machine.cycle = s.machine.cycle + UInt64.ofNat n := by
  induction n generalizing first s with
  | zero => exact ⟨wellFormed, running, (UInt64.add_zero _).symm⟩
  | succ n ih =>
    obtain ⟨t, round⟩ := round_of_ticks done
    have kept := wellFormed_round wellFormed world first
    obtain ⟨cycle, goes, -⟩ := status_cycle_round wellFormed running world first
    rw [round] at kept cycle goes
    rw [ticks_of_done round] at done ⊢
    obtain ⟨kept, goes, cycles⟩ := ih kept (goes rfl) done
    refine ⟨kept, goes, ?_⟩
    rw [cycles, cycle, UInt64.add_assoc, UInt64.add_comm 1, UInt64.ofNat_add]
    rfl

/-- A stop request that is seen before a tick is not taken back by any later one. -/
theorem stopRequested_ticks (wellFormed : s.machine.WellFormed)
    (raised : (s.before world first).machine.stopRequested = true) (count : Nat) :
    (ticks world (count + 1) first s).2.machine.stopRequested = true := by
  induction count generalizing first s with
  | zero =>
    rw [ticks_one]
    exact stopRequested_round wellFormed raised
  | succ count ih =>
    have kept := wellFormed_round wellFormed world first
    have still := stopRequested_round wellFormed raised
    rcases s.round_cases world first with ⟨t, round⟩ | ⟨outcome, t, round, last⟩
    · rw [round] at kept still
      rw [ticks_of_done round]
      -- The next look comes after more events, but none of them lowers the flag.
      exact ih kept (stopRequested_after still _)
    · rw [round] at still
      rw [ticks_of_ended round last]
      exact still

/-- No stop request is seen before any of the first `n` ticks. -/
def Unseen (s : Session) (world : World) (n first : Nat) : Prop :=
  ∀ k < n, ((ticks world k first s).2.before world (first + k)).machine.stopRequested = false

theorem Unseen.of_le (unseen : s.Unseen world n first) (le : count ≤ n) :
    s.Unseen world count first :=
  fun k before => unseen k (Nat.lt_of_lt_of_le before le)

/-- A flag that is down after the ticks has not been seen before any of them. -/
theorem unseen_of_lowered (wellFormed : s.machine.WellFormed)
    (running : s.machine.status = .running) (done : (ticks world n first s).1 = .done)
    (lowered : (ticks world (n + 1) first s).2.machine.stopRequested = false) :
    s.Unseen world (n + 1) first := by
  intro k before
  rw [← Bool.not_eq_true]
  intro raised
  have done := done_of_le done (Nat.le_of_lt_succ before)
  -- A request seen before tick `k` would still be there in the end.
  have still := stopRequested_ticks (ticks_done wellFormed running done).1 raised (n - k)
  have rest : n + 1 = k + (n - k + 1) := by omega
  rw [rest, ticks_add done, still] at lowered
  cases lowered

/-! ### Runs -/

/-- Until a tick fails or a stop request is seen, a run goes on like the ticks. -/
theorem run_add (wellFormed : s.machine.WellFormed) (running : s.machine.status = .running)
    (done : (ticks world n first s).1 = .done) (unseen : s.Unseen world n first) (count : Nat) :
    run world (n + count) first s = run world count (first + n) (ticks world n first s).2 := by
  induction n generalizing first s with
  | zero =>
    rw [Nat.zero_add]
    rfl
  | succ n ih =>
    obtain ⟨t, round⟩ := round_of_ticks done
    have kept := wellFormed_round wellFormed world first
    obtain ⟨-, goes, -⟩ := status_cycle_round wellFormed running world first
    rw [round] at kept goes
    have start : (s.before world first).machine.stopRequested = false := unseen 0 (Nat.succ_pos n)
    -- The looks after the first round are the looks of the remaining ticks.
    have later : t.Unseen world n (first + 1) := by
      intro k before
      have down := unseen (k + 1) (Nat.succ_lt_succ before)
      rw [ticks_of_done round, ← Nat.add_assoc, Nat.add_right_comm] at down
      exact down
    rw [ticks_of_done round] at done ⊢
    rw [Nat.add_right_comm, run_of_done running start round, ih kept (goes rfl) done later,
      Nat.add_assoc, Nat.add_comm 1 n]

/-- A run does not end before a tick fails or a stop request is seen. -/
theorem run_unfinished (wellFormed : s.machine.WellFormed) (running : s.machine.status = .running)
    (done : (ticks world n first s).1 = .done) (unseen : s.Unseen world n first) (le : count ≤ n) :
    run world count first s = (.unfinished, (ticks world count first s).2) :=
  run_add wellFormed running (done_of_le done le) (unseen.of_le le) 0

/-- A run ends with the tick that fails. -/
theorem run_failed (wellFormed : s.machine.WellFormed) (running : s.machine.status = .running)
    {abort : Abort} (done : (ticks world n first s).1 = .done)
    (failed : (ticks world (n + 1) first s).1 = .failed abort)
    (lowered : (ticks world (n + 1) first s).2.machine.stopRequested = false) (more : n < count) :
    run world count first s = (.failed abort, (ticks world (n + 1) first s).2) := by
  have unseen := unseen_of_lowered wellFormed running done lowered
  obtain ⟨kept, goes, -⟩ := ticks_done wellFormed running done
  obtain ⟨rest, rfl⟩ := Nat.exists_eq_add_of_lt more
  rw [ticks_add done, ticks_one] at failed lowered ⊢
  rw [Nat.add_assoc, run_add wellFormed running done (unseen.of_le (Nat.le_succ n))]
  -- The run has come to the tick that fails, and its last look has shown no request.
  have last : (ticks world n first s).2.round world (first + n) = (.failed abort, _) :=
    Prod.ext failed rfl
  exact run_of_ended goes (unseen n (Nat.lt_succ_self n)) last (by simp) fun _ => lowered

/-- A wait that a stop request cuts short ends the run well. -/
theorem run_cut (wellFormed : s.machine.WellFormed) (running : s.machine.status = .running)
    (done : (ticks world n first s).1 = .done) (unseen : s.Unseen world (n + 1) first)
    (cut : (ticks world (n + 1) first s).1 = .failed (.fault .interrupted))
    (raised : (ticks world (n + 1) first s).2.machine.stopRequested = true) (more : n < count) :
    run world count first s = (.done, (ticks world (n + 1) first s).2) := by
  obtain ⟨kept, goes, -⟩ := ticks_done wellFormed running done
  obtain ⟨rest, rfl⟩ := Nat.exists_eq_add_of_lt more
  rw [ticks_add done, ticks_one] at cut raised ⊢
  rw [Nat.add_assoc, run_add wellFormed running done (unseen.of_le (Nat.le_succ n))]
  -- The request has come during the last tick, after the last look.
  have last : (ticks world n first s).2.round world (first + n) =
      (.failed (.fault .interrupted), _) := Prod.ext cut rfl
  exact run_of_cut goes (unseen n (Nat.lt_succ_self n)) last raised

/-- A run ends in front of the tick before which it sees a stop request. -/
theorem run_stopped (wellFormed : s.machine.WellFormed) (running : s.machine.status = .running)
    (done : (ticks world n first s).1 = .done) (unseen : s.Unseen world n first)
    (raised : ((ticks world n first s).2.before world (first + n)).machine.stopRequested = true)
    (more : n < count) :
    let seen := (ticks world n first s).2.before world (first + n)
    run world count first s = (.done, { seen with machine := seen.machine.halt }) := by
  obtain ⟨kept, goes, -⟩ := ticks_done wellFormed running done
  obtain ⟨rest, rfl⟩ := Nat.exists_eq_add_of_lt more
  rw [Nat.add_assoc, run_add wellFormed running done unseen]
  exact run_of_stopped goes raised

/-! ### Under any settings -/

theorem stopRequested_congr (same : t.bare = s.bare) :
    t.machine.stopRequested = s.machine.stopRequested :=
  congrArg (fun s => s.machine.stopRequested) same

theorem Unseen.congr (same : t.bare = s.bare) (unseen : s.Unseen world n first) :
    t.Unseen world n first := by
  intro k before
  have later := (ticks_congr same world k first).2
  rw [stopRequested_congr (before_congr later world (first + k))]
  exact unseen k before

theorem halted_ticks (wellFormed : s.machine.WellFormed) (running : s.machine.status = .running)
    {abort : Abort} (done : (ticks world n first s).1 = .done)
    (failed : (ticks world (n + 1) first s).1 = .failed abort) :
    (ticks world (n + 1) first s).2.machine.status = .halted ∧
      (ticks world (n + 1) first s).2.machine.cycle = s.machine.cycle + UInt64.ofNat (n + 1) := by
  obtain ⟨kept, goes, cycles⟩ := ticks_done wellFormed running done
  rw [ticks_add done, ticks_one] at failed ⊢
  obtain ⟨cycle, -, halts⟩ := status_cycle_round kept goes world (first + n)
  refine ⟨halts abort failed, ?_⟩
  rw [cycle, cycles, UInt64.add_assoc, UInt64.ofNat_add]
  rfl

/-- A run is a row of ticks, also if it is made under other settings than the ticks: it
ends with the tick that fails, which is no fault of the run if a stop request has cut its wait
short, or halts the machine in front of the tick before which it first sees a stop request, and
not before. A run of a halted machine does nothing. -/
theorem run_as_ticks {s t : Session} (reachable : s.machine.Reachable)
    (running : s.machine.status = .running) (same : t.bare = s.bare) (world : World)
    (first : Nat) :
    (∀ n abort, (ticks world n first s).1 = .done →
      (ticks world (n + 1) first s).1 = .failed abort →
      let last := (ticks world (n + 1) first s).2
      last.machine.stopRequested = false →
        last.machine.status = .halted ∧
        last.machine.cycle = s.machine.cycle + UInt64.ofNat (n + 1) ∧
        (∀ count ≤ n, (run world count first t).1 = .unfinished ∧
          (run world count first t).2.bare = (ticks world count first s).2.bare) ∧
        ∀ count > n, (run world count first t).1 = .failed abort ∧
          (run world count first t).2.bare = last.bare) ∧
    (∀ n, (ticks world n first s).1 = .done → s.Unseen world (n + 1) first →
      (ticks world (n + 1) first s).1 = .failed (.fault .interrupted) →
      let last := (ticks world (n + 1) first s).2
      last.machine.stopRequested = true →
        ∀ count > n, (run world count first t).1 = .done ∧
          (run world count first t).2.bare = last.bare) ∧
    (∀ n, (ticks world n first s).1 = .done → s.Unseen world n first →
      let seen := (ticks world n first s).2.before world (first + n)
      seen.machine.stopRequested = true →
        seen.machine.cycle = s.machine.cycle + UInt64.ofNat n ∧
        SameInside (ticks world n first s).2.machine seen.machine ∧
        (∀ count ≤ n, (run world count first t).1 = .unfinished ∧
          (run world count first t).2.bare = (ticks world count first s).2.bare) ∧
        ∀ count > n, (run world count first t).1 = .done ∧
          (run world count first t).2.bare =
            { seen with machine := seen.machine.halt }.bare) ∧
    ∀ u : Session, u.machine.status = .halted →
      ∀ count, run world (count + 1) first u = (.done, u) := by
  have wellFormed := reachable.wellFormed
  have registers : t.machine.registers = s.machine.registers :=
    congrArg (fun s => s.machine.registers) same
  have memory : t.machine.memory = s.machine.memory := congrArg (fun s => s.machine.memory) same
  have kept : t.machine.WellFormed :=
    ⟨registers ▸ wellFormed.registers, memory ▸ wellFormed.memory⟩
  have goes : t.machine.status = .running :=
    (congrArg (fun s => s.machine.status) same).trans running
  -- The run is made by `t`, so all that is known of the ticks of `s` has to go over to it.
  have agree (count : Nat) := ticks_congr same world count first
  have unfinished {n : Nat} (done : (ticks world n first s).1 = .done)
      (unseen : s.Unseen world n first) (count : Nat) (le : count ≤ n) :
      (run world count first t).1 = .unfinished ∧
        (run world count first t).2.bare = (ticks world count first s).2.bare := by
    rw [run_unfinished kept goes ((agree n).1.trans done) (unseen.congr same) le]
    exact ⟨rfl, (agree count).2⟩
  refine ⟨?_, ?_, ?_, ?_⟩
  · intro n abort done failed last lowered
    obtain ⟨halted, cycle⟩ := halted_ticks wellFormed running done failed
    have unseen := unseen_of_lowered wellFormed running done lowered
    refine ⟨halted, cycle, unfinished done (unseen.of_le (Nat.le_succ n)), ?_⟩
    intro count more
    have down := (stopRequested_congr (agree (n + 1)).2).trans lowered
    rw [run_failed kept goes ((agree n).1.trans done) ((agree (n + 1)).1.trans failed) down more]
    exact ⟨rfl, (agree (n + 1)).2⟩
  · intro n done unseen cut last raised count more
    have up := (stopRequested_congr (agree (n + 1)).2).trans raised
    rw [run_cut kept goes ((agree n).1.trans done) (unseen.congr same)
      ((agree (n + 1)).1.trans cut) up more]
    exact ⟨rfl, (agree (n + 1)).2⟩
  · intro n done unseen seen raised
    have inside := sameInside_after (ticks world n first s).2.machine (world.between (first + n))
    have cycles := (ticks_done wellFormed running done).2.2
    refine ⟨inside.cycle.trans cycles, inside, unfinished done unseen, ?_⟩
    intro count more
    have sight := before_congr (agree n).2 world (first + n)
    have up := (stopRequested_congr sight).trans raised
    rw [run_stopped kept goes ((agree n).1.trans done) (unseen.congr same) up more]
    exact ⟨rfl, congrArg (fun s => { s with machine := s.machine.halt }) sight⟩
  · intro u halted count
    exact run_of_halted halted

/-! ### A program that never returns -/

/-- A machine that calls the very address where it is, so many calls deep. -/
structure CallsItself (depth : Nat) (m : Machine) : Prop where
  wellFormed : m.WellFormed
  running : m.status = .running
  here : m.registers.pc = 0x200
  word : m.word = 0x2200
  depth : m.registers.sp.toNat = depth
  stopRequested : m.stopRequested = false

theorem CallsItself.decoded {depth : Nat} {m : Machine} (calls : CallsItself depth m) :
    m.upcoming? = some (.address .call 0x200) := by
  rw [upcoming?, calls.word]
  rfl

theorem CallsItself.round {depth : Nat} (calls : CallsItself depth s.machine) (free : depth < 16)
    (number : Nat) :
    ∃ t, s.round { random := fun _ => 0 } number = (.done, t) ∧
      CallsItself (depth + 1) t.machine := by
  have slot : s.machine.registers.sp.toNat < stackDepth := by rwa [calls.depth]
  have pushed := Registers.push_of_free slot s.machine.registers.pc
  have finished := beginTick_of_done calls.running calls.wellFormed.memory.room calls.decoded
    (execute_call (m := s.machine.counted) pushed 0 0x200)
  have round : s.round { random := fun _ => 0 } number = _ := tick_of_finished finished
  have kept := wellFormed_round calls.wellFormed { random := fun _ => 0 } number
  have word := calls.word
  rw [Machine.word, calls.here] at word
  rw [round] at kept
  -- The call comes back to the address where it stands.
  have back : (wrapAddress (wrapAddress (0x200 - 2) + 2) : Word) = 0x200 := by decide
  refine ⟨_, round, kept, calls.running, back, ?_, ?_, calls.stopRequested⟩
  · show Word.ofBytes (s.machine.memory.byte (wrapAddress (wrapAddress (0x200 - 2) + 2)).toNat)
      (s.machine.memory.byte ((wrapAddress (wrapAddress (0x200 - 2) + 2)).toNat + 1)) = 0x2200
    rw [back, word]
  · show (s.machine.registers.sp + 1).toNat = depth + 1
    rw [UInt64.toNat_add, calls.depth]
    simp only [UInt64.reduceToNat]
    omega

theorem exists_ticks_of_callsItself {depth : Nat} (le : depth ≤ 16) :
    ∃ t, ticks { random := fun _ => 0 } depth 0 { machine := fresh 0x2200 } = (.done, t) ∧
      CallsItself depth t.machine := by
  induction depth with
  | zero =>
    refine ⟨_, rfl, (reachable_fresh _).wellFormed, status_fresh _, ?_, word_fresh _, ?_,
      stopRequested_fresh _⟩ <;> rw [registers_fresh] <;> rfl
  | succ depth ih =>
    obtain ⟨t, done, calls⟩ := ih (Nat.le_of_succ_le le)
    obtain ⟨u, round, deeper⟩ := calls.round le (0 + depth)
    refine ⟨u, ?_, deeper⟩
    rw [ticks_add (congrArg Prod.fst done), done, ticks_one, round]

/-- Sixteen ticks are done, and there is no slot for the next call. -/
theorem run_into_full_stack :
    let shown : Settings := { debug := true, pace := some ⟨1000⟩ }
    let world : World := { random := fun _ => 0 }
    (fresh 0x2200).Reachable ∧ (fresh 0x2200).status = .running ∧
      (ticks world 16 0 { machine := fresh 0x2200 }).1 = .done ∧
      (run world 20 0 { machine := { fresh 0x2200 with settings := shown } }).1 =
        .failed (.fault (.stackOverflow 0x200)) := by
  intro shown world
  have reachable := reachable_fresh 0x2200
  have running := status_fresh 0x2200
  obtain ⟨t, done, calls⟩ := exists_ticks_of_callsItself (Nat.le_refl 16)
  have sixteen : (ticks world 16 0 { machine := fresh 0x2200 }).1 = .done := congrArg Prod.fst done
  have full : t.machine.registers.sp = 16 := UInt64.toNat_inj.mp calls.depth
  have ticked := ticked_round calls.wellFormed calls.running world 16
  obtain ⟨failed, frozen⟩ := ticked.of_faulty calls.wellFormed (.overflow calls.decoded full)
  have last : ticks world (16 + 1) 0 { machine := fresh 0x2200 } = t.round world 16 := by
    rw [ticks_add sixteen, ticks_one, done]
  have ends := (run_as_ticks (s := { machine := fresh 0x2200 }) reachable running
    (t := { machine := { fresh 0x2200 with settings := shown } }) rfl world 0).1 16
    (.fault (.stackOverflow 0x200)) sixteen ?_ ?_
  · exact ⟨reachable, running, sixteen, (ends.2.2.2 20 (by decide)).1⟩
  · rw [last, failed, calls.here]
  · rw [last]
    exact frozen.outside.stopRequested.trans calls.stopRequested

end Session

end Chip8
