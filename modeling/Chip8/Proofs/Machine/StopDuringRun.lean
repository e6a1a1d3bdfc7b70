import Chip8.Machine.StopRequests
import Chip8.Proofs.Machine.Requests

/-!
# Stop requests during a run

A request raises the stop flag before it interrupts the keypad. So whoever finds the
keypad interrupted will find the flag raised, and as long as nobody lowers it, a run
that is cut short in a wait takes this for what it is. The run looks at the flag
before every tick; once the flag is up, only a tick can still begin that has passed
this look already.

All this is read off from what one step of the run can come to, and from what one
step of anybody else leaves alone.
-/
namespace Chip8.StopDuringRun

variable {s t u : State} {action : Action} {actions : List Action} {random : UInt8}

/-! ### Sound states -/

/-- What is known of the machine where the run stands. -/
def Phase.Fits (m : Machine) : Phase → Prop
  | .head => m.status = .running
  | .ticking => m.status = .running
  | .waiting _ => m.status = .running
  | .interrupted => m.stopRequested = true ∧ m.status = .halted
  | .returned (.ok ()) => m.stopRequested = true ∧ m.status = .halted
  | .returned (.error abort) => abort ≠ .fault .interrupted

/-- A state in which nobody interrupts the keypad before the stop flag is up. -/
structure Sound (s : State) : Prop where
  wellFormed : s.machine.WellFormed
  interrupted : s.machine.keypad.latch.interrupted = true → s.machine.stopRequested = true
  owed : 0 < s.owed → s.machine.stopRequested = true
  phase : s.phase.Fits s.machine

/-! ### Steps of the run -/

/-- What a step of the run can come to. -/
inductive Went (s : State) : State → Prop
  | noticed (head : s.phase = .head) (raised : s.machine.stopRequested = true) :
      Went s { s with machine := s.machine.halt, phase := .returned (.ok ()) }
  | entered (head : s.phase = .head) (lowered : s.machine.stopRequested = false) :
      Went s { s with phase := .ticking }
  | done {i : Instruction} {n : Machine} (ticking : s.phase = .ticking)
      (executed : Machine.Executed s.machine.counted i (.ok .done, n)) :
      Went s { s with machine := n.advance, phase := .head, begun := s.begun + 1 }
  | failed {fault : Fault} (ticking : s.phase = .ticking) (uncut : fault ≠ .interrupted) :
      Went s { s with
        machine := s.machine.counted.halt
        phase := .returned (.error (.fault fault))
        begun := s.begun + 1 }
  | parked {x : Fin 16} (ticking : s.phase = .ticking) :
      Went s { s with machine := s.machine.armed, phase := .waiting x, begun := s.begun + 1 }
  | woken {x : Fin 16} {key : UInt8} (waiting : s.phase = .waiting x) :
      Went s { s with
        machine := (s.machine.withRegisters (s.machine.registers.setV x key)).advance
        phase := .head }
  | cut {x : Fin 16} (waiting : s.phase = .waiting x)
      (interrupted : s.machine.keypad.latch.interrupted = true) :
      Went s { s with machine := s.machine.halt, phase := .interrupted }
  | ended (cut : s.phase = .interrupted) : Went s { s with phase := .returned (.ok ()) }

theorem ofResult_of_uncut {fault : Fault} (uncut : fault ≠ .interrupted) :
    Phase.ofResult (.error (.fault fault)) = .returned (.error (.fault fault)) := by
  cases fault <;> first | rfl | exact absurd rfl uncut

theorem went_of_ticking (sound : Sound s) (ticking : s.phase = .ticking)
    (taken : s.runStep? random = some t) : Went s t := by
  have running := sound.phase
  rw [ticking] at running
  have begun := Machine.begun_beginTick sound.wellFormed running random
  simp only [State.runStep?, ticking] at taken
  generalize s.machine.beginTick random = turn at begun taken
  cases begun with
  | unknown undecodable =>
    cases taken
    exact .failed ticking (by simp)
  | refused decoded refused =>
    have uncut := (sound.wellFormed.executed decoded refused).uncut
    simp only [ofResult_of_uncut uncut] at taken
    cases taken
    exact .failed ticking uncut
  | executed decoded executed =>
    cases taken
    exact .done ticking (sound.wellFormed.executed decoded executed)
  | waiting narrow decoded =>
    cases taken
    exact .parked ticking

theorem went_of_waiting {x : Fin 16} (waiting : s.phase = .waiting x)
    (taken : s.runStep? random = some t) : Went s t := by
  simp only [State.runStep?, waiting] at taken
  cases found : s.machine.keypad.look with
  | parked =>
    rw [Machine.wake?_of_parked found] at taken
    cases taken
  | pressed key =>
    rw [Machine.wake?_of_pressed found] at taken
    cases taken
    exact .woken waiting
  | interrupted =>
    rw [Machine.wake?_of_interrupted found] at taken
    cases taken
    exact .cut waiting ((s.machine.keypad.look_eq_interrupted_iff).mp found)

theorem went_runStep? (sound : Sound s) (taken : s.runStep? random = some t) : Went s t := by
  have fits := sound.phase
  cases phase : s.phase with
  | head =>
    rw [phase] at fits
    change s.machine.status = .running at fits
    simp only [State.runStep?, phase, fits] at taken
    split at taken
    next raised =>
      cases taken
      exact .noticed phase raised
    next lowered =>
      cases taken
      exact .entered phase (by simpa using lowered)
  | ticking => exact went_of_ticking sound phase taken
  | waiting x => exact went_of_waiting phase taken
  | interrupted =>
    -- The flag is up here, so the interruption is taken for the request that it is.
    rw [phase] at fits
    simp only [State.runStep?, phase, fits.1, if_true] at taken
    cases taken
    exact .ended phase
  | returned result =>
    simp only [State.runStep?, phase] at taken
    cases taken

/-- The run neither raises nor lowers anything that a request touches. -/
theorem Went.flags (went : Went s t) :
    t.machine.stopRequested = s.machine.stopRequested ∧
      t.machine.keypad.latch.interrupted = s.machine.keypad.latch.interrupted ∧
      t.owed = s.owed := by
  cases went with
  | @done i n ticking executed =>
    have untouched := executed.untouched
    exact ⟨untouched.stopRequested, congrArg (·.latch.interrupted) untouched.keypad, rfl⟩
  | _ => exact ⟨rfl, rfl, rfl⟩

theorem Went.wellFormed (went : Went s t) (wellFormed : s.machine.WellFormed) :
    t.machine.WellFormed := by
  have ⟨⟨pc, sp, stack⟩, full⟩ := wellFormed
  cases went with
  | done ticking executed => exact (executed.wellFormed wellFormed.counted).advance
  | woken waiting => exact Machine.WellFormed.advance ⟨⟨pc, sp, stack⟩, full⟩
  | _ => exact ⟨⟨pc, sp, stack⟩, full⟩

theorem Went.sound (went : Went s t) (sound : Sound s) : Sound t := by
  obtain ⟨stop, latch, owed⟩ := went.flags
  refine ⟨went.wellFormed sound.wellFormed, ?_, ?_, ?_⟩
  · rw [stop, latch]
    exact sound.interrupted
  · rw [stop, owed]
    exact sound.owed
  · have fits := sound.phase
    cases went with
    | noticed head raised => exact ⟨raised, rfl⟩
    | entered head lowered =>
      rw [head] at fits
      exact fits
    | done ticking executed =>
      rw [ticking] at fits
      exact executed.untouched.status.trans fits
    | failed ticking uncut => simpa [Phase.Fits] using uncut
    | parked ticking =>
      rw [ticking] at fits
      exact fits
    | woken waiting =>
      rw [waiting] at fits
      exact fits
    | cut waiting interrupted =>
      -- Here the order of a request counts: the flag goes up before the keypad is interrupted.
      exact ⟨sound.interrupted interrupted, rfl⟩
    | ended cut =>
      rw [cut] at fits
      exact fits

/-! ### Steps of others -/

/-- What the others leave alone, and what they raise. -/
structure Aside (s t : State) : Prop where
  registers : t.machine.registers = s.machine.registers
  memory : t.machine.memory = s.machine.memory
  status : t.machine.status = s.machine.status
  phase : t.phase = s.phase
  begun : t.begun = s.begun
  raised : s.machine.stopRequested = true → t.machine.stopRequested = true
  interrupted : t.machine.keypad.latch.interrupted = true →
    s.machine.keypad.latch.interrupted = true ∨ 0 < s.owed
  owed : 0 < t.owed → t.machine.stopRequested = true ∨ 0 < s.owed

theorem aside_step (taken : s.step? action = some t) (other : ∀ random, action ≠ .run random) :
    Aside s t := by
  cases action with
  | run random => exact absurd rfl (other random)
  | raiseStop =>
    cases taken
    exact ⟨rfl, rfl, rfl, rfl, rfl, fun _ => rfl, Or.inl, fun _ => Or.inl rfl⟩
  | interruptKeypad =>
    -- The request that now interrupts the keypad has been owed until here.
    simp only [State.step?] at taken
    split at taken
    next owed =>
      cases taken
      exact ⟨rfl, rfl, rfl, rfl, rfl, id, fun _ => Or.inr owed, fun _ => Or.inr owed⟩
    next => cases taken
  | press key =>
    cases taken
    exact ⟨rfl, rfl, rfl, rfl, rfl, id, Or.inl, Or.inr⟩
  | offer key =>
    simp only [State.step?] at taken
    split at taken
    · cases taken
      refine ⟨rfl, rfl, rfl, rfl, rfl, id, fun interrupted => Or.inl ?_, Or.inr⟩
      rw [← interrupted]
      simp only [State.withKeypad, Keypad.offer]
      split <;> rfl
    · cases taken
  | release key =>
    cases taken
    exact ⟨rfl, rfl, rfl, rfl, rfl, id, Or.inl, Or.inr⟩
  | countDown timer =>
    cases taken
    cases timer <;> exact ⟨rfl, rfl, rfl, rfl, rfl, id, Or.inl, Or.inr⟩

/-- Raising the flag does not put a run in the wrong place. -/
theorem Phase.Fits.raised {m n : Machine} {phase : Phase} (fits : phase.Fits m)
    (status : n.status = m.status) (raised : m.stopRequested = true → n.stopRequested = true) :
    phase.Fits n := by
  cases phase with
  | interrupted => exact ⟨raised fits.1, status.trans fits.2⟩
  | returned result =>
    cases result with
    | ok done => exact ⟨raised fits.1, status.trans fits.2⟩
    | error abort => exact fits
  | _ => exact status.trans fits

theorem Aside.sound (aside : Aside s t) (sound : Sound s) : Sound t := by
  refine ⟨⟨?_, ?_⟩, ?_, ?_, ?_⟩
  · rw [aside.registers]
    exact sound.wellFormed.registers
  · rw [aside.memory]
    exact sound.wellFormed.memory
  · intro interrupted
    exact aside.raised ((aside.interrupted interrupted).elim sound.interrupted sound.owed)
  · intro owed
    exact (aside.owed owed).elim id fun before => aside.raised (sound.owed before)
  · rw [aside.phase]
    exact sound.phase.raised aside.status aside.raised

/-! ### Any step -/

theorem went_or_aside (sound : Sound s) (taken : s.step? action = some t) :
    Went s t ∨ Aside s t := by
  by_cases ran : ∃ random, action = .run random
  · obtain ⟨random, rfl⟩ := ran
    exact Or.inl (went_runStep? sound taken)
  · rw [not_exists] at ran
    exact Or.inr (aside_step taken ran)

theorem sound_step (sound : Sound s) (taken : s.step? action = some t) : Sound t := by
  rcases went_or_aside sound taken with went | aside
  · exact went.sound sound
  · exact aside.sound sound

theorem sound_run (sound : Sound s) (ran : s.run? actions = some t) : Sound t :=
  replay?_keeps (fun _ _ _ sound taken => sound_step sound taken) sound ran

/-- The ticks that are sure to begin although the flag is up. -/
def Phase.due : Phase → Nat
  | .ticking => 1
  | _ => 0

/-- Once the flag is up, a tick begins only if it has been due before. -/
theorem late_step (sound : Sound s) (raised : s.machine.stopRequested = true)
    (taken : s.step? action = some t) :
    t.machine.stopRequested = true ∧ t.begun + t.phase.due ≤ s.begun + s.phase.due := by
  rcases went_or_aside sound taken with went | aside
  · refine ⟨went.flags.1.trans raised, ?_⟩
    cases went with
    | entered head lowered =>
      -- The only way into a tick leads past the flag.
      rw [raised] at lowered
      cases lowered
    | noticed head raised => simp [head, Phase.due]
    | done ticking executed => simp [ticking, Phase.due]
    | failed ticking uncut => simp [ticking, Phase.due]
    | parked ticking => simp [ticking, Phase.due]
    | woken waiting => simp [waiting, Phase.due]
    | cut waiting interrupted => simp [waiting, Phase.due]
    | ended cut => simp [cut, Phase.due]
  · rw [aside.phase, aside.begun]
    exact ⟨aside.raised raised, Nat.le_refl _⟩

theorem late_run (sound : Sound s) (raised : s.machine.stopRequested = true)
    (ran : s.run? actions = some t) : t.begun + t.phase.due ≤ s.begun + s.phase.due := by
  let Late (u : State) : Prop :=
    Sound u ∧ u.machine.stopRequested = true ∧ u.begun + u.phase.due ≤ s.begun + s.phase.due
  have kept : ∀ u action v, Late u → u.step? action = some v → Late v := by
    rintro u action v ⟨sound, raised, bound⟩ taken
    obtain ⟨still, late⟩ := late_step sound raised taken
    exact ⟨sound_step sound taken, still, Nat.le_trans late bound⟩
  exact (replay?_keeps kept ⟨sound, raised, Nat.le_refl _⟩ ran).2.2

/-! ### A run into a wait -/

theorem enter_step (head : s.phase = .head) (running : s.machine.status = .running)
    (lowered : s.machine.stopRequested = false) (random : UInt8) :
    s.step? (.run random) = some { s with phase := .ticking } := by
  simp only [State.step?, State.runStep?, head, running, lowered]
  rfl

theorem park_step (ticking : s.phase = .ticking) (wellFormed : s.machine.WellFormed)
    (running : s.machine.status = .running) {x : UInt64}
    (decoded : s.machine.upcoming? = some (.register .waitKey x)) (random : UInt8) :
    ∃ y, s.step? (.run random) =
      some { s with machine := s.machine.armed, phase := .waiting y, begun := s.begun + 1 } := by
  obtain ⟨narrow, waits⟩ := Machine.beginTick_of_wait wellFormed running decoded random
  refine ⟨⟨x.toNat, narrow⟩, ?_⟩
  simp only [State.step?, State.runStep?, ticking, waits]

/-- An interruption without a request is a fault of the first wait that finds it. -/
theorem interrupted_of_wait {m : Machine} (wellFormed : m.WellFormed)
    (running : m.status = .running) (lowered : m.stopRequested = false)
    (interrupted : m.keypad.latch.interrupted = true) {x : UInt64}
    (decoded : m.upcoming? = some (.register .waitKey x)) (random : UInt8) :
    ∃ t, State.run? { machine := m } (List.replicate 4 (.run random)) = some t ∧
      t.phase = .returned (.error (.fault .interrupted)) := by
  -- Four steps: the run enters the tick, parks, is cut, and finds no request.
  have enter := enter_step (s := { machine := m }) rfl running lowered random
  obtain ⟨y, park⟩ := park_step (s := { machine := m, phase := .ticking }) rfl wellFormed running
    decoded random
  have cut : State.step? { machine := m.armed, phase := .waiting y, begun := 1 } (.run random) =
      some { machine := m.armed.halt, phase := .interrupted, begun := 1 } := by
    have found := (m.armed.keypad.look_eq_interrupted_iff).mpr interrupted
    simp only [State.step?, State.runStep?, Machine.wake?_of_interrupted found]
    rfl
  have unasked : State.step? { machine := m.armed.halt, phase := .interrupted, begun := 1 }
      (.run random) = some { machine := m.armed.halt
                             phase := .returned (.error (.fault .interrupted))
                             begun := 1 } := by
    have still : m.armed.halt.stopRequested = false := lowered
    simp only [State.step?, State.runStep?, still]
    rfl
  exact ⟨_, replay?_cons.mpr ⟨_, enter, replay?_cons.mpr ⟨_, park, replay?_cons.mpr ⟨_, cut,
    replay?_cons.mpr ⟨_, unasked, rfl⟩⟩⟩⟩, rfl⟩

/-! ### The end of a run -/

theorem sound_head {s : State} (wellFormed : s.machine.WellFormed)
    (running : s.machine.status = .running) (start : s.phase = .head)
    (interrupted : s.machine.keypad.latch.interrupted = true → s.machine.stopRequested = true)
    (owed : 0 < s.owed → s.machine.stopRequested = true) : Sound s := by
  refine ⟨wellFormed, interrupted, owed, ?_⟩
  rw [start]
  exact running

theorem Sound.uncut (sound : Sound s) : s.phase ≠ .returned (.error (.fault .interrupted)) := by
  intro returned
  have fits := sound.phase
  rw [returned] at fits
  exact fits rfl

theorem due_le_one (phase : Phase) : phase.due ≤ 1 := by
  cases phase <;> simp [Phase.due]

/-- Whatever a running machine executes and whenever others press, release and ask for a
stop: the keypad is interrupted only while the flag is up. So the run never returns the
interruption as a fault, it returns well only after a request, with the machine halted,
and from the moment when the flag goes up at most one more tick begins. -/
theorem stop_protocol {s t : State} {actions : List Action} (wellFormed : s.machine.WellFormed)
    (running : s.machine.status = .running) (start : s.phase = .head)
    (interrupted : s.machine.keypad.latch.interrupted = true → s.machine.stopRequested = true)
    (owed : 0 < s.owed → s.machine.stopRequested = true) (ran : s.run? actions = some t) :
    (t.machine.keypad.latch.interrupted = true → t.machine.stopRequested = true) ∧
    t.phase ≠ .returned (.error (.fault .interrupted)) ∧
    (t.phase = .returned (.ok ()) →
      t.machine.stopRequested = true ∧ t.machine.status = .halted) ∧
    (∀ earlier later, actions = earlier ++ .raiseStop :: later →
      ∃ u, s.run? earlier = some u ∧ t.begun ≤ u.begun + 1) ∧
    (s.machine.stopRequested = true → t.begun ≤ s.begun) := by
  have sound := sound_head wellFormed running start interrupted owed
  have last := sound_run sound ran
  refine ⟨last.interrupted, last.uncut, ?_, ?_, ?_⟩
  · intro returned
    have fits := last.phase
    rw [returned] at fits
    exact fits
  · rintro earlier later rfl
    obtain ⟨u, before, rest⟩ := replay?_append.mp ran
    obtain ⟨v, raise, after⟩ := replay?_cons.mp rest
    have ready := sound_step (sound_run sound before) raise
    refine ⟨u, before, ?_⟩
    cases raise
    have late := late_run ready rfl after
    have due := due_le_one u.phase
    -- The request has moved neither the run nor its count of ticks.
    simp only at late
    omega
  · intro raised
    have late := late_run sound raised ran
    rw [start] at late
    simp only [Phase.due] at late
    omega

/-- A request between the look at the flag and a tick that waits for a key. -/
theorem wait_cut_by_stop :
    let actions : List Action := [.run 0, .raiseStop, .run 0, .interruptKeypad, .run 0, .run 0]
    ∃ t, State.run? { machine := Machine.fresh 0xf00a } actions = some t ∧
      t.phase = .returned (.ok ()) ∧ t.machine.status = .halted ∧
      ∃ u, State.run? { machine := Machine.fresh 0xf00a } [.run 0] = some u ∧
        t.begun ≤ u.begun + 1 := by
  intro actions
  have wellFormed := (Machine.reachable_fresh 0xf00a).wellFormed
  have running := Machine.status_fresh 0xf00a
  have lowered := Machine.stopRequested_fresh 0xf00a
  have untouched := Machine.keypad_fresh 0xf00a
  have decoded : (Machine.fresh 0xf00a).upcoming? = some (.register .waitKey 0) := by
    rw [Machine.upcoming?, Machine.word_fresh]
    rfl
  generalize Machine.fresh 0xf00a = m at *
  have calm : m.keypad.latch.interrupted = true → m.stopRequested = true := by
    intro interrupted
    rw [untouched] at interrupted
    cases interrupted
  have enter := enter_step (s := { machine := m }) rfl running lowered 0
  obtain ⟨y, park⟩ := park_step (s := { machine := m.raiseStop, phase := .ticking, owed := 1 }) rfl
    wellFormed.raiseStop running decoded 0
  have ran : State.run? { machine := m } actions = some _ :=
    replay?_cons.mpr ⟨_, enter, replay?_cons.mpr ⟨_, rfl, replay?_cons.mpr ⟨_, park, rfl⟩⟩⟩
  have ⟨_, _, halted, late, _⟩ :=
    stop_protocol wellFormed running rfl calm (fun owed => absurd owed (Nat.lt_irrefl 0)) ran
  exact ⟨_, ran, rfl, (halted rfl).2, late [.run 0] _ rfl⟩

end Chip8.StopDuringRun
