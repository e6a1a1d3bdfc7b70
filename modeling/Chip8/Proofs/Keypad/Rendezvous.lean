import Chip8.Keypad.Rendezvous

/-!
# Whose press ends a wait

What becomes of the latch depends on the actions alone, and not on who takes them or on
what is held. Clearing makes it forget whether it was ready. After that the first offer
is kept and all others leave the latch as it is, because nobody clears it again before
the wait has ended. So a look finds the key of the first offer since the clearing, or an
interruption, or neither of them has come.

A press that finds its key held changes nothing at all, and can be left out.
-/
namespace Chip8

/-- The latch after an action. -/
def Latch.met (l : Latch) : Rendezvous.Action → Latch
  | .offer key => if l.ready then l else { l with key := UInt8.ofNat key.val, ready := true }
  | .interrupt => { l with interrupted := true }
  | .arm => { l with ready := false }
  | .press _ => l
  | .release _ => l
  | .look => l

namespace Rendezvous

variable {l : Latch} {s t u : State} {action : Action} {actions : List Action}

/-! ### The latch -/

theorem interrupted_foldl_met (l : Latch) (actions : List Action) :
    (actions.foldl Latch.met l).interrupted = (l.interrupted || decide (.interrupt ∈ actions)) := by
  induction actions generalizing l with
  | nil => simp
  | cons action rest ih =>
    rw [List.foldl_cons, ih]
    cases action with
    | offer key =>
      simp only [Latch.met, List.mem_cons, reduceCtorEq, false_or]
      split <;> rfl
    | interrupt => simp [Latch.met]
    | _ => simp [Latch.met]

theorem met_of_kept (kept : ∀ key, action = .offer key → l.ready = true) (unarmed : action ≠ .arm) :
    l.met action = { l with interrupted := l.interrupted || decide (action = .interrupt) } := by
  cases action with
  | offer key =>
    rw [Latch.met, if_pos (kept key rfl)]
    simp
  | arm => exact absurd rfl unarmed
  | _ => simp [Latch.met]

/-- Nothing but an interruption changes a latch that is ready, or one that no key is
offered to. -/
theorem foldl_met_of_kept (kept : ∀ key, .offer key ∈ actions → l.ready = true)
    (unarmed : .arm ∉ actions) :
    actions.foldl Latch.met l =
      { l with interrupted := l.interrupted || decide (.interrupt ∈ actions) } := by
  induction actions generalizing l with
  | nil => simp
  | cons action rest ih =>
    simp only [List.mem_cons, not_or] at kept unarmed
    have first := met_of_kept (fun key same => kept key (Or.inl same.symm)) (Ne.symm unarmed.1)
    have later := ih (l := l.met action) (fun key member => ?_) unarmed.2
    · rw [List.foldl_cons, later, first]
      simp [Bool.or_assoc, eq_comm]
    · rw [first]
      exact kept key (Or.inr member)

theorem exists_first_offer {key : Key} (offered : .offer key ∈ actions) :
    ∃ mid first rest, actions = mid ++ .offer first :: rest ∧ ∀ other, .offer other ∉ mid := by
  induction actions with
  | nil => cases offered
  | cons action rest ih =>
    by_cases here : ∃ first, action = .offer first
    · obtain ⟨first, rfl⟩ := here
      exact ⟨[], first, rest, rfl, by simp⟩
    · rcases List.mem_cons.mp offered with same | later
      · exact absurd ⟨key, same.symm⟩ here
      · obtain ⟨mid, first, last, rfl, none⟩ := ih later
        refine ⟨action :: mid, first, last, rfl, ?_⟩
        intro other member
        rcases List.mem_cons.mp member with same | within
        · exact here ⟨other, same.symm⟩
        · exact none other within

/-- The latch keeps the first key that is offered to it after it has been cleared. -/
theorem foldl_met_of_offered {mid rest : List Action} {key : Key} (cleared : l.ready = false)
    (none : ∀ other, .offer other ∉ mid) (unarmed : .arm ∉ mid ++ .offer key :: rest) :
    (mid ++ .offer key :: rest).foldl Latch.met l =
      { key := UInt8.ofNat key.val
        ready := true
        interrupted := l.interrupted || decide (.interrupt ∈ mid ++ .offer key :: rest) } := by
  simp only [List.mem_append, List.mem_cons, not_or] at unarmed
  have quiet :=
    foldl_met_of_kept (l := l) (fun other member => absurd member (none other)) unarmed.1
  rw [List.foldl_append, quiet, List.foldl_cons]
  simp only [Latch.met, cleared, Bool.false_eq_true, if_false]
  rw [foldl_met_of_kept (fun _ _ => rfl) unarmed.2.2]
  simp [Bool.or_assoc]

theorem ready_foldl_met (cleared : l.ready = false) (unarmed : .arm ∉ actions) :
    (actions.foldl Latch.met l).ready = true ↔ ∃ key, .offer key ∈ actions := by
  constructor
  · intro ready
    apply Classical.byContradiction
    intro absent
    rw [not_exists] at absent
    rw [foldl_met_of_kept (fun key member => absurd member (absent key)) unarmed, cleared] at ready
    cases ready
  · rintro ⟨key, offered⟩
    obtain ⟨mid, first, rest, rfl, none⟩ := exists_first_offer offered
    rw [foldl_met_of_offered cleared none unarmed]

/-! ### Steps -/

theorem latch_step (taken : s.step? action = some t) :
    t.keypad.latch = s.keypad.latch.met action := by
  cases action with
  | press key =>
    cases taken
    rfl
  | offer key =>
    simp only [State.step?] at taken
    split at taken
    · cases taken
      rfl
    · cases taken
  | release key =>
    cases taken
    rfl
  | interrupt =>
    cases taken
    rfl
  | arm =>
    simp only [State.step?] at taken
    split at taken
    · cases taken
      rfl
    · cases taken
  | look =>
    simp only [State.step?] at taken
    split at taken
    · split at taken <;> cases taken <;> rfl
    · cases taken

theorem latch_run (ran : s.run? actions = some t) :
    t.keypad.latch = actions.foldl Latch.met s.keypad.latch := by
  induction actions generalizing s with
  | nil =>
    cases ran
    rfl
  | cons action rest ih =>
    obtain ⟨u, taken, later⟩ := replay?_cons.mp ran
    rw [ih later, latch_step taken, List.foldl_cons]

/-- Only someone who does not wait yet clears the latch, and waits from then on. -/
theorem arm_step (taken : s.step? .arm = some t) : s.waiter = .idle ∧ t.waiter = .waiting := by
  simp only [State.step?] at taken
  split at taken
  next idle =>
    cases taken
    exact ⟨idle, rfl⟩
  · cases taken

theorem busy_step (busy : s.waiter ≠ .idle) (taken : s.step? action = some t) :
    t.waiter ≠ .idle := by
  cases action with
  | press key =>
    cases taken
    exact busy
  | offer key =>
    simp only [State.step?] at taken
    split at taken
    · cases taken
      exact busy
    · cases taken
  | release key =>
    cases taken
    exact busy
  | interrupt =>
    cases taken
    exact busy
  -- Only an idle waiter clears the latch, but it waits then in any case.
  | arm => simp [(arm_step taken).2]
  | look =>
    simp only [State.step?] at taken
    split at taken
    · split at taken
      · cases taken
        simp
      · cases taken
        exact busy
    · cases taken

/-- The latch is cleared once. -/
theorem unarmed_of_busy (busy : s.waiter ≠ .idle) (ran : s.run? actions = some t) :
    .arm ∉ actions := by
  induction actions generalizing s with
  | nil => simp
  | cons action rest ih =>
    obtain ⟨u, taken, later⟩ := replay?_cons.mp ran
    rw [List.mem_cons, not_or]
    constructor
    · rintro rfl
      exact busy (arm_step taken).1
    · exact ih (busy_step busy taken) later

/-- A press of a key that is held changes nothing. -/
theorem press_held {key : Key} (held : s.keypad.held.read key = true) :
    s.step? (.press key) = some s := by
  have same : s.keypad.held.write key true = s.keypad.held := by
    apply Cells.ext
    intro other
    rw [Cells.read_write]
    split
    next equal => rw [← equal, held]
    next => rfl
  simp only [State.step?, Keypad.markHeld, held, same]
  rfl

/-! ### Looks -/

/-- Where the one who waits stands after a look. -/
def Wakeup.waiter : Wakeup → Waiter
  | .parked => .waiting
  | .pressed key => .returned (.ok key)
  | .interrupted => .returned (.error .interrupted)

theorem look_step (looked : t.step? .look = some u) :
    u.waiter = Wakeup.waiter t.keypad.look := by
  simp only [State.step?, Keypad.keyOrInterruption?] at looked
  split at looked
  next waiting =>
    cases found : t.keypad.look with
    | parked =>
      simp only [found] at looked
      cases looked
      exact waiting
    | pressed key =>
      simp only [found] at looked
      cases looked
      rfl
    | interrupted =>
      simp only [found] at looked
      cases looked
      rfl
  · cases looked

theorem waiter_eq_iff (looked : t.step? .look = some u) :
    (u.waiter = .waiting ↔ t.keypad.look = .parked) ∧
    (∀ key, u.waiter = .returned (.ok key) ↔ t.keypad.look = .pressed key) ∧
    ∀ fault, u.waiter = .returned (.error fault) ↔
      t.keypad.look = .interrupted ∧ fault = .interrupted := by
  rw [look_step looked]
  cases t.keypad.look <;> simp [Wakeup.waiter, eq_comm]

/-! ### Whole waits -/

/-- A press that nothing comes between is one of the ways to take its two steps. -/
theorem exists_run_of_apply (idle : s.offers = []) (event : Keypad.Event) :
    ∃ actions, s.run? actions = some { s with keypad := (s.keypad.apply event).2 } := by
  cases event with
  | interrupt => exact ⟨[.interrupt], rfl⟩
  | release key =>
    by_cases known : key < 16
    · refine ⟨[.release ⟨key, known⟩], ?_⟩
      simp only [Keypad.apply, Keypad.release, known, dite_true]
      rfl
    · refine ⟨[], ?_⟩
      simp only [Keypad.apply, Keypad.release, known, dite_false]
      rfl
  | press key =>
    by_cases known : key < 16
    · cases marked : s.keypad.markHeld ⟨key, known⟩ with
      | mk changed keypad =>
        simp only [Keypad.apply, Keypad.press, known, dite_true, marked]
        cases changed with
        | false =>
          refine ⟨[.press ⟨key, known⟩], ?_⟩
          simp only [State.run?, replay?, State.step?, marked]
          rfl
        | true =>
          refine ⟨[.press ⟨key, known⟩, .offer ⟨key, known⟩], ?_⟩
          simp [State.run?, replay?, State.step?, marked, idle]
    · refine ⟨[], ?_⟩
      simp only [Keypad.apply, Keypad.press, known, dite_false]
      rfl

theorem exists_run_of_applyAll (idle : s.offers = []) (events : List Keypad.Event) :
    ∃ actions, s.run? actions =
      some { s with keypad := (applyAll Keypad.apply s.keypad events).2 } := by
  induction events generalizing s with
  | nil => exact ⟨[], rfl⟩
  | cons event rest ih =>
    obtain ⟨first, ran⟩ := exists_run_of_apply idle event
    obtain ⟨others, later⟩ :=
      ih (s := { s with keypad := (s.keypad.apply event).2 }) idle
    exact ⟨first ++ others, replay?_append.mpr ⟨_, ran, later⟩⟩

theorem exists_run_of_awaitResult (waiting : s.waiter = .waiting) (idle : s.offers = [])
    (groups : List (List Keypad.Event)) :
    let vigil := awaitResult Keypad.keyOrInterruption? (applyAll Keypad.apply) s.keypad groups
    ∃ actions, s.run? actions =
      some { s with keypad := vigil.state, waiter := vigil.result.elim .waiting .returned } := by
  induction groups generalizing s with
  | nil =>
    refine ⟨[.look], ?_⟩
    simp only [awaitResult, State.run?, replay?, State.step?, waiting]
    cases s.keypad.keyOrInterruption? <;> simp [← waiting]
  | cons group rest ih =>
    simp only [awaitResult]
    cases found : s.keypad.keyOrInterruption? with
    | some result =>
      refine ⟨[.look], ?_⟩
      simp [State.run?, replay?, State.step?, waiting, found]
    | none =>
      have looked : s.step? .look = some s := by simp only [State.step?, waiting, found]
      obtain ⟨first, ran⟩ := exists_run_of_applyAll idle group
      obtain ⟨others, later⟩ :=
        ih (s := { s with keypad := (applyAll Keypad.apply s.keypad group).2 }) waiting idle
      exact ⟨.look :: (first ++ others),
        replay?_cons.mpr ⟨s, looked, replay?_append.mpr ⟨_, ran, later⟩⟩⟩

/-- A wait for a key that meets its events in groups, with a look before each group and one
after the last, is one of the interleavings. -/
theorem exists_run_of_waitForKey (k : Keypad) (groups : List (List Keypad.Event)) :
    let vigil := k.waitForKey groups
    ∃ actions, State.run? { keypad := k } (.arm :: actions) =
      some { keypad := vigil.state, waiter := vigil.result.elim .waiting .returned } := by
  obtain ⟨actions, ran⟩ :=
    exists_run_of_awaitResult (s := { keypad := k.arm, waiter := .waiting }) rfl rfl groups
  exact ⟨actions, replay?_cons.mpr ⟨_, rfl, ran⟩⟩

/-! ### The end of a wait -/

/-- What a wait comes from: the latch was cleared, and not cleared again. -/
theorem cleared_of_waited {before after : List Action}
    (waited : s.run? (before ++ .arm :: after) = some t) :
    ∃ l : Latch, l.ready = false ∧ .arm ∉ after ∧
      (∀ seen, seen <+: after → ∃ v, s.run? (before ++ .arm :: seen) = some v ∧
        v.keypad.latch = seen.foldl Latch.met l) ∧
      t.keypad.latch = after.foldl Latch.met l := by
  obtain ⟨u, ran, later⟩ := replay?_append.mp waited
  obtain ⟨v, armed, waits⟩ := replay?_cons.mp later
  have waiting := (arm_step armed).2
  refine ⟨v.keypad.latch, ?_, unarmed_of_busy (by simp [waiting]) waits, ?_, latch_run waits⟩
  · rw [latch_step armed]
    rfl
  · rintro seen ⟨rest, rfl⟩
    obtain ⟨w, reached, -⟩ := replay?_append.mp waits
    exact ⟨w, replay?_append.mpr ⟨u, ran, replay?_cons.mpr ⟨v, armed, reached⟩⟩, latch_run reached⟩

theorem look_eq_parked_iff_quiet {before after : List Action}
    (waited : s.run? (before ++ .arm :: after) = some t) :
    t.keypad.look = .parked ↔
      (∀ key, .offer key ∉ after) ∧ t.keypad.latch.interrupted = false := by
  obtain ⟨l, cleared, unarmed, -, last⟩ := cleared_of_waited waited
  have ready := ready_foldl_met cleared unarmed
  rw [← last] at ready
  rw [Keypad.look_eq_parked_iff, ← Bool.not_eq_true t.keypad.latch.ready, ready, not_exists]

/-- The key that a look finds is that of the first offer since the latch was cleared. -/
theorem first_offer_of_pressed {before after : List Action} {k : UInt8}
    (waited : s.run? (before ++ .arm :: after) = some t) (pressed : t.keypad.look = .pressed k) :
    ∃ key mid rest, after = mid ++ .offer key :: rest ∧ (∀ other, .offer other ∉ mid) ∧
      k = UInt8.ofNat key.val ∧
      ∀ seen, seen <+: rest → ∃ v,
        s.run? (before ++ .arm :: (mid ++ .offer key :: seen)) = some v ∧
        v.keypad.latch = ⟨k, true, false⟩ := by
  obtain ⟨l, cleared, unarmed, reached, last⟩ := cleared_of_waited waited
  rw [Keypad.look_eq_pressed_iff] at pressed
  have ready : (after.foldl Latch.met l).ready = true := by rw [← last, pressed]
  obtain ⟨key, offered⟩ := (ready_foldl_met cleared unarmed).mp ready
  obtain ⟨mid, first, rest, rfl, none⟩ := exists_first_offer offered
  -- The whole latch is known, so the look tells its key and that nobody has interrupted.
  rw [last, foldl_met_of_offered cleared none unarmed, Latch.mk.injEq] at pressed
  obtain ⟨same, -, quiet⟩ := pressed
  refine ⟨first, mid, rest, rfl, none, same.symm, ?_⟩
  rintro seen ⟨later, rfl⟩
  have earlier : mid ++ .offer first :: seen <+: mid ++ .offer first :: (seen ++ later) :=
    ⟨later, by simp⟩
  obtain ⟨v, ran, latch⟩ := reached _ earlier
  refine ⟨v, ran, ?_⟩
  have calm : (l.interrupted || decide (.interrupt ∈ mid ++ .offer first :: seen)) = false := by
    simp only [Bool.or_eq_false_iff, decide_eq_false_iff_not] at quiet ⊢
    exact ⟨quiet.1, fun member => quiet.2 (earlier.subset member)⟩
  rw [latch, foldl_met_of_offered cleared none fun member => unarmed (earlier.subset member), calm,
    same]

/-- A wait ends with the first key that is offered after the latch has been cleared, or
with an interruption, and does not go on after either. Until it returns, later offers
leave the latch as it is. Presses of a held key can be left out of any of this. -/
theorem first_fresh_press_wins {s t u : State} {before after : List Action}
    (waited : s.run? (before ++ .arm :: after) = some t) (looked : t.step? .look = some u) :
    (∀ k, u.waiter = .returned (.ok k) → k.toNat < 16 ∧
      ∃ key mid rest, after = mid ++ .offer key :: rest ∧ (∀ other, .offer other ∉ mid) ∧
        k = UInt8.ofNat key.val ∧
        ∀ seen, seen <+: rest → ∃ v,
          s.run? (before ++ .arm :: (mid ++ .offer key :: seen)) = some v ∧
          v.keypad.latch = ⟨k, true, false⟩) ∧
    (∀ earlier key later v, before ++ .arm :: after = earlier ++ .press key :: later →
      s.run? earlier = some v → v.keypad.held.read key = true →
        s.run? (earlier ++ later) = some t) ∧
    (u.waiter = .waiting ↔ (∀ key, .offer key ∉ after) ∧
      s.keypad.latch.interrupted = false ∧ .interrupt ∉ before ++ after) ∧
    (∀ fault, u.waiter = .returned (.error fault) ↔
      t.keypad.latch.interrupted = true ∧ fault = .interrupted) := by
  obtain ⟨parked, pressed, interrupted⟩ := waiter_eq_iff looked
  refine ⟨?_, ?_, ?_, ?_⟩
  · intro k returned
    obtain ⟨key, mid, rest, split, none, same, kept⟩ :=
      first_offer_of_pressed waited ((pressed k).mp returned)
    refine ⟨?_, key, mid, rest, split, none, same, kept⟩
    have small : key.val < 16 := key.isLt
    rw [same, UInt8.toNat_ofNat']
    omega
  · intro earlier key later v split ran held
    -- A press of a held key leads back to the state that it comes from.
    rw [split] at waited
    obtain ⟨v', ran', rest⟩ := replay?_append.mp waited
    cases ran.symm.trans ran'
    obtain ⟨w, taken, followed⟩ := replay?_cons.mp rest
    cases (press_held held).symm.trans taken
    exact replay?_append.mpr ⟨v, ran, followed⟩
  · have latch := congrArg Latch.interrupted (latch_run waited)
    rw [interrupted_foldl_met] at latch
    rw [parked, look_eq_parked_iff_quiet waited, latch]
    simp
  · intro fault
    rw [interrupted fault, Keypad.look_eq_interrupted_iff]

/-- Key 3 comes before the latch is cleared, key 7 is pressed before and offered after
it, and key 2 comes too late. -/
theorem straddling_press_wins :
    let before : List Action := [.press 3, .offer 3, .press 7]
    let after : List Action := [.look, .press 7, .press 2, .offer 7, .offer 2]
    ∃ t u, State.run? { keypad := .initial } (before ++ .arm :: after) = some t ∧
      t.step? .look = some u ∧ u.waiter = .returned (.ok 7) ∧
      ∃ mid rest, after = mid ++ .offer 7 :: rest ∧ ∀ other, .offer other ∉ mid := by
  intro before after
  have waited : State.run? { keypad := .initial } (before ++ .arm :: after) = some _ := rfl
  refine ⟨_, _, waited, rfl, rfl, ?_⟩
  obtain ⟨-, key, mid, rest, split, none, same, -⟩ := (first_fresh_press_wins waited rfl).1 7 rfl
  have seven : ∀ key : Key, 7 = UInt8.ofNat key.val → key = 7 := by decide
  rw [seven key same] at split
  exact ⟨mid, rest, split, none⟩

end Rendezvous

end Chip8
