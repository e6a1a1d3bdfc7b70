import Chip8.Proofs.Timer.Phases

/-!
# What observers hear

Only an announcement changes whether the timer is active, and it is made for the
opposite of what it was. An observer that is installed hears at once if the timer is
active. So what an installed observer has heard last is always what the timer is, and
the next thing it hears is the opposite. Observers are told apart by their place in the
order of installation; once another has been installed, nothing is said to them again.
-/
namespace Chip8

/-- What an observer has heard, oldest first. -/
def Observer.hears (o : Observer) (heard : List (Observer × Bool)) : List Bool :=
  (heard.filter fun entry => entry.1 = o).map Prod.snd

theorem Observer.hears_append (o : Observer) (first second : List (Observer × Bool)) :
    o.hears (first ++ second) = o.hears first ++ o.hears second := by
  simp [hears]

namespace Timer

variable {t u : Timer} {p q : Shared} {o : Observer} {action : Action} {actions : List Action}
  {active : Bool} {n : Nat}

/-! ### Edges -/

/-- The first edges of a signal that is low at first. -/
def edges (n : Nat) : List Bool := (List.range n).map fun i => i % 2 == 0

theorem edges_succ (n : Nat) : edges (n + 1) = edges n ++ [n % 2 == 0] := by
  simp [edges, List.range_succ]

theorem getLastD_edges (n : Nat) : (edges n).getLastD false = (n % 2 == 1) := by
  cases n with
  | zero => rfl
  | succ n =>
    rw [edges_succ, List.getLastD_concat]
    rcases Nat.mod_two_eq_zero_or_one n with even | odd
    · simp [even, Nat.add_mod]
    · simp [odd, Nat.add_mod]

/-- An edge follows upon its opposite. -/
theorem edges_concat (last : (edges n).getLastD false = !active) :
    edges n ++ [active] = edges (n + 1) := by
  rw [getLastD_edges] at last
  rw [edges_succ]
  rcases Nat.mod_two_eq_zero_or_one n with even | odd
  · rw [even] at last ⊢
    simpa using last
  · rw [odd] at last ⊢
    simpa using last

/-! ### What is said to whom -/

theorem hears_tell (t : Timer) (active : Bool) (o : Observer) :
    o.hears (t.tell active).heard =
      o.hears t.heard ++ if t.observer = some o then [active] else [] := by
  rw [tell, Observer.hears_append]
  congr 1
  cases installed : t.observer with
  | none => simp [Observer.hears]
  | some other => by_cases same : other = o <;> simp [Observer.hears, same]

theorem hears_announced (t : Timer) (active : Bool) (o : Observer) :
    o.hears (t.announced active).heard =
      o.hears t.heard ++ if t.observer = some o then [active] else [] :=
  hears_tell { t with active } active o

theorem hears_observe (t : Timer) (id : Nat) (o : Observer) :
    o.hears (t.observe id).heard =
      o.hears t.heard ++ if t.active ∧ o = ⟨id, t.installed⟩ then [true] else [] := by
  rw [observe_eq, Observer.hears_append]
  congr 1
  cases t.active with
  | false => simp [Observer.hears]
  | true => by_cases same : o = ⟨id, t.installed⟩ <;> simp [Observer.hears, same, eq_comm]

/-- What a step leaves alone that no observer takes part in. -/
structure Silent (t u : Timer) : Prop where
  active : u.active = t.active
  observer : u.observer = t.observer
  installed : u.installed = t.installed
  heard : u.heard = t.heard

/-- Whether a step announces something, installs an observer, or neither. -/
theorem Stepped.silent_or (stepped : Stepped p action q) :
    Silent p.timer q.timer ∨
      (∃ active, p.timer.phase = .announcing active ∧ q.timer = p.timer.announced active) ∨
      ∃ id, action = .observe id ∧ q.timer = p.timer.observe id := by
  cases stepped with
  | observed id => exact Or.inr (Or.inr ⟨id, rfl, rfl⟩)
  | clocked late clocked =>
    cases clocked with
    | @announced active announcing => exact Or.inr (Or.inl ⟨active, announcing, rfl⟩)
    | _ => exact Or.inl ⟨rfl, rfl, rfl, rfl⟩
  | _ => exact Or.inl ⟨rfl, rfl, rfl, rfl⟩

/-! ### One step -/

/-- What is true of the observers between two steps. -/
structure Attended (t : Timer) : Prop where
  known : ∀ entry ∈ t.heard, entry.1.serial < t.installed
  installed : ∀ o, t.observer = some o → o.serial < t.installed
  edges : ∀ o : Observer, ∃ n, o.hears t.heard = edges n
  last : ∀ o, t.observer = some o → (o.hears t.heard).getLastD false = t.active

theorem Attended.hears_eq_nil (attended : Attended t) (fresh : t.installed ≤ o.serial) :
    o.hears t.heard = [] := by
  simp only [Observer.hears, List.map_eq_nil_iff, List.filter_eq_nil_iff, decide_eq_true_eq]
  -- Everything heard so far was heard by somebody with an earlier place.
  rintro entry member rfl
  exact absurd (attended.known entry member) (Nat.not_lt.mpr fresh)

theorem Attended.silent (attended : Attended t) (silent : Silent t u) : Attended u := by
  obtain ⟨active, observer, installed, heard⟩ := silent
  refine ⟨?_, ?_, ?_, ?_⟩
  · rw [heard, installed]
    exact attended.known
  · rw [observer, installed]
    exact attended.installed
  · rw [heard]
    exact attended.edges
  · rw [observer, heard, active]
    exact attended.last

theorem Attended.announced (attended : Attended t) (opposite : t.active = !active) :
    Attended (t.announced active) := by
  refine ⟨?_, attended.installed, ?_, ?_⟩
  · intro entry member
    rcases List.mem_append.mp member with old | new
    · exact attended.known entry old
    · obtain ⟨o, listening, rfl⟩ := List.mem_map.mp new
      exact attended.installed o (Option.mem_toList.mp listening)
  · intro o
    obtain ⟨n, before⟩ := attended.edges o
    rw [hears_announced, before]
    split
    next listening =>
      -- The installed observer has heard the opposite last.
      have last := attended.last o listening
      rw [before, opposite] at last
      exact ⟨n + 1, edges_concat last⟩
    next => exact ⟨n, List.append_nil _⟩
  · intro o listening
    change t.observer = some o at listening
    rw [hears_announced, if_pos listening, List.getLastD_concat]
    rfl

/-- Before its installation an observer has heard nothing, for its place is new. -/
theorem Attended.hears_installed (attended : Attended t) (id : Nat) :
    Observer.hears ⟨id, t.installed⟩ (t.observe id).heard = if t.active then [true] else [] := by
  rw [hears_observe, attended.hears_eq_nil (Nat.le_refl _)]
  simp

theorem Attended.observed (attended : Attended t) (id : Nat) : Attended (t.observe id) := by
  have hears := attended.hears_installed id
  refine ⟨?_, ?_, ?_, ?_⟩
  · intro entry member
    rw [observe_eq] at member ⊢
    -- The only new entry is that of the new observer, whose place now counts as taken.
    rcases List.mem_append.mp member with old | new
    · exact Nat.lt_succ_of_lt (attended.known entry old)
    · split at new
      next =>
        rw [List.mem_singleton.mp new]
        exact Nat.lt_succ_self _
      next => cases new
  · intro o listening
    rw [observe_eq] at listening ⊢
    cases listening
    exact Nat.lt_succ_self _
  · intro o
    by_cases same : o = ⟨id, t.installed⟩
    · rw [same, hears]
      cases t.active with
      | false => exact ⟨0, rfl⟩
      | true => exact ⟨1, rfl⟩
    · rw [hears_observe, if_neg (fun new => same new.2), List.append_nil]
      exact attended.edges o
  · intro o listening
    have active : (t.observe id).active = t.active := by rw [observe_eq]
    rw [active]
    rw [observe_eq] at listening
    cases listening
    rw [hears]
    cases t.active <;> rfl

theorem attended_step (fits : Fits p p.timer.phase) (attended : Attended p.timer)
    (taken : p.step? action = some q) : Attended q.timer := by
  rcases (stepped_step? taken).silent_or with
    silent | ⟨active, announcing, same⟩ | ⟨id, rfl, same⟩
  · exact attended.silent silent
  · rw [announcing] at fits
    rw [same]
    exact attended.announced fits
  · rw [same]
    exact attended.observed id

/-- Apart from installations, a step is heard by the installed observer alone, and only
if it changes whether the timer is active. -/
theorem hears_step (fits : Fits p p.timer.phase) (taken : p.step? action = some q)
    (other : ∀ id, action ≠ .observe id) :
    q.timer.observer = p.timer.observer ∧ ∀ o : Observer,
      o.hears q.timer.heard = o.hears p.timer.heard ++
        if p.timer.observer = some o ∧ q.timer.active ≠ p.timer.active
          then [q.timer.active] else [] := by
  rcases (stepped_step? taken).silent_or with
    silent | ⟨active, announcing, same⟩ | ⟨id, observes, _⟩
  · refine ⟨silent.observer, fun o => ?_⟩
    rw [if_neg (fun heard => heard.2 silent.active), List.append_nil, silent.heard]
  · rw [announcing] at fits
    -- The clock never announces what is the case already.
    have changed : active ≠ p.timer.active := by
      rw [show p.timer.active = !active from fits]
      simp
    rw [same]
    refine ⟨rfl, fun o => ?_⟩
    rw [hears_announced]
    simp only [announced, tell, ne_eq, changed, not_false_eq_true, and_true]
  · exact absurd observes (other id)

/-- An observer in whose place there is another. -/
structure Replaced (o : Observer) (t : Timer) : Prop where
  known : o.serial < t.installed
  replaced : t.observer ≠ some o

theorem replaced_step (replaced : Replaced o p.timer) (taken : p.step? action = some q) :
    Replaced o q.timer ∧ o.hears q.timer.heard = o.hears p.timer.heard := by
  obtain ⟨known, replaced⟩ := replaced
  rcases (stepped_step? taken).silent_or with silent | ⟨active, _, same⟩ | ⟨id, rfl, same⟩
  · obtain ⟨_, observer, installed, heard⟩ := silent
    exact ⟨⟨installed ▸ known, observer ▸ replaced⟩, heard ▸ rfl⟩
  · rw [same]
    refine ⟨⟨known, replaced⟩, ?_⟩
    rw [hears_announced, if_neg replaced, List.append_nil]
  · -- The new observer has a place that none had before.
    rw [same]
    have new : o ≠ ⟨id, p.timer.installed⟩ := by
      rintro rfl
      exact Nat.lt_irrefl _ known
    refine ⟨?_, ?_⟩
    · rw [observe_eq]
      exact ⟨Nat.lt_succ_of_lt known, fun same => new (Option.some.inj same).symm⟩
    · rw [hears_observe, if_neg (fun heard => new heard.2), List.append_nil]

/-! ### Whole runs -/

/-- What the timer becomes, active or not, with each change along a list of actions. -/
def Shared.changes (p : Shared) : List Action → List Bool
  | [] => []
  | action :: rest =>
    (p.step? action).elim [] fun q =>
      (if q.timer.active ≠ p.timer.active then [q.timer.active] else []) ++ q.changes rest

/-- While an observer stays installed it hears every change once and nothing else. -/
theorem hears_run (fits : Fits p p.timer.phase) (listening : p.timer.observer = some o)
    (alone : ∀ id, .observe id ∉ actions) (ran : p.run? actions = some q) :
    o.hears q.timer.heard = o.hears p.timer.heard ++ p.changes actions := by
  induction actions generalizing p with
  | nil =>
    cases ran
    exact (List.append_nil _).symm
  | cons action rest ih =>
    obtain ⟨u, taken, later⟩ := replay?_cons.mp ran
    simp only [List.mem_cons, not_or] at alone
    obtain ⟨observer, hears⟩ := hears_step fits taken (fun id => Ne.symm (alone id).1)
    have rest := ih ((stepped_step? taken).fits fits) (observer.trans listening)
      (fun id => (alone id).2) later
    rw [rest, hears, Shared.changes, taken, List.append_assoc]
    simp [listening]

theorem hears_run_of_replaced (replaced : Replaced o p.timer) (ran : p.run? actions = some q) :
    o.hears q.timer.heard = o.hears p.timer.heard := by
  induction actions generalizing p with
  | nil =>
    cases ran
    rfl
  | cons action rest ih =>
    obtain ⟨u, taken, later⟩ := replay?_cons.mp ran
    obtain ⟨still, same⟩ := replaced_step replaced taken
    exact (ih still later).trans same

theorem attended_run {name : String}
    (ran : Shared.run? { timer := Timer.start name } actions = some p) : Attended p.timer := by
  have keeps : ∀ s action t, Fits s s.timer.phase ∧ Attended s.timer → s.step? action = some t →
      Fits t t.timer.phase ∧ Attended t.timer := by
    rintro s action t ⟨fits, attended⟩ taken
    exact ⟨(stepped_step? taken).fits fits, attended_step fits attended taken⟩
  have begin : Attended (Timer.start name) := ⟨nofun, nofun, fun _ => ⟨0, rfl⟩, nofun⟩
  exact (replay?_keeps (s := { timer := Timer.start name }) keeps ⟨trivial, begin⟩ ran).2

/-- In every interleaving, every observer hears `true, false, true, false, …` up to some
point, and what the installed one has heard last is whether the timer is active. A change
of that is heard by the observer that is installed and by nobody else. A new observer
hears at once if the timer is active, and then every change, until it is replaced; from
then on it hears nothing. In particular, while the clock is parked the installed observer
has not been left with a `true`. -/
theorem observers_hear_alternating_edges {name : String}
    (ran : Shared.run? { timer := Timer.start name } actions = some p) :
    (∀ o : Observer, ∃ n, o.hears p.timer.heard = edges n) ∧
    (∀ o, p.timer.observer = some o → (o.hears p.timer.heard).getLastD false = p.timer.active) ∧
    (∀ action q, p.step? action = some q → (∀ id, action ≠ .observe id) →
      q.timer.observer = p.timer.observer ∧ ∀ o : Observer,
        o.hears q.timer.heard = o.hears p.timer.heard ++
          if p.timer.observer = some o ∧ q.timer.active ≠ p.timer.active
            then [q.timer.active] else []) ∧
    (∀ id q, p.step? (.observe id) = some q →
      q.timer.active = p.timer.active ∧ ∃ o : Observer, o.id = id ∧
        q.timer.observer = some o ∧ o.hears p.timer.heard = [] ∧
        (∀ other, other ≠ o → other.hears q.timer.heard = other.hears p.timer.heard) ∧
        ∀ later r, (∀ id, .observe id ∉ later) → q.run? later = some r →
          o.hears r.timer.heard =
            (if p.timer.active then [true] else []) ++ q.changes later) ∧
    (∀ o : Observer, o.serial < p.timer.installed → p.timer.observer ≠ some o →
      ∀ later q, p.run? later = some q → o.hears q.timer.heard = o.hears p.timer.heard) ∧
    (∀ o notified, p.timer.observer = some o → p.timer.phase = .parked notified →
      (o.hears p.timer.heard).getLast? ≠ some true) := by
  have fits := fits_run ran
  have attended := attended_run ran
  refine ⟨attended.edges, attended.last, fun _ _ => hears_step fits, ?_, ?_, ?_⟩
  · intro id q taken
    have later_fits := (stepped_step? taken).fits fits
    obtain ⟨_, ⟨⟩⟩ := Option.ite_none_right_eq_some.mp taken
    refine ⟨by rw [observe_eq], ⟨id, p.timer.installed⟩, rfl, by rw [observe_eq],
      attended.hears_eq_nil (Nat.le_refl _), ?_, ?_⟩
    · intro other different
      change other.hears (p.timer.observe id).heard = _
      rw [hears_observe, if_neg (fun heard => different heard.2), List.append_nil]
    · intro later r alone next
      rw [hears_run later_fits (by rw [observe_eq]) alone next]
      exact congrArg (· ++ _) (attended.hears_installed id)
  · exact fun o known replaced later q => hears_run_of_replaced ⟨known, replaced⟩
  · intro o notified listening parked heard
    -- A parked clock has found the timer inactive, and nobody else can make it active.
    rw [parked] at fits
    have last := attended.last o listening
    rw [List.getLastD_eq_getLast?, heard, fits.1] at last
    cases last

/-- The first observer hears the start of a countdown and is then replaced. The second one
hears of the start as well, and the first one not even of the end. -/
theorem observer_replaced_during_countdown :
    let actions : List Action :=
      [.observe 1, .set 2, .clock false, .clock false, .clock false, .observe 2]
    ∃ q, Shared.run? { timer := Timer.start "sound" } actions = some q ∧
      Observer.hears ⟨2, 1⟩ q.timer.heard = [true] ∧
      ∀ later r, q.run? later = some r → Observer.hears ⟨1, 0⟩ r.timer.heard = [true] := by
  intro actions
  have ran : Shared.run? { timer := Timer.start "sound" } actions = some _ := rfl
  obtain ⟨_, _, _, _, replaced, _⟩ := observers_hear_alternating_edges ran
  refine ⟨_, ran, rfl, fun later r next => ?_⟩
  exact replaced ⟨1, 0⟩ (by decide) (by decide) later r next

end Timer

end Chip8
