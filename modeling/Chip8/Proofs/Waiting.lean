import Chip8.Waiting

/-!
# Where a wait ends

The events of a wait are those that it meets, followed by those that are left over.
It meets events as long as there is no result, so there is none before the last
event that it meets. Two waits in states that neither the looks nor the events can
tell apart meet the same events.
-/
namespace Chip8

variable {State Event Answer Result : Type} (result? : State → Option Result)
  (apply : State → Event → Answer × State)

/-- Nothing has come before the last of these events that would have ended the wait. -/
def Unanswered (s : State) (met : List Event) : Prop :=
  ∀ seen, seen <+: met → seen ≠ met → result? (applyAll apply s seen).2 = none

variable {result?}

theorem unanswered_nil (s : State) : Unanswered result? apply s [] := by
  intro seen before proper
  exact absurd (List.prefix_nil.mp before) proper

theorem unanswered_cons {s : State} {event : Event} {met : List Event}
    (none : result? s = none) (later : Unanswered result? apply (apply s event).2 met) :
    Unanswered result? apply s (event :: met) := by
  intro seen before proper
  rcases List.prefix_cons_iff.mp before with rfl | ⟨rest, rfl, tail⟩
  · exact none
  · apply later rest tail
    rintro rfl
    exact proper rfl

variable (result?)

theorem awaitResult_split (s : State) (events : List Event) :
    ∃ met rest, events = met ++ rest ∧
      awaitResult result? apply s events =
        { result := result? (applyAll apply s met).2
          state := (applyAll apply s met).2
          answers := (applyAll apply s met).1
          rest } ∧
      Unanswered result? apply s met ∧
      (result? (applyAll apply s met).2 = none → rest = []) := by
  induction events generalizing s with
  | nil => exact ⟨[], [], rfl, rfl, unanswered_nil apply s, fun _ => rfl⟩
  | cons event events ih =>
    cases found : result? s with
    | some result =>
      -- The wait ends before this event, which is left to others.
      refine ⟨[], event :: events, rfl, ?_, unanswered_nil apply s, ?_⟩
      · simp only [awaitResult, found, applyAll]
      · simp only [applyAll, found, reduceCtorEq, false_implies]
    | none =>
      obtain ⟨met, rest, rfl, eq, unanswered, last⟩ := ih (apply s event).2
      refine ⟨event :: met, rest, rfl, ?_, unanswered_cons apply found unanswered, last⟩
      simp only [awaitResult, found, eq, applyAll]

/-! ### Events in groups -/

theorem applyAll_append (s : State) (first second : List Event) :
    applyAll apply s (first ++ second) =
      ((applyAll apply s first).1 ++ (applyAll apply (applyAll apply s first).2 second).1,
        (applyAll apply (applyAll apply s first).2 second).2) := by
  induction first generalizing s with
  | nil => rfl
  | cons event rest ih => simp only [List.cons_append, applyAll, ih]

/-- Groups of events lead to the same state as the events in a row, with the same answers. -/
theorem applyAll_flatten (s : State) (groups : List (List Event)) :
    applyAll apply s groups.flatten =
      ((applyAll (applyAll apply) s groups).1.flatten,
        (applyAll (applyAll apply) s groups).2) := by
  induction groups generalizing s with
  | nil => rfl
  | cons group rest ih =>
    rw [List.flatten_cons, applyAll_append, ih]
    simp only [applyAll, List.flatten_cons]

/-! ### Two waits at once -/

/-- Two waits that have met the same events and had the same answers. -/
structure Vigil.Related (R : State → State → Prop) (S : Result → Result → Prop)
    (v w : Vigil State Event Answer Result) : Prop where
  result : Option.Rel S v.result w.result
  state : R v.state w.state
  answers : w.answers = v.answers
  rest : w.rest = v.rest

variable {result? apply} {R : State → State → Prop} {S : Result → Result → Prop}

theorem applyAll_related
    (applies : ∀ s t event, R s t →
      (apply t event).1 = (apply s event).1 ∧ R (apply s event).2 (apply t event).2)
    {s t : State} (related : R s t) (events : List Event) :
    (applyAll apply t events).1 = (applyAll apply s events).1 ∧
      R (applyAll apply s events).2 (applyAll apply t events).2 := by
  induction events generalizing s t with
  | nil => exact ⟨rfl, related⟩
  | cons event rest ih =>
    obtain ⟨answer, after⟩ := applies s t event related
    obtain ⟨answers, last⟩ := ih after
    simp only [applyAll, answer, answers]
    exact ⟨trivial, last⟩

theorem awaitResult_related (looks : ∀ s t, R s t → Option.Rel S (result? s) (result? t))
    (applies : ∀ s t event, R s t →
      (apply t event).1 = (apply s event).1 ∧ R (apply s event).2 (apply t event).2)
    {s t : State} (related : R s t) (events : List Event) :
    Vigil.Related R S (awaitResult result? apply s events)
      (awaitResult result? apply t events) := by
  induction events generalizing s t with
  | nil => exact ⟨looks s t related, related, rfl, rfl⟩
  | cons event events ih =>
    have found := looks s t related
    obtain ⟨answer, after⟩ := applies s t event related
    have later := ih after
    simp only [awaitResult]
    generalize result? s = first at found ⊢
    generalize result? t = second at found ⊢
    cases found with
    | some same => exact ⟨.some same, related, rfl, rfl⟩
    | none =>
      refine ⟨later.result, later.state, ?_, later.rest⟩
      simp only [answer, later.answers]

end Chip8
