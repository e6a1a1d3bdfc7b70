/-!
# Interleavings

Parties that act at once take their steps one after the other, in an order that none
of them decides. A step may have to wait until the state admits it. So an interleaving
is a list of actions, and it is possible if the state admits each of them in its turn.
-/
namespace Chip8

variable {State Action : Type} {step? : State → Action → Option State}

/-- The state after a list of actions, if each can be taken in its turn. -/
def replay? (step? : State → Action → Option State) (s : State) : List Action → Option State
  | [] => some s
  | action :: rest => (step? s action).bind fun s => replay? step? s rest

theorem replay?_cons {s t : State} {action : Action} {rest : List Action} :
    replay? step? s (action :: rest) = some t ↔
      ∃ u, step? s action = some u ∧ replay? step? u rest = some t :=
  Option.bind_eq_some_iff

theorem replay?_append {s t : State} {first second : List Action} :
    replay? step? s (first ++ second) = some t ↔
      ∃ u, replay? step? s first = some u ∧ replay? step? u second = some t := by
  induction first generalizing s with
  | nil => simp [replay?]
  | cons action rest ih =>
    simp only [List.cons_append, replay?_cons, ih]
    constructor
    · rintro ⟨v, taken, u, followed, last⟩
      exact ⟨u, ⟨v, taken, followed⟩, last⟩
    · rintro ⟨u, ⟨v, taken, followed⟩, last⟩
      exact ⟨v, taken, u, followed, last⟩

/-- What every step keeps, every interleaving keeps. -/
theorem replay?_keeps {P : State → Prop}
    (keeps : ∀ s action t, P s → step? s action = some t → P t) {s t : State}
    {actions : List Action} (holds : P s) (ran : replay? step? s actions = some t) : P t := by
  induction actions generalizing s with
  | nil =>
    cases ran
    exact holds
  | cons action rest ih =>
    obtain ⟨u, taken, later⟩ := replay?_cons.mp ran
    exact ih (keeps s action u holds taken) later

end Chip8
