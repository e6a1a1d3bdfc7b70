/-!
# Waiting

Someone waits for a state to give a result while events change that state. The
state is looked at before each event, so the wait ends with the first event
after which there is a result, and later events are left over. If the events run
out first, the wait is still going on. Where several things can happen between
two looks, the events are groups of these.
-/
namespace Chip8

variable {State Event Answer Result : Type}

/-- What there is when a wait ends, or when its events have run out. -/
structure Vigil (State Event Answer Result : Type) where
  result : Option Result
  state : State
  answers : List Answer
  rest : List Event

/-- Applies events until there is a result. -/
def awaitResult (result? : State → Option Result) (apply : State → Event → Answer × State)
    (s : State) : List Event → Vigil State Event Answer Result
  | [] => { result := result? s, state := s, answers := [], rest := [] }
  | event :: rest =>
    match result? s with
    | some r => { result := some r, state := s, answers := [], rest := event :: rest }
    | none =>
      let (answer, s) := apply s event
      let later := awaitResult result? apply s rest
      { later with answers := answer :: later.answers }

/-- Applies all events in order. -/
def applyAll (apply : State → Event → Answer × State) (s : State) : List Event → List Answer × State
  | [] => ([], s)
  | event :: rest =>
    let (answer, s) := apply s event
    let (answers, s) := applyAll apply s rest
    (answer :: answers, s)

end Chip8
