import Chip8.Proofs.Machine.Calls

/-!
# The operations that are executed

A tick that is done has executed one operation, and any other tick none. The operations of
a run are those of its ticks. So whatever can be said of a tick by the operation that it
has executed, and added up, can be said of a run by the list of its operations: nobody has
to look into the run again.
-/
namespace Chip8

namespace Session
open Machine

/-- The operations that a run executes to their end, in order. -/
def operations (world : World) : (count first : Nat) → Session → List Operation
  | 0, _, _ => []
  | count + 1, first, s =>
    match s.machine.status with
    | .halted => []
    | .running =>
      if (s.before world first).machine.stopRequested then []
      else
        match s.round world first with
        | (.done, t) =>
          ((s.before world first).machine.upcoming?.map Instruction.operation).toList ++
            operations world count (first + 1) t
        | _ => []

end Session

namespace Machine

/-- The operations that a request executes to their end, in order. -/
def operationsOf (m : Machine) : Request → List Operation
  | .tick random arrivals =>
    ((m.executed? (.tick random arrivals)).map Instruction.operation).toList
  | .run world count arrivals => Session.operations world count 0 { machine := m, arrivals }
  | _ => []

def operationsOfAll (m : Machine) : List Request → List Operation
  | [] => []
  | request :: rest => m.operationsOf request ++ (m.perform request).2.operationsOfAll rest

/-- An ordinary instruction is executed to its end. -/
theorem executed?_of_ordinary {m : Machine} (wellFormed : m.WellFormed)
    (running : m.status = .running) {i : Instruction} (decoded : m.upcoming? = some i)
    (ordinary : i.operation.ordinary = true) (random : UInt8) (arrivals : List (List Event)) :
    m.executed? (.tick random arrivals) = some i := by
  have ticked := ticked_perform wellFormed running random arrivals
  rw [executed?_tick running, if_pos, decoded]
  generalize m.perform (.tick random arrivals) = ended at ticked ⊢
  obtain ⟨outcome, n⟩ := ended
  -- The other ends of a tick are those of words without meaning, of calls, returns and waits.
  cases ticked with
  | unknown undecodable => cases undecodable.symm.trans decoded
  | refused again failed =>
    cases again.symm.trans decoded
    cases wellFormed.executed again failed <;> cases ordinary
  | executed again done => rfl
  | pressed narrow again split awaits => rfl
  | interrupted again split awaits =>
    cases again.symm.trans decoded
    cases ordinary
  | blocked again awaits =>
    cases again.symm.trans decoded
    cases ordinary

/-- What is kept of a change by the operations that make it, added up along the way. Others
act and machines halt without executing anything. -/
structure Account (K : List Operation → Machine → Machine → Prop) : Prop where
  refl (m : Machine) : K [] m m
  trans {done later : List Operation} {m n o : Machine} (first : K done m n)
    (second : K later n o) : K (done ++ later) m o
  apply (m : Machine) (event : Event) : K [] m (m.apply event).2
  halt (m : Machine) : K [] m m.halt
  ticked {m n : Machine} {random : UInt8} {arrivals : List (List Event)} {outcome : Outcome}
    (wellFormed : m.WellFormed) (ticked : Ticked m random arrivals outcome n) :
    K ((if outcome = .done then m.upcoming? else none).map Instruction.operation).toList m n

namespace Account

variable {K : List Operation → Machine → Machine → Prop} (account : Account K) {m : Machine}
include account

theorem after (m : Machine) (events : List Event) : K [] m (m.after events) := by
  induction events generalizing m with
  | nil => exact account.refl m
  | cons event rest ih => exact account.trans (account.apply m event) (ih (m.apply event).2)

theorem tick (wellFormed : m.WellFormed) (random : UInt8) (arrivals : List (List Event)) :
    K (m.operationsOf (.tick random arrivals)) m (m.perform (.tick random arrivals)).2 := by
  cases status : m.status with
  | halted =>
    rw [operationsOf, executed?_of_halted status, tick_of_halted status]
    exact account.refl m
  | running =>
    rw [operationsOf, executed?_tick status]
    exact account.ticked wellFormed (ticked_perform wellFormed status random arrivals)

end Account

end Machine

namespace Session
open Machine

theorem operations_of_ended {world : World} {count first : Nat} {s t : Session} {outcome : Outcome}
    (running : s.machine.status = .running)
    (unstopped : (s.before world first).machine.stopRequested = false)
    (ended : s.round world first = (outcome, t)) (last : outcome ≠ .done) :
    operations world (count + 1) first s = [] := by
  simp only [operations, running, unstopped, Bool.false_eq_true, if_false]
  rw [ended]
  cases outcome with
  | done => exact absurd rfl last
  | _ => rfl

theorem account_run {K : List Operation → Machine → Machine → Prop} (account : Account K)
    (world : World) (count first : Nat) {s : Session} (wellFormed : s.machine.WellFormed) :
    K (operations world count first s) s.machine (run world count first s).2.machine := by
  -- The list of operations is made the way the run goes, one round at a time.
  induction count generalizing first s with
  | zero => exact account.refl s.machine
  | succ count ih =>
    cases running : s.machine.status with
    | halted =>
      simp only [operations, running, run_of_halted running]
      exact account.refl s.machine
    | running =>
      have met : K [] s.machine (s.before world first).machine := account.after s.machine _
      cases stopped : (s.before world first).machine.stopRequested with
      | true =>
        simp only [operations, running, stopped, if_true, run_of_stopped running stopped]
        exact account.trans met (account.halt _)
      | false =>
        have ready : (s.before world first).machine.WellFormed := wellFormed.after _
        have ticked := ticked_tick ready ((s.status_before world first).trans running)
          (world.random first)
        change Ticked _ _ _ (s.round world first).1 (s.round world first).2.machine at ticked
        have kept := account.trans met (account.ticked ready ticked)
        rcases s.round_cases world first with ⟨t, round⟩ | ⟨outcome, t, round, last⟩
        · rw [round] at ticked kept
          have later := account.trans kept (ih (first + 1) (ready.ticked ticked))
          simp only [operations, running, stopped, round, Bool.false_eq_true, if_false]
          rw [run_of_done running stopped round]
          exact later
        · rw [round, if_neg last] at kept
          rw [operations_of_ended running stopped round last]
          -- A round that is not done ends the run, whatever the run makes of its outcome.
          rcases run_cases_of_ended running stopped round last with same | finished
          · rw [same]
            exact kept
          · rw [finished]
            exact kept

end Session

namespace Machine

theorem Account.run {K : List Operation → Machine → Machine → Prop} (account : Account K)
    {m : Machine} (wellFormed : m.WellFormed) (world : World) (count : Nat)
    (arrivals : List (List Event)) :
    K (m.operationsOf (.run world count arrivals)) m (m.perform (.run world count arrivals)).2 :=
  Session.account_run account world count 0 wellFormed

end Machine

end Chip8
