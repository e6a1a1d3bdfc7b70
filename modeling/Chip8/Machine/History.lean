import Chip8.Machine.Run

/-!
# Histories

What a host can request of a machine, and the machines that this leads to. A
request that is still waiting for a key has not been completed, so no further
request follows it; what others do in the meantime are the events that arrive
during its wait.
-/
namespace Chip8.Machine

inductive Request
  | load (program : List UInt8)
  | setRegister (register : Nat) (value : UInt8)
  | setPc (pc : Word)
  | setIndex (i : Word)
  | memory (update : Memory.Update)
  | event (event : Event)
  | tick (random : UInt8) (arrivals : List (List Event))
  | run (world : World) (count : Nat) (arrivals : List (List Event))
  | reset
  | toggleDebug
  | observeTone (id : Nat)
  | shutdown

/-- Performs a request, with its outcome. -/
def perform (m : Machine) : Request → Outcome × Machine
  | .load program =>
    let (result, m) := m.loadProgram program
    (.ofResult result, m)
  | .setRegister register value =>
    let (result, m) := m.setRegister register value
    (.ofResult result, m)
  | .setPc pc => (.done, m.setPc pc)
  | .setIndex i => (.done, m.setIndex i)
  | .memory update =>
    let (result, m) := m.updateMemory update
    (.ofResult result, m)
  | .event event =>
    let (answer, m) := m.apply event
    (match answer with
      | .ok _ => .done
      | .error fault => .failed (.fault fault), m)
  | .tick random arrivals =>
    let (outcome, s) := Session.tick { machine := m, arrivals } random
    (outcome, s.machine)
  | .run world count arrivals =>
    let (outcome, s) := Session.run world count 0 { machine := m, arrivals }
    (outcome, s.machine)
  | .reset => (.done, m.reset)
  | .toggleDebug => (.done, m.toggleDebug)
  | .observeTone id => (.done, m.observeTone id)
  | .shutdown => (.done, m.shutdown)

/-- The machine after several requests. -/
def performAll (m : Machine) (requests : List Request) : Machine :=
  requests.foldl (fun m request => (m.perform request).2) m

/-- The machines that completed requests lead to. -/
inductive Reachable : Machine → Prop
  | new (settings : Settings) : Reachable (new settings)
  | perform {m : Machine} (request : Request) :
    Reachable m → (m.perform request).1 ≠ .blocked → Reachable (m.perform request).2

end Chip8.Machine
