import Chip8.Proofs.Machine.Faults

/-!
# Calls and returns

A call pushes its own address, and a return goes on behind the address that it pops.
Nothing else changes the addresses on the stack, whatever program has been written
into memory in the meantime. So above a call the stack only grows and shrinks, the
addresses below stay as they are, and the first request that takes the stack back to
its old depth is the return of that very call.
-/
namespace Chip8.Machine

/-- Whether the request neither resets the machine nor ticks more than once. -/
def Request.stepwise : Request → Bool
  | .reset => false
  | .run _ _ _ => false
  | _ => true

/-- The instruction that a request executes to its end. -/
def executed? (m : Machine) (request : Request) : Option Instruction :=
  match request, m.status, (m.perform request).1 with
  | .tick _ _, .running, .done => m.upcoming?
  | _, _, _ => none

/-- The operations that requests execute to their end, in order. -/
def operations (m : Machine) : List Request → List Operation
  | [] => []
  | request :: rest =>
    ((m.executed? request).map Instruction.operation).toList ++
      (m.perform request).2.operations rest

/-! ### One request -/

/-- What a request does to the stack, told by the instruction that it has executed. -/
inductive Moved (m n : Machine) : Option Instruction → Prop
  | called {target : Word} (pushed : n.registers.live = m.registers.live ++ [m.registers.pc]) :
      Moved m n (some (.address .call target))
  | returned {address : Word} (popped : m.registers.live = n.registers.live ++ [address])
      (pc : n.registers.pc = wrapAddress (address + 2)) : Moved m n (some (.plain .ret))
  | other {i : Instruction} (call : i.operation ≠ .address .call)
      (ret : i.operation ≠ .plain .ret) (same : n.registers.live = m.registers.live) :
      Moved m n (some i)
  | none (same : n.registers.live = m.registers.live) : Moved m n none

theorem live_eq {r s : Registers} (stack : s.stack = r.stack) (sp : s.sp = r.sp) :
    s.live = r.live := by
  simp only [Registers.live, stack, sp]

theorem Executed.moved {m n : Machine} {i : Instruction}
    (executed : Executed m i (.ok .done, n)) (wellFormed : m.WellFormed) :
    Moved m n.advance (some i) := by
  cases executed with
  | returned occupied popped =>
    have popped := Registers.live_pop wellFormed.registers popped
    exact .returned popped rfl
  | called free pushed =>
    have pushed := Registers.live_push pushed
    exact .called pushed
  | ordinary kind kept =>
    refine .other (fun call => ?_) (fun ret => ?_) (live_eq kept.stack kept.sp)
    · rw [call] at kind
      cases kind
    · rw [ret] at kind
      cases kind

theorem moved_of_ticked {m n : Machine} (wellFormed : m.WellFormed) {random : UInt8}
    {arrivals : List (List Event)} {outcome : Outcome}
    (ticked : Ticked m random arrivals outcome n) :
    Moved m n (if outcome = .done then m.upcoming? else none) := by
  cases ticked with
  | unknown undecodable => exact .none rfl
  | refused decoded failed => exact .none rfl
  | executed decoded done =>
    rw [if_pos rfl, decoded]
    -- Counting the cycle has not changed the registers.
    have moved := (wellFormed.executed decoded done).moved wellFormed.counted
    cases moved with
    | called pushed => exact .called pushed
    | returned popped pc => exact .returned popped pc
    | other call ret same => exact .other call ret same
  | pressed narrow decoded split awaits =>
    rw [if_pos rfl, decoded]
    exact .other (by simp [Instruction.operation]) (by simp [Instruction.operation]) rfl
  | @interrupted x met rest decoded split awaits =>
    have inside := sameInside_after m.armed met.flatten
    exact .none (congrArg Registers.live inside.registers)
  | blocked decoded awaits =>
    have inside := sameInside_after m.armed arrivals.flatten
    exact .none (congrArg Registers.live inside.registers)

theorem executed?_tick {m : Machine} (running : m.status = .running) (random : UInt8)
    (arrivals : List (List Event)) :
    m.executed? (.tick random arrivals) =
      if (m.perform (.tick random arrivals)).1 = .done then m.upcoming? else none := by
  unfold executed?
  rw [running]
  cases (m.perform (.tick random arrivals)).1 <;> rfl

theorem executed?_of_halted {m : Machine} (halted : m.status = .halted) (random : UInt8)
    (arrivals : List (List Event)) : m.executed? (.tick random arrivals) = none := by
  unfold executed?
  rw [halted]

theorem moved_tick {m : Machine} (wellFormed : m.WellFormed) (random : UInt8)
    (arrivals : List (List Event)) :
    Moved m (m.perform (.tick random arrivals)).2 (m.executed? (.tick random arrivals)) := by
  cases status : m.status with
  | halted =>
    rw [executed?_of_halted status, tick_of_halted status]
    exact .none rfl
  | running =>
    rw [executed?_tick status]
    exact moved_of_ticked wellFormed (ticked_perform wellFormed status random arrivals)

/-- Only calls and returns change the addresses on the stack. -/
theorem moved_perform {m : Machine} (wellFormed : m.WellFormed) {request : Request}
    (stepwise : request.stepwise = true) :
    Moved m (m.perform request).2 (m.executed? request) := by
  -- Requests from aside do not touch the stack; of the others only ticks are stepwise.
  cases aside : request.aside with
  | true =>
    have passed := passed_perform m aside
    have idle : m.executed? request = none := by
      cases request with
      | tick random arrivals => cases aside
      | _ => rfl
    rw [idle]
    exact .none (live_eq passed.stack passed.sp)
  | false =>
    cases request with
    | tick random arrivals => exact moved_tick wellFormed random arrivals
    | run world count arrivals => cases stepwise
    | reset => cases stepwise
    | _ => cases aside

/-! ### Above a call -/

theorem WellFormed.depth {m : Machine} (wellFormed : m.WellFormed) :
    m.registers.live.length = m.registers.sp.toNat :=
  Registers.length_live wellFormed.registers

/-- What a call has pushed is still on the stack, on top of what was there before. -/
def Nested (caller m : Machine) : Prop :=
  caller.registers.live ++ [caller.registers.pc] <+: m.registers.live

theorem Nested.deeper {caller m : Machine} (nested : Nested caller m) :
    caller.registers.live.length < m.registers.live.length := by
  have long := nested.length_le
  rw [List.length_append] at long
  exact long

/-- The stack cannot get below the pushed address without coming back to its old depth. -/
theorem Nested.moved {caller m n : Machine} (nested : Nested caller m)
    {executed : Option Instruction} (moved : Moved m n executed)
    (away : n.registers.live.length ≠ caller.registers.live.length) : Nested caller n := by
  unfold Nested at nested ⊢
  cases moved with
  | called pushed =>
    rw [pushed]
    exact nested.trans (List.prefix_append _ _)
  | returned popped pc =>
    rw [popped, List.prefix_concat_iff] at nested
    rcases nested with whole | still
    · -- The pushed address itself would be the one that has been popped.
      have lengths := congrArg List.length whole
      simp only [List.length_append, List.length_singleton] at lengths
      exact absurd (Nat.succ.inj lengths).symm away
    · exact still
  | other call ret same =>
    rw [same]
    exact nested
  | none same =>
    rw [same]
    exact nested

/-- Only the return that pops the pushed address brings the stack back. -/
theorem Nested.back {caller m n : Machine} (nested : Nested caller m)
    {executed : Option Instruction} (moved : Moved m n executed)
    (back : n.registers.live.length = caller.registers.live.length) :
    executed = some (.plain .ret) ∧ n.registers.pc = wrapAddress (caller.registers.pc + 2) ∧
      n.registers.live = caller.registers.live := by
  have deeper := nested.deeper
  -- A push or an instruction that leaves the stack alone keeps it above its old depth.
  cases moved with
  | called pushed =>
    rw [pushed, List.length_append] at back
    omega
  | returned popped pc =>
    unfold Nested at nested
    rw [popped, List.prefix_concat_iff] at nested
    rcases nested with whole | still
    · obtain ⟨below, top⟩ := List.append_inj' whole rfl
      rw [pc, ← List.singleton_inj.mp top]
      exact ⟨rfl, rfl, below.symm⟩
    · -- Otherwise the pushed address would lie below the old depth.
      have long := still.length_le
      rw [List.length_append, back] at long
      exact absurd long (Nat.not_succ_le_self _)
  | other call ret same =>
    rw [same] at back
    omega
  | none same =>
    rw [same] at back
    omega

theorem nested_performAll {caller m : Machine} (wellFormed : m.WellFormed)
    (nested : Nested caller m) {requests : List Request}
    (stepwise : ∀ request ∈ requests, request.stepwise = true)
    (away : ∀ seen, seen <+: requests →
      (m.performAll seen).registers.live.length ≠ caller.registers.live.length) :
    Nested caller (m.performAll requests) := by
  induction requests generalizing m with
  | nil => exact nested
  | cons request rest ih =>
    -- `away` rules out that this request is the return of the call.
    have moved := moved_perform wellFormed (stepwise request List.mem_cons_self)
    have first := away [request] (List.prefix_append [request] rest)
    apply ih (safe_perform wellFormed request).wellFormed (nested.moved moved first)
    · intro other member
      exact stepwise other (List.mem_cons_of_mem _ member)
    · intro seen before
      exact away (request :: seen) (List.cons_prefix_cons.mpr ⟨rfl, before⟩)

theorem nested_of_call {m : Machine} (wellFormed : m.WellFormed) {random : UInt8}
    {arrivals : List (List Event)} {target : Word}
    (called : m.executed? (.tick random arrivals) = some (.address .call target)) :
    Nested m (m.perform (.tick random arrivals)).2 := by
  have moved := moved_tick wellFormed random arrivals
  rw [called] at moved
  unfold Nested
  cases moved with
  | called pushed => exact ⟨[], (List.append_nil _).trans pushed.symm⟩
  | other call ret same => exact absurd rfl call

/-- The return that brings the stack back goes on behind the call. -/
theorem returned_of_nested {caller m : Machine} (bounded : caller.WellFormed)
    (wellFormed : m.WellFormed) (nested : Nested caller m) {request : Request}
    (stepwise : request.stepwise = true)
    (back : (m.perform request).2.registers.sp.toNat = caller.registers.sp.toNat) :
    m.executed? request = some (.plain .ret) ∧
      (m.perform request).2.registers.pc.toNat = (caller.registers.pc.toNat + 2) % 4096 ∧
      (m.perform request).2.registers.live = caller.registers.live := by
  rw [← (safe_perform wellFormed request).wellFormed.depth, ← bounded.depth] at back
  obtain ⟨ret, pc, live⟩ := nested.back (moved_perform wellFormed stepwise) back
  refine ⟨ret, ?_, live⟩
  rw [pc]
  exact toNat_wrapAddress_add_two bounded.registers.pc

/-! ### Outstanding calls -/

/-- The depth of the stack counts the calls that have not been returned from. -/
theorem Moved.depth {m n : Machine} {executed : Option Instruction} (moved : Moved m n executed) :
    let done := (executed.map Instruction.operation).toList
    n.registers.live.length + done.count (.plain .ret) =
      m.registers.live.length + done.count (.address .call) := by
  cases moved with
  | called pushed =>
    rw [pushed, List.length_append]
    rfl
  | returned popped pc =>
    rw [popped, List.length_append]
    rfl
  | other call ret same =>
    rw [same]
    simp [call, ret]
  | none same =>
    rw [same]
    rfl

theorem depth_performAll {m : Machine} (wellFormed : m.WellFormed) {requests : List Request}
    (stepwise : ∀ request ∈ requests, request.stepwise = true) :
    (m.performAll requests).registers.live.length +
        (m.operations requests).count (.plain .ret) =
      m.registers.live.length + (m.operations requests).count (.address .call) := by
  induction requests generalizing m with
  | nil => rfl
  | cons request rest ih =>
    have moved := (moved_perform wellFormed (stepwise request List.mem_cons_self)).depth
    have later := ih (safe_perform wellFormed request).wellFormed fun other member =>
      stepwise other (List.mem_cons_of_mem _ member)
    rw [performAll_cons]
    simp only [operations, List.count_append] at moved later ⊢
    omega

/-! ### All together -/

/-- A call whose slot is free is executed to its end. -/
theorem executed?_of_call {m : Machine} (wellFormed : m.WellFormed) (running : m.status = .running)
    {target : Word} (decoded : m.upcoming? = some (.address .call target))
    (free : m.registers.sp.toNat < 16) (random : UInt8) (arrivals : List (List Event)) :
    m.executed? (.tick random arrivals) = some (.address .call target) := by
  have ends := Session.tick_cases (s := { machine := m, arrivals }) wellFormed random
  change (m.perform (.tick random arrivals)).1 = _ ∨
    (∃ fault, (m.perform (.tick random arrivals)).1 = _) ∨
    (m.perform (.tick random arrivals)).1 = _ ∧ _ at ends
  -- A call with a free slot does not fail, and only a wait for a key is blocked.
  rcases ends with done | ⟨fault, failed⟩ | ⟨blocked, x, waits⟩
  · rw [executed?_tick running, if_pos done, decoded]
  · have full := ((call_fails_iff wellFormed running decoded random arrivals _).mp failed).2
    omega
  · cases decoded.symm.trans waits

/-- After a call, the stack stays deeper than before, with the address of the call on
top of the old addresses, until a return takes it back; that return goes on behind
the call. The depth counts the outstanding calls, so a call fails exactly if sixteen
are outstanding, and a return exactly if none is. Any requests may come in between,
except for a reset; a run counts as its ticks, one by one. -/
theorem calls_and_returns {m : Machine} (reachable : m.Reachable) :
    (∀ random arrivals target, m.executed? (.tick random arrivals) = some (.address .call target) →
      m.registers.sp.toNat < 16 ∧
      ∀ requests : List Request, (∀ request ∈ requests, request.stepwise = true) →
        let called := (m.perform (.tick random arrivals)).2
        (∀ seen, seen <+: requests →
          (called.performAll seen).registers.sp.toNat ≠ m.registers.sp.toNat) →
        let n := called.performAll requests
        m.registers.sp.toNat < n.registers.sp.toNat ∧
        m.registers.live ++ [m.registers.pc] <+: n.registers.live ∧
        ∀ request : Request, request.stepwise = true →
          let back := (n.perform request).2
          back.registers.sp.toNat = m.registers.sp.toNat →
            n.executed? request = some (.plain .ret) ∧
            back.registers.pc.toNat = (m.registers.pc.toNat + 2) % 4096 ∧
            back.registers.live = m.registers.live) ∧
    ∀ requests : List Request, (∀ request ∈ requests, request.stepwise = true) →
      let n := m.performAll requests
      let calls := (m.operations requests).count (.address .call)
      let returns := (m.operations requests).count (.plain .ret)
      n.registers.sp.toNat + returns = m.registers.sp.toNat + calls ∧
      (n.status = .running → ∀ random arrivals abort,
        (∀ target, n.upcoming? = some (.address .call target) →
          ((n.perform (.tick random arrivals)).1 = .failed abort ↔
            abort = .fault (.stackOverflow n.registers.pc) ∧
            m.registers.sp.toNat + calls = returns + 16)) ∧
        (n.upcoming? = some (.plain .ret) →
          ((n.perform (.tick random arrivals)).1 = .failed abort ↔
            abort = .fault (.stackUnderflow n.registers.pc) ∧
            m.registers.sp.toNat + calls = returns))) := by
  have wellFormed := reachable.wellFormed
  constructor
  · intro random arrivals target executed
    have after := (safe_perform wellFormed (.tick random arrivals)).wellFormed
    have start := nested_of_call wellFormed executed
    -- The depth is told by the stack pointer here, and by the list of addresses above.
    constructor
    · have deeper := start.deeper
      rw [wellFormed.depth, after.depth] at deeper
      exact Nat.lt_of_lt_of_le deeper after.registers.sp
    · intro requests stepwise called away n
      have whole : n.WellFormed := wellFormed_performAll after requests
      have nested : Nested m n := by
        apply nested_performAll after start stepwise
        intro seen before
        rw [(wellFormed_performAll after seen).depth, wellFormed.depth]
        exact away seen before
      have deeper := nested.deeper
      rw [wellFormed.depth, whole.depth] at deeper
      refine ⟨deeper, nested, ?_⟩
      intro request single back same
      exact returned_of_nested wellFormed whole nested single same
  · intro requests stepwise n calls returns
    have whole : n.WellFormed := wellFormed_performAll wellFormed requests
    have depth : n.registers.sp.toNat + returns = m.registers.sp.toNat + calls := by
      rw [← whole.depth, ← wellFormed.depth]
      exact depth_performAll wellFormed stepwise
    refine ⟨depth, ?_⟩
    intro running random arrivals abort
    -- What the faults say about the depth, the count says about outstanding calls.
    constructor
    · intro target decoded
      have sixteen : n.registers.sp.toNat = 16 ↔ m.registers.sp.toNat + calls = returns + 16 := by
        omega
      rw [call_fails_iff whole running decoded, sixteen]
    · intro decoded
      have zero : n.registers.sp.toNat = 0 ↔ m.registers.sp.toNat + calls = returns := by
        omega
      rw [return_fails_iff whole running decoded, zero]

/-! ### Following a program -/

/-- A running machine with these addresses on its stack. -/
structure Standing (m : Machine) (live : List Word) (pc : Word) : Prop where
  wellFormed : m.WellFormed
  running : m.status = .running
  live : m.registers.live = live
  pc : m.registers.pc = pc

namespace Standing

variable {m : Machine} {live : List Word} {pc : Word}

theorem depth (standing : m.Standing live pc) : m.registers.sp.toNat = live.length := by
  rw [← standing.wellFormed.depth, standing.live]

/-- The host puts a word in front of the machine. -/
theorem given (standing : m.Standing live pc) (address : Nat) (here : pc.toNat = address)
    (w : Word) :
    (m.perform (.memory (.word address w))).2.Standing live pc ∧
      (m.perform (.memory (.word address w))).2.upcoming? = Instruction.decode w := by
  obtain ⟨memory, placed, word⟩ :=
    perform_word standing.wellFormed ((congrArg UInt16.toNat standing.pc).trans here) w
  have kept := (safe_perform standing.wellFormed (.memory (.word address w))).wellFormed
  rw [placed] at kept ⊢
  exact ⟨⟨kept, standing.running, standing.live, standing.pc⟩, congrArg Instruction.decode word⟩

theorem moved (standing : m.Standing live pc) {i : Instruction}
    (executed : m.executed? (.tick 0 []) = some i) :
    (m.perform (.tick 0 [])).2.WellFormed ∧ Moved m (m.perform (.tick 0 [])).2 (some i) := by
  rw [← executed]
  exact ⟨(safe_perform standing.wellFormed (.tick 0 [])).wellFormed,
    moved_tick standing.wellFormed 0 []⟩

theorem call (standing : m.Standing live pc) {target : Word}
    (decoded : m.upcoming? = some (.address .call target)) (free : live.length < 16) :
    m.executed? (.tick 0 []) = some (.address .call target) ∧
      (m.perform (.tick 0 [])).2.Standing (live ++ [pc])
        (wrapAddress (wrapAddress (target - 2) + 2)) := by
  have slot : m.registers.sp.toNat < stackDepth := by rwa [standing.depth]
  have pushed := Registers.push_of_free slot m.registers.pc
  have ticked := tick_of_done standing.running standing.wellFormed.memory.room decoded
    (execute_call (m := m.counted) pushed 0 target) []
  have executed := executed?_of_call standing.wellFormed standing.running decoded slot 0 []
  obtain ⟨after, moved⟩ := standing.moved executed
  refine ⟨executed, ?_⟩
  cases moved with
  | called pushed =>
    rw [standing.live, standing.pc] at pushed
    rw [ticked] at after pushed ⊢
    exact ⟨after, standing.running, pushed, rfl⟩
  | other call ret same => exact absurd rfl call

theorem ret {address : Word} (standing : m.Standing (live ++ [address]) pc)
    (decoded : m.upcoming? = some (.plain .ret)) :
    m.executed? (.tick 0 []) = some (.plain .ret) ∧
      (m.perform (.tick 0 [])).2.Standing live (wrapAddress (address + 2)) := by
  have occupied : m.registers.sp ≠ 0 := by
    intro empty
    have depth := standing.depth
    rw [empty, List.length_append] at depth
    cases depth
  obtain ⟨slot, _, popped⟩ := Registers.pop_of_occupied standing.wellFormed.registers occupied
  have ticked := tick_of_done standing.running standing.wellFormed.memory.room decoded
    (execute_ret (m := m.counted) popped 0) []
  have executed : m.executed? (.tick 0 []) = some (.plain .ret) := by
    rw [executed?_tick standing.running, if_pos (congrArg Prod.fst ticked), decoded]
  obtain ⟨after, moved⟩ := standing.moved executed
  refine ⟨executed, ?_⟩
  cases moved with
  | returned popped pc =>
    rw [standing.live] at popped
    obtain ⟨below, top⟩ := List.append_inj' popped rfl
    rw [← List.singleton_inj.mp top] at pc
    rw [ticked] at after below pc ⊢
    exact ⟨after, standing.running, below.symm, pc⟩
  | other call ret same => exact absurd rfl ret

end Standing

/-- A depth that is not there now and not after the first request is not there all along. -/
theorem away_cons {m : Machine} {live : List Word} {pc : Word} {depth : Nat} {request : Request}
    {rest : List Request} (standing : m.Standing live pc) (apart : live.length ≠ depth)
    (later : ∀ seen, seen <+: rest →
      ((m.perform request).2.performAll seen).registers.sp.toNat ≠ depth) :
    ∀ seen, seen <+: request :: rest → (m.performAll seen).registers.sp.toNat ≠ depth := by
  rintro (_ | ⟨first, seen⟩) before
  · rw [← standing.depth] at apart
    exact apart
  · obtain ⟨rfl, rest⟩ := List.cons_prefix_cons.mp before
    exact later seen rest

/-- A subroutine that calls another one, and both come back. The words of the subroutines are
put into memory when they are needed. -/
theorem nested_call_comes_back :
    let m := fresh 0x2300
    let inner : List Request :=
      [.memory (.word 0x300 0x2400), .tick 0 [], .memory (.word 0x400 0x00ee), .tick 0 [],
        .memory (.word 0x302 0x00ee)]
    let called := (m.perform (.tick 0 [])).2
    let n := called.performAll inner
    m.Reachable ∧ m.executed? (.tick 0 []) = some (.address .call 0x300) ∧
      [0x200] <+: n.registers.live ∧ n.executed? (.tick 0 []) = some (.plain .ret) ∧
      (n.perform (.tick 0 [])).2.registers.pc.toNat = 0x202 ∧
      (n.perform (.tick 0 [])).2.registers.live = [] := by
  intro m inner called n
  have reachable : m.Reachable := reachable_fresh _
  have start : m.Standing [] 0x200 := by
    refine ⟨reachable.wellFormed, status_fresh _, ?_, ?_⟩
    · rw [registers_fresh]
      decide
    · rw [registers_fresh]
      rfl
  have decoded : m.upcoming? = some (.address .call 0x300) := by
    rw [upcoming?, word_fresh]
    rfl
  obtain ⟨executed, outside⟩ := start.call decoded (by decide)
  obtain ⟨ready, calls⟩ := outside.given 0x300 rfl 0x2400
  obtain ⟨-, inside⟩ := ready.call calls (by decide)
  obtain ⟨full, returns⟩ := inside.given 0x400 rfl 0x00ee
  obtain ⟨-, back⟩ := full.ret returns
  obtain ⟨last, again⟩ := back.given 0x302 rfl 0x00ee
  -- One address or two are on the stack until the last return.
  have away : ∀ seen, seen <+: inner →
      (called.performAll seen).registers.sp.toNat ≠ m.registers.sp.toNat := by
    rw [start.depth]
    refine away_cons outside (by decide) (away_cons ready (by decide) ?_)
    refine away_cons inside (by decide) (away_cons full (by decide) ?_)
    refine away_cons back (by decide) fun seen before => ?_
    rw [List.prefix_nil.mp before, performAll, List.foldl_nil, last.depth]
    decide
  have stepwise : ∀ request ∈ inner, request.stepwise = true := by simp [inner, Request.stepwise]
  obtain ⟨-, pushed, first⟩ :=
    ((calls_and_returns reachable).1 0 [] 0x300 executed).2 inner stepwise away
  have comesBack : ∀ request : Request, request.stepwise = true →
      (n.perform request).2.registers.sp.toNat = m.registers.sp.toNat →
        n.executed? request = some (.plain .ret) ∧
        (n.perform request).2.registers.pc.toNat = (m.registers.pc.toNat + 2) % 4096 ∧
        (n.perform request).2.registers.live = m.registers.live := first
  have whole : n.Standing _ _ := last
  obtain ⟨-, done⟩ := whole.ret again
  have bottom : (n.perform (.tick 0 [])).2.registers.sp.toNat = m.registers.sp.toNat := by
    rw [done.depth, start.depth]
  obtain ⟨ret, pc, live⟩ := comesBack (.tick 0 []) rfl bottom
  rw [start.live, start.pc] at pushed
  rw [start.pc] at pc
  rw [start.live] at live
  exact ⟨reachable, executed, pushed, ret, pc, live⟩

end Chip8.Machine
