import Chip8.Proofs.Machine.Requests

/-!
# Faults

A tick fails for one of four reasons, each of them seen before anything has been
written: the word is no instruction, the stack refuses the address, or the wait for
a key is cut short. So a fault leaves the machine halted and one cycle later, and
otherwise as it was. Others may have acted on it while it waited; what they did
stays done. A halted machine does not tick until it is reset.
-/
namespace Chip8.Machine

/-- The faults of a tick, each with its reason and the events that the tick meets. -/
inductive Faulty (m : Machine) (arrivals : List (List Event)) : Fault → List (List Event) → Prop
  | unknown (undecodable : m.upcoming? = none) :
      Faulty m arrivals
        (.unknownInstruction m.word m.registers.pc ((m.registers.pc.toNat : Int) - 512)) []
  | underflow (decoded : m.upcoming? = some (.plain .ret)) (empty : m.registers.sp = 0) :
      Faulty m arrivals (.stackUnderflow m.registers.pc) []
  | overflow {target : Word} (decoded : m.upcoming? = some (.address .call target))
      (full : m.registers.sp = 16) : Faulty m arrivals (.stackOverflow m.registers.pc) []
  | interrupted {x : UInt64} {met rest : List (List Event)}
      (decoded : m.upcoming? = some (.register .waitKey x)) (split : arrivals = met ++ rest)
      (awaits : m.armed.Awaits met .interrupted) : Faulty m arrivals .interrupted met

/-- A machine that a fault has halted after it has met these events. -/
structure Frozen (m : Machine) (met : List (List Event)) (fault : Fault) (n : Machine) : Prop where
  settings : n.settings = m.settings
  memory : n.memory = m.memory
  screen : n.screen = m.screen
  registers : n.registers = m.registers
  status : n.status = .halted
  cycle : n.cycle = m.cycle + 1
  outside : SameOutside (m.after met.flatten) n
  latch : fault ≠ .interrupted → n.keypad.latch = m.keypad.latch
  interrupted : fault = .interrupted →
    n.keypad.latch = (m.armed.after met.flatten).keypad.latch ∧
      n.keypad.latch.interrupted = true

theorem frozen_halt (m : Machine) {fault : Fault} (uncut : fault ≠ .interrupted) :
    Frozen m [] fault m.counted.halt :=
  ⟨rfl, rfl, rfl, rfl, rfl, rfl, ⟨rfl, rfl, rfl, rfl⟩, fun _ => rfl, fun same => absurd same uncut⟩

theorem frozen_interrupted {m : Machine} {met : List (List Event)}
    (awaits : m.armed.Awaits met .interrupted) :
    Frozen m met .interrupted (m.armed.after met.flatten).halt := by
  have inside := sameInside_after m.armed met.flatten
  have armed : SameOutside m m.armed := ⟨rfl, rfl, rfl, rfl⟩
  have outside := armed.after met.flatten
  have found := (Keypad.look_eq_interrupted_iff _).mp awaits.found
  constructor
  · exact inside.settings
  · exact inside.memory
  · exact inside.screen
  · exact inside.registers
  · rfl
  · exact inside.cycle
  · exact ⟨outside.delay, outside.sound, outside.held, outside.stopRequested⟩
  · exact fun uncut => absurd rfl uncut
  · exact fun _ => ⟨rfl, found⟩

/-! ### Exactly these faults -/

/-- The wait for a key has one end only. -/
theorem Awaits.unique {m : Machine} {met seen arrivals : List (List Event)} {found other : Wakeup}
    (awaits : m.Awaits met found) (awake : found ≠ .parked) (before : met <+: arrivals)
    (waits : m.Awaits seen other) (within : seen <+: arrivals)
    (last : other = .parked → seen = arrivals) : seen = met ∧ other = found := by
  by_cases same : seen = met
  · rw [same] at waits
    exact ⟨same, waits.found.symm.trans awaits.found⟩
  · exfalso
    -- Of two different ends the earlier one would have found the keypad parked.
    rcases List.prefix_or_prefix_of_prefix within before with shorter | longer
    · have parked := awaits.parked seen shorter same
      rw [last (waits.found.symm.trans parked)] at shorter same
      exact same (shorter.eq_of_length_le before.length_le)
    · have parked := waits.parked met longer (Ne.symm same)
      exact awake (awaits.found.symm.trans parked)

theorem Faulty.unique {m : Machine} {arrivals met seen : List (List Event)} {fault other : Fault}
    (faulty : m.Faulty arrivals fault met) (again : m.Faulty arrivals other seen) :
    other = fault ∧ seen = met := by
  -- Different instructions have different reasons, so only two waits have to be compared.
  cases faulty with
  | unknown undecodable => cases again <;> simp_all
  | underflow decoded empty => cases again <;> simp_all
  | overflow decoded full => cases again <;> simp_all
  | interrupted decoded split awaits =>
    cases again with
    | interrupted again within waits =>
      have one := awaits.unique (by simp) ⟨_, split.symm⟩ waits ⟨_, within.symm⟩ (by simp)
      exact ⟨rfl, one.1⟩
    | _ => simp_all

/-- An instruction that ends is none of those that fail. -/
theorem not_faulty_of_executed {m : Machine} (wellFormed : m.WellFormed)
    {arrivals : List (List Event)} {random : UInt8} {i : Instruction} {n : Machine}
    (decoded : m.upcoming? = some i) (done : m.counted.execute random i = (.ok .done, n))
    (fault : Fault) (met : List (List Event)) :
    ¬ m.Faulty arrivals fault met := by
  intro faulty
  have executed := wellFormed.executed decoded done
  -- Each reason to fail fixes the instruction, and it is another one or lacks its guard.
  cases faulty with
  | unknown undecodable =>
    rw [undecodable] at decoded
    cases decoded
  | underflow ret empty =>
    cases ret.symm.trans decoded
    cases executed with
    | returned occupied popped => exact occupied empty
    | ordinary kind kept => cases kind
  | overflow call full =>
    cases call.symm.trans decoded
    cases executed with
    | called free pushed =>
      change m.registers.sp.toNat < stackDepth at free
      rw [full] at free
      exact absurd free (by decide)
    | ordinary kind kept => cases kind
  | interrupted wait split awaits =>
    cases wait.symm.trans decoded
    cases executed with
    | ordinary kind kept => cases kind

/-- An instruction that fails is a return from an empty stack or a call onto a full one. -/
theorem faulty_of_refused {m : Machine} (wellFormed : m.WellFormed) {arrivals : List (List Event)}
    {random : UInt8} {i : Instruction} {fault : Fault} (decoded : m.upcoming? = some i)
    (failed : m.counted.execute random i = (.error (.fault fault), m.counted)) :
    m.Faulty arrivals fault [] ∧ fault ≠ .interrupted := by
  cases wellFormed.executed decoded failed with
  | underflow empty => exact ⟨.underflow decoded empty, by simp⟩
  | overflow full => exact ⟨.overflow decoded (UInt64.toNat_inj.mp full), by simp⟩

/-- A tick either has a reason to fail, does fail and freezes the machine, or has none
and does not fail. -/
theorem Ticked.fault_cases {m n : Machine} {random : UInt8} {arrivals : List (List Event)}
    {outcome : Outcome} (wellFormed : m.WellFormed) (ticked : Ticked m random arrivals outcome n) :
    (∃ fault met, outcome = .failed (.fault fault) ∧ m.Faulty arrivals fault met ∧
      Frozen m met fault n) ∨
    ((∀ abort, outcome ≠ .failed abort) ∧ ∀ fault met, ¬ m.Faulty arrivals fault met) := by
  cases ticked with
  | unknown undecodable =>
    exact Or.inl ⟨_, _, rfl, .unknown undecodable, frozen_halt m (by simp)⟩
  | refused decoded failed =>
    obtain ⟨faulty, uncut⟩ := faulty_of_refused wellFormed decoded failed
    exact Or.inl ⟨_, _, rfl, faulty, frozen_halt m uncut⟩
  | interrupted decoded split awaits =>
    exact Or.inl ⟨_, _, rfl, .interrupted decoded split awaits, frozen_interrupted awaits⟩
  | executed decoded done =>
    exact Or.inr ⟨by simp, not_faulty_of_executed wellFormed decoded done⟩
  -- A wait that ends with a key, or not at all, does not end with an interruption too.
  | pressed narrow decoded split awaits =>
    refine Or.inr ⟨by simp, fun fault met faulty => ?_⟩
    cases faulty with
    | interrupted again within waits =>
      have one := awaits.unique (by simp) ⟨_, split.symm⟩ waits ⟨_, within.symm⟩ (by simp)
      cases one.2
    | _ => simp_all
  | blocked decoded awaits =>
    refine Or.inr ⟨by simp, fun fault met faulty => ?_⟩
    cases faulty with
    | interrupted again within waits =>
      have one := waits.unique (by simp) ⟨_, within.symm⟩ awaits (List.prefix_refl _) (fun _ => rfl)
      cases one.2
    | _ => simp_all

/-- A tick fails exactly if it has a reason to, and with the fault that belongs to it. -/
theorem tick_fails_iff {m : Machine} (wellFormed : m.WellFormed) (running : m.status = .running)
    (random : UInt8) (arrivals : List (List Event)) (abort : Abort) :
    (m.perform (.tick random arrivals)).1 = .failed abort ↔
      ∃ fault met, abort = .fault fault ∧ m.Faulty arrivals fault met := by
  have ticked := ticked_perform wellFormed running random arrivals
  rcases ticked.fault_cases wellFormed with
    ⟨fault, met, failed, faulty, frozen⟩ | ⟨sound, faultless⟩
  · rw [failed]
    constructor
    · intro same
      cases same
      exact ⟨fault, met, rfl, faulty⟩
    · -- There is only one reason at a time, so it is this one.
      rintro ⟨other, seen, rfl, again⟩
      rw [(faulty.unique again).1]
  · constructor
    · intro failed
      exact absurd failed (sound abort)
    · rintro ⟨fault, met, rfl, faulty⟩
      exact absurd faulty (faultless fault met)

/-- A reason for a fault makes the tick fail with this fault. -/
theorem Ticked.of_faulty {m n : Machine} (wellFormed : m.WellFormed) {random : UInt8}
    {arrivals met : List (List Event)} {outcome : Outcome} {fault : Fault}
    (ticked : Ticked m random arrivals outcome n) (faulty : m.Faulty arrivals fault met) :
    outcome = .failed (.fault fault) ∧ Frozen m met fault n := by
  rcases ticked.fault_cases wellFormed with
    ⟨other, seen, failed, again, frozen⟩ | ⟨sound, faultless⟩
  · obtain ⟨rfl, rfl⟩ := faulty.unique again
    exact ⟨failed, frozen⟩
  · exact absurd faulty (faultless fault met)

theorem frozen_tick {m : Machine} (wellFormed : m.WellFormed) (running : m.status = .running)
    (random : UInt8) {arrivals met : List (List Event)} {fault : Fault}
    (faulty : m.Faulty arrivals fault met) :
    Frozen m met fault (m.perform (.tick random arrivals)).2 :=
  ((ticked_perform wellFormed running random arrivals).of_faulty wellFormed faulty).2

theorem call_fails_iff {m : Machine} (wellFormed : m.WellFormed) (running : m.status = .running)
    {target : Word} (decoded : m.upcoming? = some (.address .call target)) (random : UInt8)
    (arrivals : List (List Event)) (abort : Abort) :
    (m.perform (.tick random arrivals)).1 = .failed abort ↔
      abort = .fault (.stackOverflow m.registers.pc) ∧ m.registers.sp.toNat = 16 := by
  rw [tick_fails_iff wellFormed running]
  constructor
  · rintro ⟨fault, met, rfl, faulty⟩
    cases faulty with
    | overflow again full => exact ⟨rfl, congrArg UInt64.toNat full⟩
    | _ => simp_all
  · rintro ⟨same, full⟩
    exact ⟨_, _, same, .overflow decoded (UInt64.toNat_inj.mp full)⟩

theorem return_fails_iff {m : Machine} (wellFormed : m.WellFormed) (running : m.status = .running)
    (decoded : m.upcoming? = some (.plain .ret)) (random : UInt8) (arrivals : List (List Event))
    (abort : Abort) :
    (m.perform (.tick random arrivals)).1 = .failed abort ↔
      abort = .fault (.stackUnderflow m.registers.pc) ∧ m.registers.sp.toNat = 0 := by
  rw [tick_fails_iff wellFormed running]
  constructor
  · rintro ⟨fault, met, rfl, faulty⟩
    cases faulty with
    | underflow again empty => exact ⟨rfl, congrArg UInt64.toNat empty⟩
    | _ => simp_all
  · rintro ⟨same, empty⟩
    exact ⟨_, _, same, .underflow decoded (UInt64.toNat_inj.mp empty)⟩

/-- A tick of a running machine fails for the four reasons and for no other, with the
fault that belongs to the reason. It leaves everything as it was, but for the status,
the cycle, the latch of a wait and what others did during the wait. From then on ticks
and runs end well and do nothing, whatever is requested between them, until a reset. -/
theorem faults_exact {m : Machine} (reachable : m.Reachable) (running : m.status = .running)
    (random : UInt8) (arrivals : List (List Event)) :
    (∀ abort, (m.perform (.tick random arrivals)).1 = .failed abort ↔
      ∃ fault met, abort = .fault fault ∧ m.Faulty arrivals fault met) ∧
    ∀ fault met, m.Faulty arrivals fault met →
      let n := (m.perform (.tick random arrivals)).2
      Frozen m met fault n ∧
      ∀ requests, .reset ∉ requests →
        let later := n.performAll requests
        later.status = .halted ∧
        (∀ random arrivals, later.perform (.tick random arrivals) = (.done, later)) ∧
        ∀ world count arrivals,
          later.perform (.run world (count + 1) arrivals) = (.done, later) := by
  have wellFormed := reachable.wellFormed
  refine ⟨tick_fails_iff wellFormed running random arrivals, ?_⟩
  intro fault met faulty n
  have frozen : Frozen m met fault n := frozen_tick wellFormed running random faulty
  refine ⟨frozen, ?_⟩
  intro requests kept later
  have halted : later.status = .halted := halted_performAll frozen.status kept
  exact ⟨halted, tick_of_halted halted, run_of_halted halted⟩

/-- A key is pressed and the wait is interrupted before the one who waits looks again. The fault
leaves both in the latch. -/
theorem interruption_before_the_next_look :
    let m := fresh 0xf00a
    let arrivals : List (List Event) := [[.keypad (.press 5), .keypad .interrupt]]
    m.Reachable ∧ m.status = .running ∧
      (m.perform (.tick 0 arrivals)).1 = .failed (.fault .interrupted) ∧
      (m.perform (.tick 0 arrivals)).2.keypad.latch = ⟨5, true, true⟩ ∧
      (m.perform (.tick 0 arrivals)).2.registers = m.registers := by
  intro m arrivals
  have reachable : m.Reachable := reachable_fresh _
  have running : m.status = .running := status_fresh _
  have decoded : m.upcoming? = some (.register .waitKey 0) := by
    rw [upcoming?, word_fresh]
    rfl
  have armed : m.armed.keypad = Keypad.initial.arm := congrArg Keypad.arm (keypad_fresh _)
  have met : (m.armed.after arrivals.flatten).keypad =
      ((m.armed.keypad.apply (.press 5)).2.apply .interrupt).2 := rfl
  rw [armed] at met
  have awaits : m.armed.Awaits arrivals .interrupted := by
    refine ⟨fun seen before proper => ?_, by rw [met]; rfl⟩
    -- There is no look between the press and the interruption, but for the first of all.
    cases seen with
    | nil => exact (congrArg Keypad.look armed).trans rfl
    | cons group rest => exact absurd (before.eq_of_length_le (Nat.succ_pos rest.length)) proper
  have faulty : m.Faulty arrivals .interrupted arrivals :=
    .interrupted decoded (List.append_nil _).symm awaits
  obtain ⟨exact, freezes⟩ := faults_exact reachable running 0 arrivals
  obtain ⟨frozen, -⟩ := freezes _ _ faulty
  exact ⟨reachable, running, (exact _).mpr ⟨_, _, rfl, faulty⟩,
    (frozen.interrupted rfl).1.trans (congrArg Keypad.latch met), frozen.registers⟩

end Chip8.Machine
