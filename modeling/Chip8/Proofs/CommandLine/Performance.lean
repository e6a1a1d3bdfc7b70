import Mathlib.Tactic.Ring
import Chip8.CommandLine.Performance
import Chip8.Proofs.Machine.Invariant

/-!
# Ticks that are left out

A performance does not make the ticks of a machine that idles. It has found a round by sure
ticks, and a sure tick is what any tick would be: neither a random byte nor a key has a part
in it, and a machine that shows what it executes does not idle. So a machine that has been set
forward by whole rounds is the one that a run would have come to, and the time is that of the
run. It is not set forward past the next moment, so no clock falls due on the way.
-/
namespace Chip8

open Machine (sureTicks? sureTicks?_add)

namespace Session

variable {s : Session} {m : Machine} {count : Nat}

/-- A session that any run goes on with, and that prints nothing. -/
structure Quiet (s : Session) : Prop where
  wellFormed : s.machine.WellFormed
  running : s.machine.status = .running
  unstopped : s.machine.stopRequested = false
  silent : s.machine.settings.debug = false

theorem Quiet.shown (quiet : s.Quiet) : s.shown = s := by
  have nothing : s.machine.traceText = "" := by
    simp only [Machine.traceText, quiet.silent, Bool.false_eq_true, false_and, if_false]
  rw [Session.shown, nothing]
  rfl

theorem Quiet.tick (quiet : s.Quiet) (sure : s.machine.sureTick? = some m) (random : UInt8) :
    s.tick random = (.done, { s with machine := m }) ∧ Quiet { s with machine := m } := by
  have finished := Machine.beginTick_of_sureTick? quiet.running sure random
  have ticked : s.tick random = (.done, { s with machine := m }) := by
    rw [tick_of_finished finished, quiet.shown]
    rfl
  have kept := wellFormed_tick quiet.wellFormed random
  have begun := Machine.begun_beginTick quiet.wellFormed quiet.running random
  rw [ticked] at kept
  rw [finished] at begun
  refine ⟨ticked, ?_⟩
  cases begun with
  | executed decoded done =>
    have untouched := (quiet.wellFormed.executed decoded done).untouched
    exact ⟨kept, untouched.status.trans quiet.running,
      untouched.stopRequested.trans quiet.unstopped,
      (congrArg Settings.debug untouched.settings).trans quiet.silent⟩

/-- Sure ticks are those of a run, whatever bytes are drawn. -/
theorem Quiet.run (quiet : s.Quiet) (sure : sureTicks? count s.machine = some m)
    (random : Nat → UInt8) (first : Nat) :
    run { random } count first s = (.unfinished, { s with machine := m }) := by
  induction count generalizing s first with
  | zero =>
    cases sure
    rfl
  | succ count ih =>
    obtain ⟨n, once, others⟩ := Option.bind_eq_some_iff.mp sure
    obtain ⟨ticked, later⟩ := quiet.tick once (random first)
    have start : (s.before { random } first).machine.stopRequested = false := quiet.unstopped
    have round : s.round { random } first = (.done, { s with machine := n }) := ticked
    rw [run_of_done quiet.running start round, ih later others]

end Session

/-! ### Rounds -/

theorem Machine.exists_sureTicks?_of_le {m n : Machine} {count fewer : Nat}
    (sure : sureTicks? count m = some n) (le : fewer ≤ count) :
    ∃ between, sureTicks? fewer m = some between := by
  obtain ⟨rest, rfl⟩ := Nat.exists_eq_add_of_le le
  rw [sureTicks?_add] at sure
  obtain ⟨between, early, -⟩ := Option.bind_eq_some_iff.mp sure
  exact ⟨between, early⟩

namespace Performance

variable {t : Tempo} {p : Performance} {idle : Machine} {round : Round}

theorem quiet_of_idle? (wellFormed : p.session.machine.WellFormed)
    (unstopped : p.session.machine.stopRequested = false)
    (found : p.idle? t = some (idle, round)) :
    p.session.Quiet ∧ p.session.machine.idle? (t.sliceTicks / 4) = some (idle, round) := by
  simp only [idle?] at found
  split at found
  next => cases found
  next silent =>
    have running : p.session.machine.status = .running := by
      unfold Machine.idle? at found
      split at found
      next running => exact running
      next => cases found
    exact ⟨⟨wellFormed, running, unstopped, Bool.eq_false_iff.mpr silent⟩, found⟩

/-- The ticks that are left out take as long as so many rounds, if the counter does not wrap,
and else less. -/
theorem now_become_later_le (p : Performance) (t : Tempo) (idle : Machine) (round : Round)
    (rounds : Nat) :
    (p.become t (idle.later (round.times rounds))).now ≤
      (p.become t idle).now + rounds * (t.stride * round.ticks) := by
  have counted : (idle.cycle + UInt64.ofNat (rounds * round.ticks) -
      p.session.machine.cycle).toNat ≤
        (idle.cycle - p.session.machine.cycle).toNat + rounds * round.ticks := by
    rw [UInt64.toNat_sub, UInt64.toNat_sub, UInt64.toNat_add, UInt64.toNat_ofNat']
    have bound := p.session.machine.cycle.toNat_lt
    omega
  have time := Nat.mul_le_mul_right t.stride counted
  simp only [become, Machine.later, Round.times]
  calc p.now + (idle.cycle + UInt64.ofNat (rounds * round.ticks) -
          p.session.machine.cycle).toNat * t.stride
      ≤ p.now + ((idle.cycle - p.session.machine.cycle).toNat + rounds * round.ticks) *
          t.stride := Nat.add_le_add_left time _
    _ = p.now + (idle.cycle - p.session.machine.cycle).toNat * t.stride +
          rounds * (t.stride * round.ticks) := by ring

/-- No moment is missed if no more rounds are left out than fit in the time until then. -/
theorem now_become_later_le_of_fit {moment rounds : Nat}
    (fit : rounds = (moment - (p.become t idle).now) / (t.stride * round.ticks))
    (some : rounds ≠ 0) : (p.become t (idle.later (round.times rounds))).now ≤ moment := by
  have whole := Nat.div_mul_le_self (moment - (p.become t idle).now) (t.stride * round.ticks)
  rw [← fit] at whole
  have ahead : moment - (p.become t idle).now ≠ 0 := by
    intro none
    rw [none, Nat.zero_div] at fit
    exact some fit
  have later := now_become_later_le p t idle round rounds
  omega

/-- A slice of a machine that is at work is that work, or it sets an idle machine forward: to
where a run would have come, whatever bytes are drawn, and not past the next moment. If there
is no such moment, a run would never come to an end. -/
theorem slice_leaves_out_idle_ticks (wellFormed : p.session.machine.WellFormed)
    (unstopped : p.session.machine.stopRequested = false) (early : p.late t = false)
    (awake : p.waiting = false) (random : Nat → UInt8) :
    p.slice t random = p.work t random ∨
    (∃ moment m count, p.nextMoment t = some moment ∧
      p.slice t random = .goesOn (p.become t m) ∧ (p.become t m).now ≤ moment ∧
      ∀ (random : Nat → UInt8) (first : Nat),
        Session.run { random } count first p.session = (.unfinished, (p.become t m).session)) ∨
    p.slice t random = .stuck ∧ p.nextMoment t = none ∧
      ∀ (random : Nat → UInt8) (count first : Nat),
        (Session.run { random } count first p.session).1 = .unfinished := by
  simp only [slice, early, awake, Bool.false_eq_true, if_false]
  cases found : p.idle? t with
  | none => exact .inl rfl
  | some pair =>
    obtain ⟨idle, round⟩ := pair
    obtain ⟨quiet, idles⟩ := quiet_of_idle? wellFormed unstopped found
    obtain ⟨moves, lead, led, rounds⟩ := Machine.sureTicks?_of_idle? idles
    have leads (n : Nat) : sureTicks? (lead + n * round.ticks) p.session.machine =
        some (idle.later (round.times n)) := by
      rw [sureTicks?_add, led, Option.bind_some, rounds]
    cases upcoming : p.nextMoment t with
    | none =>
      dsimp only
      split
      next => exact .inl rfl
      next =>
        refine .inr (.inr ⟨rfl, rfl, fun random count first => ?_⟩)
        -- There are as many rounds as it takes, and each has a tick at least.
        have enough : count ≤ lead + count * round.ticks :=
          Nat.le_add_left_of_le (Nat.le_mul_of_pos_right count moves)
        obtain ⟨m, sure⟩ := Machine.exists_sureTicks?_of_le (leads count) enough
        rw [quiet.run sure]
    | some moment =>
      dsimp only
      split
      next => exact .inl rfl
      next =>
        split
        next => exact .inl rfl
        next some =>
          have fits := now_become_later_le_of_fit (p := p) (t := t) rfl some
          exact .inr (.inl ⟨moment, _, _, rfl, rfl, fits, quiet.run (leads _)⟩)

end Performance

end Chip8
