import Chip8.Proofs.Machine.Companions
import Chip8.Proofs.Memory.Windows
import Chip8.Proofs.Machine.Requests

/-!
# Aliases in the index register

The index register has sixteen bits and memory has addresses of twelve, so sixteen values
of it stand for the same place. Sprites, digits and registers are read and written from
that place on, and each of their bytes wraps on its own, so it does not matter where a
window crosses the end of memory or that of the index register. Only the flag of an
addition tells the values apart, by the carry out of sixteen bits. Machines whose index
registers are aliases of each other therefore give the same replies and keep to aliases,
as long as they carry alike.
-/
namespace Chip8

namespace Registers

/-- Registers that differ in no more than which of its addresses the index register uses
for a place in memory. -/
inductive SamePlace (r : Registers) : Registers → Prop
  | intro {i : Word} (place : i.toNat % memorySize = r.i.toNat % memorySize) :
      SamePlace r { r with i }

theorem SamePlace.push {r s : Registers} (same : SamePlace r s) (address : Word) :
    Attempt.Related SamePlace (r.push address) (s.push address) := by
  obtain ⟨place⟩ := same
  by_cases free : r.sp.toNat < 16
  · simp only [Registers.push, free, dite_true]
    exact ⟨rfl, .intro place⟩
  · simp only [Registers.push, free, dite_false]
    exact ⟨rfl, .intro place⟩

theorem SamePlace.pop {r s : Registers} (same : SamePlace r s) :
    Attempt.Related SamePlace r.pop s.pop := by
  obtain @⟨i, place⟩ := same
  by_cases empty : r.sp = 0
  · rw [pop_of_empty empty, pop_of_empty (r := { r with i }) empty]
    exact ⟨rfl, .intro place⟩
  · simp only [Registers.pop, empty, if_false]
    cases r.stack[(r.sp - 1).toNat]? with
    | none => exact ⟨rfl, .intro place⟩
    | some address => exact ⟨rfl, .intro place⟩

theorem congruence_samePlace : Congruence SamePlace where
  v := by
    rintro r _ ⟨place⟩
    rfl
  pc := by
    rintro r _ ⟨place⟩
    rfl
  place := by
    rintro r _ ⟨place⟩
    exact place
  withV := by
    rintro r _ ⟨place⟩ v
    exact .intro place
  withPc := by
    rintro r _ ⟨place⟩ pc
    exact .intro place
  withIndex := by
    rintro r _ ⟨place⟩ i
    exact .intro rfl
  push same address := same.push address
  pop same := same.pop

/-- Whether vX carries out of the index register if it is added there. -/
def Carries (r : Registers) (x : Fin 16) : Prop := 65536 ≤ r.i.toNat + (r.v.read x).toNat

/-- A sum wraps at a multiple of the size of memory, so it keeps to the place. -/
theorem place_add {i j : Word} (place : j.toNat % memorySize = i.toNat % memorySize)
    (amount : Word) : (j + amount).toNat % memorySize = (i + amount).toNat % memorySize := by
  simp only [UInt16.toNat_add, memorySize] at place ⊢
  omega

theorem SamePlace.addIndex {r s : Registers} (same : SamePlace r s) {x : Fin 16}
    (alike : r.Carries x ↔ s.Carries x) : SamePlace (r.addIndex x) (s.addIndex x) := by
  obtain @⟨i, place⟩ := same
  unfold Carries at alike
  simp only [Registers.addIndex, ← alike]
  exact .intro (place_add place _)

end Registers

namespace Machine

/-- Whether the next instruction carries out of the index register. -/
def Carries (m : Machine) : Prop :=
  m.status = .running ∧ ∃ x j, m.upcoming? = some (.register .addIndex x) ∧
    Registers.index x = .ok j ∧ m.registers.Carries j

variable {m n : Machine}

theorem carries_iff (running : m.status = .running) {x : UInt64} {j : Fin 16}
    (upcoming : m.upcoming? = some (.register .addIndex x)) (named : Registers.index x = .ok j) :
    m.Carries ↔ m.registers.Carries j := by
  constructor
  · rintro ⟨-, y, k, again, other, carries⟩
    cases upcoming.symm.trans again
    cases named.symm.trans other
    exact carries
  · intro carries
    exact ⟨running, x, j, upcoming, named, carries⟩

theorem companions_aliased : Companions Registers.SamePlace (Beside Registers.SamePlace) :=
  companions_beside Registers.congruence_samePlace fun _ => .intro rfl

theorem sumsAlike_of_carries (same : Beside Registers.SamePlace m n)
    (alike : m.Carries ↔ n.Carries) : SumsAlike Registers.SamePlace m n := by
  intro running x j upcoming named
  have first := carries_iff running upcoming named
  have second := carries_iff ((companions_aliased.status same).trans running)
    ((companions_aliased.upcoming? same).trans upcoming) named
  exact (companions_aliased.registers same).addIndex (first.symm.trans (alike.trans second))

/-- A request that is not a run makes one sum at most. -/
theorem answered_aliased (same : Beside Registers.SamePlace m n) {request : Request}
    (single : ∀ world count arrivals, request ≠ .run world count arrivals)
    (alike : ∀ random arrivals, request = .tick random arrivals → (m.Carries ↔ n.Carries)) :
    Answered (Beside Registers.SamePlace) m n request :=
  companions_aliased.answered same request
    (fun random arrivals tick => sumsAlike_of_carries same (alike random arrivals tick))
    fun world count arrivals run => absurd run (single world count arrivals)

theorem performAll_aliased (same : Beside Registers.SamePlace m n) {requests : List Request}
    (single : ∀ world count arrivals, .run world count arrivals ∉ requests)
    (alike : ∀ seen random arrivals, seen ++ [.tick random arrivals] <+: requests →
      ((m.performAll seen).Carries ↔ (n.performAll seen).Carries)) :
    Beside Registers.SamePlace (m.performAll requests) (n.performAll requests) := by
  induction requests generalizing m n with
  | nil => exact same
  | cons request rest ih =>
    simp only [List.mem_cons, not_or] at single
    have answered : Answered (Beside Registers.SamePlace) m n request := by
      refine answered_aliased same (fun world count arrivals run => ?_) ?_
      · exact (single world count arrivals).1 run.symm
      · rintro random arrivals rfl
        exact alike [] random arrivals ⟨rest, rfl⟩
    refine ih answered.related (fun world count arrivals => (single world count arrivals).2) ?_
    intro seen random arrivals before
    exact alike (request :: seen) random arrivals ((List.prefix_cons_inj request).mpr before)

/-- Machines that differ in no more than the alias that the index register holds reply the
same to ticks and to whatever else is requested between them, and go on to differ in no
more than that, as long as no tick carries out of one index register and not out of the
other. -/
theorem aliases_are_not_told_apart (same : Beside Registers.SamePlace m n)
    {requests : List Request}
    (single : ∀ world count arrivals, .run world count arrivals ∉ requests)
    (alike : ∀ seen random arrivals, seen ++ [.tick random arrivals] <+: requests →
      ((m.performAll seen).Carries ↔ (n.performAll seen).Carries)) :
    Beside Registers.SamePlace (m.performAll requests) (n.performAll requests) ∧
      ∀ seen request, seen ++ [request] <+: requests →
        (n.performAll seen).reply request = (m.performAll seen).reply request := by
  refine ⟨performAll_aliased same single alike, ?_⟩
  intro seen request before
  have shorter : seen <+: requests := (List.prefix_append _ _).trans before
  have member : request ∈ requests := before.subset (by simp)
  have between := performAll_aliased same
    (fun world count arrivals run => single world count arrivals (shorter.subset run))
    fun earlier random arrivals tick => alike earlier random arrivals (tick.trans shorter)
  refine (answered_aliased between ?_ ?_).reply
  · rintro world count arrivals rfl
    exact single world count arrivals member
  · rintro random arrivals rfl
    exact alike seen random arrivals before

/-- The second of the two bytes to load comes from the first place in memory, whether the
window leaves it by the last address or the index register by its last value. -/
theorem last_byte_and_its_alias :
    let m := ((fresh 0xf165).perform (.setIndex 0x0fff)).2
    let n := ((fresh 0xf165).perform (.setIndex 0xffff)).2
    m.Reachable ∧ n.Reachable ∧ Beside Registers.SamePlace m n ∧
      m.upcoming? = some (.register .loadRegisters 1) ∧
      Memory.window m.registers.i.toNat 2 0 ∧ Memory.window n.registers.i.toNat 2 0 ∧
      n.reply (.tick 0 []) = m.reply (.tick 0 []) ∧
      Beside Registers.SamePlace (m.performAll [.tick 0 []]) (n.performAll [.tick 0 []]) := by
  intro m n
  have reachable (i : Word) : ((fresh 0xf165).perform (.setIndex i)).2.Reachable :=
    .perform _ (reachable_fresh _) nofun
  have loads : (fresh 0xf165).upcoming? = some (.register .loadRegisters 1) := by
    rw [upcoming?, word_fresh]
    rfl
  have level (i : Word) : ¬ ((fresh 0xf165).perform (.setIndex i)).2.Carries := by
    rintro ⟨-, x, j, adds, -⟩
    cases loads.symm.trans adds
  have same : Beside Registers.SamePlace m (m.withRegisters { m.registers with i := 0xffff }) :=
    .intro (.intro (by decide))
  have alike : ∀ seen random arrivals, seen ++ [.tick random arrivals] <+: [Request.tick 0 []] →
      ((m.performAll seen).Carries ↔ (n.performAll seen).Carries) := by
    intro seen random arrivals before
    obtain rfl : seen = [] := by
      have short := before.length_le
      simp only [List.length_append, List.length_singleton] at short
      exact List.eq_nil_of_length_eq_zero (by omega)
    exact iff_of_false (level _) (level _)
  obtain ⟨later, replies⟩ := aliases_are_not_told_apart same (by simp) alike
  have last : Memory.window (0x0fff : Word).toNat 2 0 := ⟨1, by decide, by decide⟩
  have wrapped : Memory.window (0xffff : Word).toNat 2 0 := ⟨1, by decide, by decide⟩
  exact ⟨reachable _, reachable _, same, loads, last, wrapped,
    replies [] _ (List.prefix_refl _), later⟩

end Machine

end Chip8
