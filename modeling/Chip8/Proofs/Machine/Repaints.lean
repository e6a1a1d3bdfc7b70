import Chip8.Proofs.Machine.Footprints
import Chip8.Proofs.Machine.Operations

/-!
# The screen and its counter

Two operations change the screen, and a reset does. Each of them adds one to the counter
of the screen, also if it leaves all pixels as they were, and nothing else touches either
the pixels or the counter. So the counter tells how many repaints there have been. It
wraps, but whoever looks at it often enough can rely on it: as long as it is the same, the
pixels are the same.
-/
namespace Chip8

/-- Whether the operation changes the screen. -/
def Operation.repaints : Operation → Bool
  | .plain .clearScreen => true
  | .draw => true
  | _ => false

/-- An operation that does not repaint has nothing of the screen in its footprint. -/
theorem Instruction.screen_of_not_repaints {i : Instruction} (spares : i.operation.repaints = false)
    (r : Registers) :
    (∀ p, ¬ (i.footprint r).pixel p) ∧ ¬ (i.footprint r).generation := by
  cases i with
  | plain op =>
    cases op with
    | clearScreen => cases spares
    | ret => exact ⟨fun _ => not_false, not_false⟩
  | address op a => cases op <;> exact ⟨fun _ => not_false, not_false⟩
  | immediate op x b => cases op <;> exact ⟨fun _ => not_false, not_false⟩
  | compare op x y => exact ⟨fun _ => not_false, not_false⟩
  | arithmetic op x y => exact ⟨fun _ => not_false, not_false⟩
  | draw x y n => cases spares
  | register op x => cases op <;> exact ⟨fun _ => not_false, not_false⟩

namespace Screen

/-- The screen after so many repaints. -/
structure Repainted (count : Nat) (s t : Screen) : Prop where
  generation : t.generation = s.generation + UInt64.ofNat count
  pixels : count = 0 → t.pixels = s.pixels

variable {s t u : Screen} {first second : Nat}

theorem Repainted.refl (s : Screen) : Repainted 0 s s := ⟨(UInt64.add_zero _).symm, fun _ => rfl⟩

theorem repainted_bump (s : Screen) (pixels : Cells Bool 2048) :
    Repainted 1 s { s with pixels }.bump :=
  ⟨rfl, nofun⟩

/-- Clearing counts once, however many pixels it turns off. -/
theorem repainted_clear (s : Screen) : Repainted 1 s s.clear := by
  rw [clear_eq]
  exact s.repainted_bump _

/-- However high the sprite is, the counter is touched once, and at the end. -/
theorem repainted_draw (s : Screen) (x y : UInt8) (rows : List UInt8) :
    Repainted 1 s (s.draw x y rows).2 := by
  obtain ⟨hit, pixels, drawn, -⟩ := draw_congr (s := s) rfl x y rows
  rw [drawn]
  exact s.repainted_bump pixels

theorem Repainted.trans (earlier : Repainted first s t) (later : Repainted second t u) :
    Repainted (first + second) s u where
  generation := by rw [later.generation, earlier.generation, UInt64.ofNat_add, UInt64.add_assoc]
  pixels none := by
    obtain ⟨rfl, rfl⟩ := Nat.add_eq_zero_iff.mp none
    exact (later.pixels rfl).trans (earlier.pixels rfl)

/-- The same counter means the same pixels, unless it has been all around. -/
theorem Repainted.unchanged (repainted : Repainted first s t) (few : first < UInt64.size)
    (same : t.generation = s.generation) : t = s := by
  have none : first = 0 := by
    have counted := congrArg UInt64.toNat (same.symm.trans repainted.generation)
    have small := s.generation.toNat_lt
    rw [UInt64.toNat_add, UInt64.toNat_ofNat'] at counted
    unfold UInt64.size at few
    omega
  cases s
  cases t
  simp only [Screen.mk.injEq]
  exact ⟨repainted.pixels none, same⟩

end Screen

namespace Machine
open Screen (Repainted)

variable {m n : Machine}

/-! ### Instructions -/

theorem repainted_execute {i : Instruction} (wellFormed : m.WellFormed) {random : UInt8}
    (done : m.execute random i = (.ok .done, n)) :
    Repainted ([i.operation].countP Operation.repaints) m.screen n.screen := by
  cases spares : i.operation.repaints with
  | false =>
    have changes := changesOnly_execute wellFormed done
    obtain ⟨pixel, generation⟩ := Instruction.screen_of_not_repaints spares m.registers
    rw [List.countP_singleton, spares]
    refine ⟨(changes.generation generation).trans (UInt64.add_zero _).symm, fun _ => ?_⟩
    exact Cells.ext fun p => changes.pixel p (pixel p)
  | true =>
    rw [List.countP_singleton, spares]
    cases i with
    | plain op =>
      cases op with
      | clearScreen =>
        cases done
        exact m.screen.repainted_clear
      | ret => cases spares
    | draw x y count =>
      obtain ⟨column, row, sprite, flag, rfl⟩ := exists_of_execute_draw done
      exact m.screen.repainted_draw column row sprite
    | address op a => cases op <;> cases spares
    | immediate op x b => cases op <;> cases spares
    | compare op x y => cases op <;> cases spares
    | arithmetic op x y => cases op <;> cases spares
    | register op x => cases op <;> cases spares

/-! ### Requests -/

theorem repainted_of_eq {s t : Screen} (same : t = s) : Repainted 0 s t := same ▸ .refl s

theorem repainted_of_ticked {random : UInt8} {arrivals : List (List Event)} {outcome : Outcome}
    (wellFormed : m.WellFormed) (ticked : Ticked m random arrivals outcome n) :
    Repainted
      (List.countP Operation.repaints
        ((if outcome = .done then m.upcoming? else none).map Instruction.operation).toList)
      m.screen n.screen := by
  cases ticked with
  | unknown undecodable => exact .refl _
  | refused decoded failed => exact .refl _
  | executed decoded done =>
    rw [if_pos rfl, decoded]
    -- Counting the cycle and moving on do not touch the screen.
    have repainted := repainted_execute wellFormed.counted done
    exact repainted
  | @pressed x key met rest narrow decoded split awaits =>
    rw [if_pos rfl, decoded]
    exact repainted_of_eq (sameInside_after m.armed met.flatten).screen
  | @interrupted x met rest decoded split awaits =>
    exact repainted_of_eq (sameInside_after m.armed met.flatten).screen
  | blocked decoded awaits =>
    exact repainted_of_eq (sameInside_after m.armed arrivals.flatten).screen

theorem account_screen : Account fun executed m n =>
    Repainted (executed.countP Operation.repaints) m.screen n.screen where
  refl m := .refl m.screen
  trans first second := by
    rw [List.countP_append]
    exact first.trans second
  apply m event := repainted_of_eq (sameInside_apply m event).screen
  halt m := .refl m.screen
  ticked wellFormed ticked := repainted_of_ticked wellFormed ticked

def Request.resets : Request → Bool
  | .reset => true
  | _ => false

/-- How often requests repaint the screen: by operations that are executed to their end,
and by resets. -/
def repaints (m : Machine) (requests : List Request) : Nat :=
  (m.operationsOfAll requests).countP Operation.repaints + requests.countP Request.resets

theorem repaints_cons (m : Machine) (request : Request) (rest : List Request) :
    m.repaints (request :: rest) =
      m.repaints [request] + (m.perform request).2.repaints rest := by
  simp only [repaints, operationsOfAll, List.append_nil, List.countP_append, List.countP_cons,
    List.countP_nil]
  omega

theorem repainted_perform (wellFormed : m.WellFormed) (request : Request) :
    Repainted (m.repaints [request]) m.screen (m.perform request).2.screen := by
  simp only [repaints, operationsOfAll, List.append_nil]
  cases request with
  | tick random arrivals => exact account_screen.tick wellFormed random arrivals
  | run world count arrivals => exact account_screen.run wellFormed world count arrivals
  | reset =>
    rw [perform, reset_eq]
    exact m.screen.repainted_clear
  | _ => exact repainted_of_eq (passed_perform m rfl).screen

theorem repainted_performAll (wellFormed : m.WellFormed) (requests : List Request) :
    Repainted (m.repaints requests) m.screen (m.performAll requests).screen := by
  induction requests generalizing m with
  | nil => exact .refl m.screen
  | cons request rest ih =>
    rw [repaints_cons, performAll_cons]
    exact (repainted_perform wellFormed request).trans
      (ih (safe_perform wellFormed request).wellFormed)

/-- The counter of the screen tells how often the screen has been repainted since the
machine was made, modulo the size of the counter. Without a repaint the screen stays as it
is, and it is the same whenever the counter is the same, unless there have been as many
repaints in between as the counter has values. -/
theorem generation_counts_repaints (settings : Settings) (requests : List Request) :
    let m := (new settings).performAll requests
    m.screen.generation = UInt64.ofNat ((new settings).repaints requests) ∧
      ∀ later,
        let n := m.performAll later
        (m.repaints later = 0 → n.screen = m.screen) ∧
        (m.repaints later < UInt64.size → n.screen.generation = m.screen.generation →
          n.screen = m.screen) := by
  intro m
  have made := wellFormed_new settings
  have counted := (repainted_performAll made requests).generation
  refine ⟨counted.trans (UInt64.zero_add _), ?_⟩
  intro later n
  have repainted := repainted_performAll (wellFormed_performAll made requests) later
  constructor
  · intro none
    rw [none] at repainted
    exact repainted.unchanged (by decide) (repainted.generation.trans (UInt64.add_zero _))
  · exact repainted.unchanged

theorem sprite_without_rows_is_counted :
    let m := (new { }).performAll [.memory (.word 0x200 0xd000), .tick 0 []]
    m.screen.generation = 1 ∧ m.repaints [.setIndex 5] = 0 ∧
      (m.performAll [.setIndex 5]).screen = m.screen := by
  intro m
  have placed : ((new { }).perform (.memory (.word 0x200 0xd000))).2 = fresh 0xd000 := by
    unfold fresh
    rfl
  have decoded : (fresh 0xd000).upcoming? = some (.draw 0 0 0) := by
    rw [upcoming?, word_fresh]
    rfl
  have drawn :=
    executed?_of_ordinary (reachable_fresh _).wellFormed (status_fresh _) decoded rfl 0 []
  have once : (new { }).repaints [.memory (.word 0x200 0xd000), .tick 0 []] = 1 := by
    simp only [repaints, operationsOfAll, operationsOf, placed, drawn]
    rfl
  obtain ⟨counted, later⟩ :=
    generation_counts_repaints { } [.memory (.word 0x200 0xd000), .tick 0 []]
  have still : m.repaints [.setIndex 5] = 0 := rfl
  refine ⟨?_, still, (later [.setIndex 5]).1 still⟩
  rw [counted, once]
  rfl

end Machine

end Chip8
