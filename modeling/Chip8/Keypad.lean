import Chip8.Cells
import Chip8.Fault
import Chip8.Waiting

/-!
# Keypad

Sixteen keys that are held or not, and a latch with room for one key. A key that
goes down is offered to the latch, which keeps the first offer after it has been
cleared and drops the rest. Someone who waits for a key clears the latch, so only
a press made after that can end the wait. An interruption ends every wait until
the keypad is reset.

The operations on one cell come first: they are what happens without
interruption when several parties use the keypad at once. Presses, waits and
resets are made of them.
-/
namespace Chip8

/-- The number of keys. -/
def keyCount : Nat := 16

abbrev Key := Fin 16

structure Latch where
  key : UInt8 := 0
  ready : Bool := false
  interrupted : Bool := false
deriving DecidableEq, Repr

structure Keypad where
  held : Cells Bool 16 := .fill 16 false
  latch : Latch := { }
deriving DecidableEq, Repr

/-- What someone who waits for a key finds when looking at the latch. -/
inductive Wakeup
  | parked
  | pressed (key : UInt8)
  | interrupted
deriving DecidableEq, Repr

namespace Keypad

def initial : Keypad := { }

/-! ### Single cells -/

/-- Marks the key as held, and tells whether it was not. -/
def markHeld (k : Keypad) (key : Key) : Bool × Keypad :=
  (!k.held.read key, { k with held := k.held.write key true })

/-- Marks the key as not held, and tells whether it was. -/
def markFree (k : Keypad) (key : Key) : Bool × Keypad :=
  (k.held.read key, { k with held := k.held.write key false })

/-- Offers a key to the latch, which keeps it only if it is not ready. -/
def offer (k : Keypad) (key : Key) : Keypad :=
  { k with latch :=
      if k.latch.ready then k.latch
      else { k.latch with key := UInt8.ofNat key.val, ready := true } }

def interrupt (k : Keypad) : Keypad :=
  { k with latch := { k.latch with interrupted := true } }

/-- Makes the latch ready for a new press. -/
def arm (k : Keypad) : Keypad :=
  { k with latch := { k.latch with ready := false } }

/-- Looks at the latch on behalf of someone who waits. -/
def look (k : Keypad) : Wakeup :=
  if k.latch.interrupted then .interrupted
  else if k.latch.ready then .pressed k.latch.key
  else .parked

/-- Nothing is found only while there is neither a key nor an interruption. -/
theorem look_eq_parked_iff (k : Keypad) :
    k.look = .parked ↔ k.latch.ready = false ∧ k.latch.interrupted = false := by
  unfold look
  cases k.latch.interrupted <;> cases k.latch.ready <;> simp

theorem look_eq_pressed_iff (k : Keypad) (key : UInt8) :
    k.look = .pressed key ↔ k.latch = ⟨key, true, false⟩ := by
  obtain ⟨held, latched, ready, interrupted⟩ := k
  cases interrupted <;> cases ready <;> simp [look]

/-- An interruption is found before a key. -/
theorem look_eq_interrupted_iff (k : Keypad) :
    k.look = .interrupted ↔ k.latch.interrupted = true := by
  unfold look
  cases k.latch.interrupted <;> cases k.latch.ready <;> simp

def clearLatch (k : Keypad) : Keypad :=
  { k with latch := { } }

/-! ### Presses and releases -/

/-- Presses a key, and tells whether its state has changed. -/
def press (k : Keypad) (key : Nat) : Except Fault Bool × Keypad :=
  if known : key < 16 then
    -- A key that was already down is not offered again.
    let (changed, k) := k.markHeld ⟨key, known⟩
    (.ok changed, if changed then k.offer ⟨key, known⟩ else k)
  else (.error (.invalidKey key), k)

/-- Releases a key, and tells whether its state has changed. -/
def release (k : Keypad) (key : Nat) : Except Fault Bool × Keypad :=
  if known : key < 16 then
    let (changed, k) := k.markFree ⟨key, known⟩
    (.ok changed, k)
  else (.error (.invalidKey key), k)

/-- Whether a key is held; only the low four bits of its number count. -/
def isPressed (k : Keypad) (key : UInt8) : Bool :=
  k.held.read ⟨key.toNat % 16, Nat.mod_lt _ (by decide)⟩

def isInterrupted (k : Keypad) : Bool := k.latch.interrupted

/-- Frees keys one after the other. -/
def freeAll (k : Keypad) (keys : List Key) : Keypad :=
  keys.foldl (fun k key => (k.markFree key).2) k

theorem read_freeAll (k : Keypad) (keys : List Key) (j : Key) :
    (k.freeAll keys).held.read j = (!keys.contains j && k.held.read j) := by
  induction keys generalizing k with
  | nil => simp [freeAll]
  | cons key rest ih =>
    have later := ih (k.markFree key).2
    simp only [freeAll, List.foldl_cons] at later ⊢
    rw [later]
    by_cases same : key = j
    · simp [markFree, Cells.read_write, same]
    · have apart : j ≠ key := Ne.symm same
      simp [markFree, Cells.read_write, same, apart]

/-- Releases every key, one after the other, and clears the latch. -/
def reset (k : Keypad) : Keypad := (k.freeAll (List.finRange 16)).clearLatch

/-- A reset leaves no trace of what was held, latched or interrupted. -/
theorem reset_eq (k : Keypad) : k.reset = initial := by
  have free : (k.freeAll (List.finRange 16)).held = .fill 16 false := by
    apply Cells.ext
    intro j
    simp [read_freeAll, Cells.read_fill]
  simp only [reset, clearLatch, free]
  rfl

/-! ### Waits -/

/-- What others do to the keypad. -/
inductive Event
  | press (key : Nat)
  | release (key : Nat)
  | interrupt
deriving DecidableEq, Repr

/-- What an event answers to the one who caused it. -/
inductive Answer
  | changed (yes : Bool)
  | done
deriving DecidableEq, Repr

def apply (k : Keypad) : Event → Except Fault Answer × Keypad
  | .press key =>
    let (answer, k) := k.press key
    (answer.map .changed, k)
  | .release key =>
    let (answer, k) := k.release key
    (answer.map .changed, k)
  | .interrupt => (.ok .done, k.interrupt)

/-- The end of a wait, if the latch allows it. -/
def keyOrInterruption? (k : Keypad) : Option (Except Fault UInt8) :=
  match k.look with
  | .parked => none
  | .pressed key => some (.ok key)
  | .interrupted => some (.error .interrupted)

/-- Waits for a key while others act. Any number of their events may come between two looks
at the latch. -/
def waitForKey (k : Keypad) (events : List (List Event)) :
    Vigil Keypad (List Event) (List (Except Fault Answer)) (Except Fault UInt8) :=
  awaitResult keyOrInterruption? (applyAll apply) k.arm events

end Keypad

end Chip8
