import Chip8.Numeral

/-!
# Faults and traps

A *fault* is an outcome the machine declares: an unknown instruction, a stack
that is full or empty, a request naming a key or register that does not exist, a
program that does not fit, an interrupted wait, or a file the host cannot read.
Each fault keeps the numbers that its message shows.

A *trap* is what must never happen: an index outside a register file, a stack or
a memory, or two lengths that ought to agree and do not. Operations report a
trap instead of picking a value, so that its absence can be stated.
-/
namespace Chip8

/-- Ways in which the operating system refuses to read a file. -/
inductive FileFailure
  | notFound
  | notADirectory
  | isADirectory
  | nameTooLong
deriving DecidableEq, Repr

namespace FileFailure

def code : FileFailure → Nat
  | .notFound => 2
  | .notADirectory => 20
  | .isADirectory => 21
  | .nameTooLong => 36

def kind : FileFailure → String
  | .notFound => "NotFound"
  | .notADirectory => "NotADirectory"
  | .isADirectory => "IsADirectory"
  | .nameTooLong => "InvalidFilename"

def message : FileFailure → String
  | .notFound => "No such file or directory"
  | .notADirectory => "Not a directory"
  | .isADirectory => "Is a directory"
  | .nameTooLong => "File name too long"

end FileFailure

/-- A failure of the host, reported by the operating system or by kind alone. -/
inductive HostFailure
  | file (failure : FileFailure)
  | entityNotFound
deriving DecidableEq, Repr

inductive Fault
  | unknownInstruction (word address : UInt16) (offset : Int)
  | stackOverflow (address : UInt16)
  | stackUnderflow (address : UInt16)
  | invalidKey (key : Nat)
  | invalidRegister (register : Nat)
  | programTooLarge (length capacity : Nat)
  | interrupted
  | host (failure : HostFailure)
deriving DecidableEq, Repr

inductive Trap
  | registerIndex (index : Nat)
  | stackIndex (index : Nat)
  | memoryIndex (index : Nat)
  | regionBounds (start stop : Nat)
  | lengthMismatch (expected actual : Nat)
deriving DecidableEq, Repr

/-- Why an operation ends without a result. -/
inductive Abort
  | fault (fault : Fault)
  | trap (trap : Trap)
deriving DecidableEq, Repr

/-! ### Attempts -/

/-- What comes of an operation on a state: its result, or the reason why there is none, and
in either case the state that it leaves. -/
abbrev Attempt (State Result : Type) := Except Abort Result × State

namespace Attempt

variable {State Whole Found Result Last : Type}

/-- Goes on after an operation that has given a result. Without one the state stays as the
operation has left it. -/
def andThen (first : Attempt State Result) (next : Result → State → Attempt State Last) :
    Attempt State Last :=
  match first with
  | (.ok result, s) => next result s
  | (.error abort, s) => (.error abort, s)

/-- Goes on with something that has to be found first. Without it nothing is done. -/
def finding (s : State) (found : Except Abort Found) (next : Found → Attempt State Result) :
    Attempt State Result :=
  match found with
  | .ok value => next value
  | .error abort => (.error abort, s)

/-- An operation on a part of a state, as an operation on the whole. -/
def within (put : State → Whole) (part : Attempt State Result) : Attempt Whole Result :=
  (part.1, put part.2)

/-- Looking for something does not depend on how the whole is put together. -/
theorem within_finding (put : State → Whole) (s : State) (found : Except Abort Found)
    (next : Found → Attempt State Result) :
    (finding s found next).within put =
      finding (put s) found fun value => (next value).within put := by
  cases found <;> rfl

/-- What each part of an operation keeps is kept by the whole of it, however it ends. -/
theorem snd_andThen {P : State → Prop} {first : Attempt State Result}
    {next : Result → State → Attempt State Last} (kept : P first.2)
    (later : ∀ result s, P s → P (next result s).2) : P (first.andThen next).2 := by
  obtain ⟨abort | result, s⟩ := first
  · exact kept
  · exact later result s kept

/-- What ends well has done so in both of its parts. -/
theorem exists_of_andThen_eq_ok {first : Attempt State Result}
    {next : Result → State → Attempt State Last} {last : Last} {t : State}
    (done : first.andThen next = (.ok last, t)) :
    ∃ result s, first = (.ok result, s) ∧ next result s = (.ok last, t) := by
  obtain ⟨result | abort, s⟩ := first
  · cases done
  · exact ⟨_, s, rfl, done⟩

theorem exists_of_finding_eq_ok {s t : State} {found : Except Abort Found}
    {next : Found → Attempt State Result} {result : Result}
    (done : finding s found next = (.ok result, t)) :
    ∃ value, found = .ok value ∧ next value = (.ok result, t) := by
  cases found with
  | error abort => cases done
  | ok value => exact ⟨value, rfl, done⟩

theorem exists_of_within_eq_ok {part : Attempt State Result} {put : State → Whole}
    {result : Result} {whole : Whole} (done : part.within put = (.ok result, whole)) :
    ∃ s, part = (.ok result, s) ∧ put s = whole := by
  obtain ⟨ended, s⟩ := part
  cases done
  exact ⟨s, rfl, rfl⟩

end Attempt

open Numeral in
def HostFailure.message : HostFailure → String
  | .file failure => failure.message ++ " (os error " ++ decimal failure.code ++ ")"
  | .entityNotFound => "entity not found"

open Numeral in
/-- The text shown to a user. -/
def Fault.message : Fault → String
  | .unknownInstruction word address offset =>
    "opcode " ++ hex .lower 4 word.toNat ++ " not recognized at " ++
      hex .lower 3 address.toNat ++ " (program offset " ++ signedDecimal offset ++ ")"
  | .stackOverflow address =>
    "stack overflow: call at " ++ hex .lower 3 address.toNat ++ " with a full stack"
  | .stackUnderflow address =>
    "stack underflow: return at " ++ hex .lower 3 address.toNat ++ " with an empty stack"
  | .invalidKey key =>
    "tried to press key " ++ hex .upper 0 key ++ " which does not exist"
  | .invalidRegister register =>
    "tried to access register v" ++ hex .upper 0 register ++ " which does not exist"
  | .programTooLarge length capacity =>
    "program of " ++ decimal length ++ " bytes does not fit in " ++ decimal capacity ++
      " bytes of program memory"
  | .interrupted => "wait for key interrupted"
  | .host failure => failure.message

end Chip8
