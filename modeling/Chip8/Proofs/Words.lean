import Chip8.Word

/-!
# Words of a byte string

Two bytes make a word, so a byte string has half as many words as bytes and the words tell
all of it but a last odd byte. What is left out in front moves the words as long as it is
whole words.
-/
namespace Chip8.Word

/-- The two bytes of a word, in the order in which they stand in memory. -/
def bytes (w : Word) : List UInt8 := [high w, low w]

variable {program : List UInt8}

/-- The recursion ends at a byte string that has no two bytes. -/
theorem length_lt_two (short : ∀ a b rest, program = a :: b :: rest → False) :
    program.length < 2 := by
  cases program with
  | nil => simp
  | cons a rest =>
    cases rest with
    | nil => simp
    | cons b rest => exact (short a b rest rfl).elim

theorem ofByteList_of_short (short : program.length < 2) : ofByteList program = [] := by
  fun_cases ofByteList program with
  | case1 a b rest =>
    simp only [List.length_cons] at short
    omega
  | case2 => rfl

theorem length_ofByteList (program : List UInt8) :
    (ofByteList program).length = program.length / 2 := by
  fun_induction ofByteList program with
  | case1 a b rest ih =>
    simp only [List.length_cons, ih]
    omega
  | case2 program short =>
    have few := length_lt_two short
    rw [List.length_nil]
    omega

theorem ofByteList_drop (program : List UInt8) (count : Nat) :
    ofByteList (program.drop (2 * count)) = (ofByteList program).drop count := by
  fun_induction ofByteList program generalizing count with
  | case1 a b rest ih =>
    cases count with
    | zero => rfl
    | succ count =>
      have twice : 2 * (count + 1) = 2 * count + 1 + 1 := by omega
      rw [twice, List.drop_succ_cons, List.drop_succ_cons, List.drop_succ_cons, ih]
  | case2 program short =>
    -- With fewer than two bytes there is no word, whatever is left out of them.
    have few := length_lt_two short
    rw [List.drop_nil]
    apply ofByteList_of_short
    rw [List.length_drop]
    omega

theorem getElem?_ofByteList {k : Nat} {a b : UInt8} (first : program[2 * k]? = some a)
    (second : program[2 * k + 1]? = some b) : (ofByteList program)[k]? = some (ofBytes a b) := by
  have front : program.drop (2 * k) = a :: b :: program.drop (2 * k + 2) := by
    obtain ⟨inside, here⟩ := List.getElem?_eq_some_iff.mp first
    obtain ⟨next, there⟩ := List.getElem?_eq_some_iff.mp second
    rw [List.drop_eq_getElem_cons inside, List.drop_eq_getElem_cons next, here, there]
  -- The word is the first one of what remains, so no induction is needed here.
  have shifted : ((ofByteList program).drop k)[0]? = (ofByteList program)[k + 0]? :=
    List.getElem?_drop
  rw [← ofByteList_drop, front, ofByteList, List.getElem?_cons_zero, Nat.add_zero] at shifted
  exact shifted.symm

theorem flatMap_bytes_ofByteList (program : List UInt8) :
    (ofByteList program).flatMap bytes = program.take (2 * (program.length / 2)) := by
  fun_induction ofByteList program with
  | case1 a b rest ih =>
    have twice : 2 * ((rest.length + 1 + 1) / 2) = 2 * (rest.length / 2) + 1 + 1 := by omega
    rw [List.flatMap_cons, ih, bytes, high_ofBytes, low_ofBytes, List.length_cons,
      List.length_cons, twice, List.take_succ_cons, List.take_succ_cons]
    rfl
  | case2 program short =>
    have none : 2 * (program.length / 2) = 0 := by
      have few := length_lt_two short
      omega
    rw [none]
    rfl

end Chip8.Word
