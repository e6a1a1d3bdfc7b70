import Mathlib.Tactic.Ring
import Chip8.Proofs.Instruction.Operands

/-!
# Encoding and decoding are inverse

A word spells a list of slots if its digits are those that the slots stand for. An
encoded instruction spells its pattern, and a word that agrees with a pattern spells it
with the operands that decoding reads. The digits of a word are all there is to it, so
both directions follow from this one relation. No word agrees with two patterns of the
table, since any two of them have different fixed digits at some place. As numbers, the
words of an operation are its opcode with the operands added in their places.

How an instruction gets into a buffer is left to an encoder. It is relied on to ask for room
first and to store the two bytes of the word then.
-/
namespace Chip8

variable {o : Operands} {w : Word} {slots : List Slot}

theorem Word.digit_eq (w : Word) (place : Nat) : w.digit place = w.toNat / 16 ^ place % 16 := by
  rw [digit, Nat.shiftRight_eq_div_pow, Nat.pow_mul]

namespace Slot

/-! ### Well-placed patterns -/

/-- Whether a fixed digit is one, and an operand at a place where decoding reads it. -/
def stands : Slot → (place : Nat) → Bool
  | .fixed d, _ => d < 16
  | .a, place => place < 3
  | .b, place => place < 2
  | .n, place => place = 0
  | .x, place => place = 2
  | .y, place => place = 1

def wellPlaced : List Slot → Bool
  | [] => true
  | slot :: rest => slot.stands rest.length && wellPlaced rest

theorem wellPlaced_cons {slot : Slot} {rest : List Slot} :
    wellPlaced (slot :: rest) = true ↔ slot.stands rest.length = true ∧ wellPlaced rest = true :=
  Bool.and_eq_true_iff

theorem digit_lt {slot : Slot} {place : Nat} (stands : slot.stands place = true) :
    slot.digit o place < 16 := by
  cases slot with
  | fixed d => exact of_decide_eq_true stands
  | _ => exact Nat.mod_lt _ (by decide)

/-- Every digit of an operand is read from the place where it stands. -/
theorem digit_ofWord {slot : Slot} {place : Nat} (stands : slot.stands place = true)
    (operand : ∀ d, slot ≠ .fixed d) : slot.digit (Operands.ofWord w) place = w.digit place := by
  have bound := w.digit_lt place
  -- At each place the shift is a division by a known power, which omega can compare.
  cases slot with
  | fixed d => exact absurd rfl (operand d)
  | a =>
    have places : place = 0 ∨ place = 1 ∨ place = 2 := by
      have inside : place < 3 := of_decide_eq_true stands
      omega
    simp only [digit, Operands.ofWord, UInt16.toNat_ofNat', Nat.pow_eq, w.digit_eq]
    rcases places with rfl | rfl | rfl <;> omega
  | b =>
    have places : place = 0 ∨ place = 1 := by
      have inside : place < 2 := of_decide_eq_true stands
      omega
    simp only [digit, Operands.ofWord, UInt8.toNat_ofNat', Nat.pow_eq, w.digit_eq]
    rcases places with rfl | rfl <;> omega
  | n =>
    obtain rfl : place = 0 := of_decide_eq_true stands
    simp only [digit, Operands.ofWord, UInt8.toNat_ofNat', Nat.pow_eq]
    omega
  | x =>
    obtain rfl : place = 2 := of_decide_eq_true stands
    simp only [digit, Operands.ofWord, UInt64.toNat_ofNat']
    omega
  | y =>
    obtain rfl : place = 1 := of_decide_eq_true stands
    simp only [digit, Operands.ofWord, UInt64.toNat_ofNat']
    omega

/-! ### Spelling -/

/-- The word has the digits of the slots, the last slot standing at place 0. -/
def Spells (o : Operands) (w : Word) : List Slot → Prop
  | [] => True
  | slot :: rest => w.digit rest.length = slot.digit o rest.length ∧ Spells o w rest

theorem fill_lt (placed : wellPlaced slots = true) : fill o slots < 16 ^ slots.length := by
  induction slots with
  | nil => exact Nat.zero_lt_one
  | cons slot rest ih =>
    obtain ⟨stands, placed⟩ := wellPlaced_cons.mp placed
    have digit := digit_lt (o := o) stands
    calc fill o (slot :: rest)
        = slot.digit o rest.length * 16 ^ rest.length + fill o rest := rfl
      _ < (slot.digit o rest.length + 1) * 16 ^ rest.length := by
          rw [Nat.succ_mul]
          exact Nat.add_lt_add_left (ih placed) _
      _ ≤ 16 * 16 ^ rest.length := Nat.mul_le_mul_right _ digit
      _ = 16 ^ (slot :: rest).length := by rw [List.length_cons, Nat.pow_succ']

/-- A word whose last digits are those of a filled pattern spells it. -/
theorem spells_of_filled (placed : wellPlaced slots = true) {front : Nat}
    (filled : w.toNat = front * 16 ^ slots.length + fill o slots) : Spells o w slots := by
  induction slots generalizing front with
  | nil => trivial
  | cons slot rest ih =>
    obtain ⟨stands, placed⟩ := wellPlaced_cons.mp placed
    -- For the rest of the slots the front is one digit longer.
    have shifted : w.toNat =
        (front * 16 + slot.digit o rest.length) * 16 ^ rest.length + fill o rest := by
      rw [filled, fill, List.length_cons, Nat.pow_eq]
      ring
    refine ⟨?_, ih placed shifted⟩
    have digit := digit_lt (o := o) stands
    rw [w.digit_eq, shifted, Nat.mul_comm, Nat.mul_add_div (Nat.pow_pos (by decide)),
      Nat.div_eq_of_lt (fill_lt placed)]
    omega

/-- The slots are filled to what stands at their places in a word that spells them. -/
theorem fill_of_spells (spells : Spells o w slots) :
    fill o slots = w.toNat % 16 ^ slots.length := by
  induction slots with
  | nil => exact (Nat.mod_one _).symm
  | cons slot rest ih =>
    obtain ⟨digit, spells⟩ := spells
    -- A remainder is its leading digit and the remainder that is one digit shorter.
    rw [fill, ih spells, ← digit, w.digit_eq, List.length_cons, Nat.pow_succ, Nat.mod_mul,
      Nat.pow_eq]
    ring

theorem agree_cons {slot : Slot} {rest : List Slot} :
    agree w (slot :: rest) = true ↔
      (∀ d, slot = .fixed d → w.digit rest.length = d) ∧ agree w rest = true := by
  cases slot <;> simp [agree]

theorem agree_of_spells (spells : Spells o w slots) : agree w slots = true := by
  induction slots with
  | nil => rfl
  | cons slot rest ih =>
    obtain ⟨digit, spells⟩ := spells
    refine agree_cons.mpr ⟨?_, ih spells⟩
    rintro d rfl
    exact digit

/-- A word that agrees with the slots spells them with the operands read from it. -/
theorem spells_ofWord (agreed : agree w slots = true) (placed : wellPlaced slots = true) :
    Spells (Operands.ofWord w) w slots := by
  induction slots with
  | nil => trivial
  | cons slot rest ih =>
    obtain ⟨fixed, agreed⟩ := agree_cons.mp agreed
    obtain ⟨stands, placed⟩ := wellPlaced_cons.mp placed
    refine ⟨?_, ih agreed placed⟩
    by_cases operand : ∀ d, slot ≠ .fixed d
    · exact (digit_ofWord stands operand).symm
    · simp only [ne_eq, Classical.not_forall, Classical.not_not] at operand
      obtain ⟨d, rfl⟩ := operand
      exact fixed d rfl

/-! ### Clashes -/

/-- Whether these are different fixed digits. -/
def differs : Slot → Slot → Bool
  | .fixed d, .fixed e => d ≠ e
  | _, _ => false

theorem exists_of_differs {first second : Slot} (differs : first.differs second = true) :
    ∃ d e, first = .fixed d ∧ second = .fixed e ∧ d ≠ e := by
  cases first <;> cases second <;> simp_all [Slot.differs]

/-- Whether the lists have different fixed digits at the same place. -/
def clash : List Slot → List Slot → Bool
  | first :: p, second :: q => first.differs second || clash p q
  | _, _ => false

theorem not_agree_of_clash {p q : List Slot} (clashes : clash p q = true)
    (same : p.length = q.length) (first : agree w p = true) : agree w q ≠ true := by
  induction p generalizing q with
  | nil => cases clashes
  | cons slot p ih =>
    cases q with
    | nil => cases same
    | cons other q =>
      intro second
      -- The lengths put both slots at the same place of the word.
      have lengths : p.length = q.length := Nat.succ.inj same
      obtain ⟨digit, first⟩ := agree_cons.mp first
      obtain ⟨again, second⟩ := agree_cons.mp second
      rcases Bool.or_eq_true_iff.mp clashes with here | later
      · obtain ⟨d, e, rfl, rfl, apart⟩ := exists_of_differs here
        have digits := again e rfl
        rw [← lengths, digit d rfl] at digits
        exact apart digits
      · exact ih later lengths first second

end Slot

namespace Operation

/-! ### The table -/

theorem length_pattern (op : Operation) : op.pattern.length = 4 := by
  have table : ∀ op ∈ all, op.pattern.length = 4 := by decide
  exact table op (mem_all op)

theorem wellPlaced_pattern (op : Operation) : Slot.wellPlaced op.pattern = true := by
  have table : ∀ op ∈ all, Slot.wellPlaced op.pattern = true := by decide
  exact table op (mem_all op)

/-- Any two patterns have different fixed digits at some place. -/
theorem clash_of_ne {p q : Operation} (apart : p ≠ q) : Slot.clash p.pattern q.pattern = true := by
  have table : ∀ p ∈ all, ∀ q ∈ all, p ≠ q → Slot.clash p.pattern q.pattern = true := by
    decide +kernel
  exact table p (mem_all p) q (mem_all q) apart

theorem eq_of_agrees {p q : Operation} (first : p.agrees w = true) (second : q.agrees w = true) :
    p = q := by
  apply Classical.byContradiction
  intro apart
  have lengths : p.pattern.length = q.pattern.length := by rw [length_pattern, length_pattern]
  exact Slot.not_agree_of_clash (clash_of_ne apart) lengths first second

theorem ofWord?_eq_some_iff {op : Operation} : ofWord? w = some op ↔ op.agrees w = true := by
  have agrees_of_found {op : Operation} (found : ofWord? w = some op) : op.agrees w = true := by
    rw [ofWord?_eq] at found
    exact List.find?_some (p := fun op : Operation => op.agrees w) found
  constructor
  · exact agrees_of_found
  · intro agreed
    cases found : ofWord? w with
    -- The search may have stopped at another pattern, but no other one agrees.
    | some other => rw [eq_of_agrees (agrees_of_found found) agreed]
    | none =>
      rw [ofWord?_eq, List.find?_eq_none] at found
      exact absurd agreed (found op (mem_all op))

theorem operation_instruction (op : Operation) (o : Operands) :
    (op.instruction o).operation = op := by
  cases op <;> rfl

/-- A pattern shows no other operands than those of the operation's group. -/
theorem fill_operands (op : Operation) (o : Operands) :
    Slot.fill (op.instruction o).operands op.pattern = Slot.fill o op.pattern := by
  cases op with
  | plain op => cases op <;> rfl
  | address op => cases op <;> rfl
  | immediate op => cases op <;> rfl
  | compare op => cases op <;> rfl
  | arithmetic op => cases op <;> rfl
  | draw => rfl
  | register op => cases op <;> rfl

end Operation

/-! ### Opcodes -/

namespace Operation

/-- The word of the operation when all its operands are zero. -/
def opcode : Operation → Nat
  | .plain .clearScreen => 0x00e0
  | .plain .ret => 0x00ee
  | .address .jump => 0x1000
  | .address .call => 0x2000
  | .immediate .skipEqual => 0x3000
  | .immediate .skipDiffer => 0x4000
  | .compare .skipEqual => 0x5000
  | .immediate .set => 0x6000
  | .immediate .add => 0x7000
  | .arithmetic .copy => 0x8000
  | .arithmetic .or => 0x8001
  | .arithmetic .and => 0x8002
  | .arithmetic .xor => 0x8003
  | .arithmetic .add => 0x8004
  | .arithmetic .sub => 0x8005
  | .arithmetic .shiftRight => 0x8006
  | .arithmetic .subFrom => 0x8007
  | .arithmetic .shiftLeft => 0x800e
  | .compare .skipDiffer => 0x9000
  | .address .setIndex => 0xa000
  | .address .jumpOffset => 0xb000
  | .immediate .random => 0xc000
  | .draw => 0xd000
  | .register .skipPressed => 0xe09e
  | .register .skipReleased => 0xe0a1
  | .register .readDelay => 0xf007
  | .register .waitKey => 0xf00a
  | .register .setDelay => 0xf015
  | .register .setSound => 0xf018
  | .register .addIndex => 0xf01e
  | .register .pointGlyph => 0xf029
  | .register .storeDecimal => 0xf033
  | .register .storeRegisters => 0xf055
  | .register .loadRegisters => 0xf065

/-- What the operands add to the opcode: an address, a byte or a row count as it is, the
first register one byte higher and the second half a byte higher. -/
def addend (o : Operands) : Operation → Nat
  | .plain _ => 0
  | .address _ => o.a.toNat
  | .immediate _ => 0x100 * o.x.toNat + o.b.toNat
  | .compare _ | .arithmetic _ => 0x100 * o.x.toNat + 0x10 * o.y.toNat
  | .draw => 0x100 * o.x.toNat + 0x10 * o.y.toNat + o.n.toNat
  | .register _ => 0x100 * o.x.toNat

/-! Within a group the operands stand at the same places. -/

theorem pattern_address (op : AddressOp) : ∃ d, (address op).pattern = [.fixed d, .a, .a, .a] := by
  cases op <;> exact ⟨_, rfl⟩

theorem pattern_immediate (op : ImmediateOp) :
    ∃ d, (immediate op).pattern = [.fixed d, .x, .b, .b] := by
  cases op <;> exact ⟨_, rfl⟩

theorem pattern_compare (op : CompareOp) :
    ∃ d e, (compare op).pattern = [.fixed d, .x, .y, .fixed e] := by
  cases op <;> exact ⟨_, _, rfl⟩

theorem pattern_arithmetic (op : ArithmeticOp) :
    ∃ d e, (arithmetic op).pattern = [.fixed d, .x, .y, .fixed e] := by
  cases op <;> exact ⟨_, _, rfl⟩

theorem pattern_register (op : RegisterOp) :
    ∃ d e f, (register op).pattern = [.fixed d, .x, .fixed e, .fixed f] := by
  cases op <;> exact ⟨_, _, _, rfl⟩

/-- A filled pattern is the opcode with narrow operands in their places. -/
theorem fill_pattern (op : Operation) (narrow : o.Narrow) :
    Slot.fill o op.pattern = op.opcode + op.addend o := by
  have empty : Slot.fill { } op.pattern = op.opcode := by
    have table : ∀ op ∈ all, Slot.fill { } op.pattern = op.opcode := by decide +kernel
    exact table op (mem_all op)
  obtain ⟨a, n, x, y⟩ := narrow
  have b := o.b.toNat_lt
  rw [← empty]
  cases op with
  | plain op => cases op <;> simp only [pattern, Slot.fill, Slot.digit, addend, Nat.add_zero]
  | address op =>
    obtain ⟨d, shape⟩ := pattern_address op
    simp [shape, Slot.fill, Slot.digit, addend]
    omega
  | immediate op =>
    obtain ⟨d, shape⟩ := pattern_immediate op
    simp [shape, Slot.fill, Slot.digit, addend]
    omega
  | compare op =>
    obtain ⟨d, e, shape⟩ := pattern_compare op
    simp [shape, Slot.fill, Slot.digit, addend]
    omega
  | arithmetic op =>
    obtain ⟨d, e, shape⟩ := pattern_arithmetic op
    simp [shape, Slot.fill, Slot.digit, addend]
    omega
  | draw =>
    simp [pattern, Slot.fill, Slot.digit, addend]
    omega
  | register op =>
    obtain ⟨d, e, f, shape⟩ := pattern_register op
    simp [shape, Slot.fill, Slot.digit, addend]
    omega

end Operation

/-! ### Operands in a word -/

/-- The operands cut down to the digits that patterns have for them. -/
def Operands.narrowed (o : Operands) : Operands where
  a := o.a % 4096
  b := o.b
  n := o.n % 16
  x := o.x % 16
  y := o.y % 16

namespace Operands

theorem a_ofWord (two : w.digit 2 = Slot.a.digit o 2) (one : w.digit 1 = Slot.a.digit o 1)
    (zero : w.digit 0 = Slot.a.digit o 0) : (ofWord w).a = o.narrowed.a := by
  simp only [Word.digit_eq, Slot.digit, Nat.pow_eq] at two one zero
  apply UInt16.toNat_inj.mp
  simp only [ofWord, narrowed, UInt16.toNat_ofNat', UInt16.toNat_mod, UInt16.reduceToNat]
  omega

theorem b_ofWord (one : w.digit 1 = Slot.b.digit o 1) (zero : w.digit 0 = Slot.b.digit o 0) :
    (ofWord w).b = o.narrowed.b := by
  have bound := o.b.toNat_lt
  simp only [Word.digit_eq, Slot.digit, Nat.pow_eq] at one zero
  apply UInt8.toNat_inj.mp
  simp only [ofWord, narrowed, UInt8.toNat_ofNat']
  omega

theorem n_ofWord (zero : w.digit 0 = Slot.n.digit o 0) : (ofWord w).n = o.narrowed.n := by
  simp only [Slot.digit, Nat.pow_eq] at zero
  apply UInt8.toNat_inj.mp
  simp only [ofWord, narrowed, UInt8.toNat_ofNat', UInt8.toNat_mod, UInt8.reduceToNat]
  omega

theorem x_ofWord (two : w.digit 2 = Slot.x.digit o 2) : (ofWord w).x = o.narrowed.x := by
  simp only [Slot.digit] at two
  apply UInt64.toNat_inj.mp
  simp only [ofWord, narrowed, UInt64.toNat_ofNat', UInt64.toNat_mod, UInt64.reduceToNat]
  omega

theorem y_ofWord (one : w.digit 1 = Slot.y.digit o 1) : (ofWord w).y = o.narrowed.y := by
  simp only [Slot.digit] at one
  apply UInt64.toNat_inj.mp
  simp only [ofWord, narrowed, UInt64.toNat_ofNat', UInt64.toNat_mod, UInt64.reduceToNat]
  omega

end Operands

/-- Of the operands that a word spells, decoding reads what fits in their digits. -/
theorem Operation.instruction_ofWord {op : Operation} (spells : Slot.Spells o w op.pattern) :
    op.instruction (Operands.ofWord w) = op.instruction o.narrowed := by
  cases op with
  | plain op => rfl
  | address op =>
    obtain ⟨d, shape⟩ := pattern_address op
    rw [shape] at spells
    obtain ⟨_, two, one, zero, _⟩ := spells
    simp only [instruction, Operands.a_ofWord two one zero]
  | immediate op =>
    obtain ⟨d, shape⟩ := pattern_immediate op
    rw [shape] at spells
    obtain ⟨_, two, one, zero, _⟩ := spells
    simp only [instruction, Operands.x_ofWord two, Operands.b_ofWord one zero]
  | compare op =>
    obtain ⟨d, e, shape⟩ := pattern_compare op
    rw [shape] at spells
    obtain ⟨_, two, one, _⟩ := spells
    simp only [instruction, Operands.x_ofWord two, Operands.y_ofWord one]
  | arithmetic op =>
    obtain ⟨d, e, shape⟩ := pattern_arithmetic op
    rw [shape] at spells
    obtain ⟨_, two, one, _⟩ := spells
    simp only [instruction, Operands.x_ofWord two, Operands.y_ofWord one]
  | draw =>
    obtain ⟨_, two, one, zero, _⟩ := spells
    simp only [instruction, Operands.x_ofWord two, Operands.y_ofWord one, Operands.n_ofWord zero]
  | register op =>
    obtain ⟨d, e, f, shape⟩ := pattern_register op
    rw [shape] at spells
    obtain ⟨_, two, _⟩ := spells
    simp only [instruction, Operands.x_ofWord two]

namespace Instruction

/-! ### Both directions -/

/-- What is left of an instruction in a word. -/
def narrowed (i : Instruction) : Instruction := i.operation.instruction i.operands.narrowed

theorem toNat_encode (i : Instruction) :
    i.encode.toNat = Slot.fill i.operands i.operation.pattern := by
  have bound := Slot.fill_lt (o := i.operands) i.operation.wellPlaced_pattern
  rw [i.operation.length_pattern] at bound
  exact UInt16.toNat_ofNat_of_lt' bound

theorem decode_encode (i : Instruction) : decode i.encode = some i.narrowed := by
  have filled := i.toNat_encode
  -- The pattern has all four digits of the word, so nothing stands in front of it.
  rw [← Nat.zero_add (Slot.fill _ _), ← Nat.zero_mul (16 ^ i.operation.pattern.length)] at filled
  have spells := Slot.spells_of_filled i.operation.wellPlaced_pattern filled
  have found := Operation.ofWord?_eq_some_iff.mpr (Slot.agree_of_spells spells)
  rw [decode, found, Option.map_some, Operation.instruction_ofWord spells]
  rfl

theorem encode_of_decode {i : Instruction} (decoded : decode w = some i) : i.encode = w := by
  obtain ⟨op, found, rfl⟩ := Option.map_eq_some_iff.mp decoded
  have agreed := Operation.ofWord?_eq_some_iff.mp found
  have filled := Slot.fill_of_spells (Slot.spells_ofWord agreed op.wellPlaced_pattern)
  have bound := w.toNat_lt
  apply UInt16.toNat_inj.mp
  rw [toNat_encode, op.operation_instruction, op.fill_operands, filled, op.length_pattern]
  omega

/-- The words that decode are the encoded instructions, and nothing of these is lost. -/
theorem decode_eq_some_iff {i : Instruction} :
    decode w = some i ↔ i.narrowed = i ∧ i.encode = w := by
  constructor
  · intro decoded
    have encoded := encode_of_decode decoded
    have again := decode_encode i
    rw [encoded, decoded] at again
    exact ⟨(Option.some.inj again).symm, encoded⟩
  · rintro ⟨narrow, rfl⟩
    rw [decode_encode, narrow]

theorem narrow_narrowed (i : Instruction) : i.narrowed.operands.Narrow := by
  apply i.operation.narrow_instruction
  constructor <;> simp [Operands.narrowed] <;> omega

/-- The words of an instruction as numbers. -/
theorem decode_eq_some_iff_toNat {i : Instruction} :
    decode w = some i ↔
      i.narrowed = i ∧ w.toNat = i.operation.opcode + i.operation.addend i.operands := by
  rw [decode_eq_some_iff]
  refine and_congr_right fun narrowed => ?_
  have narrow := i.narrow_narrowed
  rw [narrowed] at narrow
  rw [← UInt16.toNat_inj, toNat_encode, i.operation.fill_pattern narrow, eq_comm]

theorem isSome_decode_iff : (decode w).isSome ↔ ∃ op : Operation, op.agrees w = true := by
  simp only [decode, Option.isSome_map, Option.isSome_iff_exists, Operation.ofWord?_eq_some_iff]

/-! ### Byte strings -/

theorem decodeBytes_cons (high low : UInt8) (rest : List UInt8) :
    decodeBytes (high :: low :: rest) =
      match decode (Word.ofBytes high low) with
      | some i => .ok (2, i)
      | none => .error .unknownOpcode := rfl

theorem decodeBytes_encoded (i : Instruction) (rest : List UInt8) :
    decodeBytes (i.encode.high :: i.encode.low :: rest) = .ok (2, i.narrowed) := by
  rw [decodeBytes_cons, Word.ofBytes_high_low, decode_encode]

/-- What is relied on of an encoder: it looks at the length of the buffer before it writes, and
then it stores the bytes of the word one after the other. -/
structure Encoder.InPlace (encoder : Encoder) : Prop where
  short : ∀ i buffer, buffer.length < 2 → encoder i buffer = (.error .unexpectedEnd, buffer)
  long : ∀ i buffer, 2 ≤ buffer.length →
    encoder i buffer = (.ok 2, (buffer.set 0 i.encode.high).set 1 i.encode.low)

theorem inPlace_encodeInto : Encoder.InPlace encodeInto where
  short i buffer short := by
    match buffer, short with
    | [], _ => rfl
    | [_], _ => rfl
  long i buffer long := by
    match buffer, long with
    | _ :: _ :: _, _ => rfl

variable {encoder : Encoder}

theorem Encoder.InPlace.cons (inPlace : encoder.InPlace) (i : Instruction) (high low : UInt8)
    (rest : List UInt8) :
    encoder i (high :: low :: rest) = (.ok 2, i.encode.high :: i.encode.low :: rest) :=
  inPlace.long i _ (by simp)

theorem Encoder.InPlace.encode_decoded (inPlace : encoder.InPlace) {high low : UInt8}
    {rest : List UInt8} {count : Nat} {i : Instruction}
    (decoded : decodeBytes (high :: low :: rest) = .ok (count, i)) :
    count = 2 ∧ encoder i (high :: low :: rest) = (.ok 2, high :: low :: rest) := by
  rw [decodeBytes_cons] at decoded
  split at decoded
  next found =>
    cases decoded
    rw [inPlace.cons, encode_of_decode found, Word.high_ofBytes, Word.low_ofBytes]
    exact ⟨rfl, rfl⟩
  next => cases decoded

/-- Whatever encoder is used, if only it writes in place, decoding gives back what encoding has
written, up to the parts of operands that do not fit in a word; encoding gives back the bytes
that have been decoded, and nothing behind them counts. So a word has one reading at most, and
it has one if it agrees with one of the thirty-four patterns: that of the operation whose opcode
is left when the operands are taken off. Encoding writes two bytes if there are two, and nothing
else. -/
theorem decoding_inverts_encoding (inPlace : encoder.InPlace) :
    (∀ (i : Instruction) (buffer : List UInt8), 2 ≤ buffer.length →
      decodeBytes (encoder i buffer).2 = .ok (2, i.narrowed)) ∧
    (∀ high low rest count i, decodeBytes (high :: low :: rest) = .ok (count, i) →
      count = 2 ∧ encoder i (high :: low :: rest) = (.ok 2, high :: low :: rest)) ∧
    (∀ high low rest other,
      decodeBytes (high :: low :: rest) = decodeBytes (high :: low :: other)) ∧
    (∀ (w : Word) (p q : Operation), p.agrees w = true → q.agrees w = true → p = q) ∧
    (∀ w i, decode w = some i ↔ i.narrowed = i ∧ i.encode = w) ∧
    (∀ w i, decode w = some i ↔
      i.narrowed = i ∧ w.toNat = i.operation.opcode + i.operation.addend i.operands) ∧
    (∀ w, (decode w).isSome ↔ ∃ op ∈ Operation.all, op.agrees w = true) ∧
    Operation.all.length = 34 ∧ Operation.all.Nodup ∧
    ∀ (i : Instruction) (buffer : List UInt8),
      if 2 ≤ buffer.length then
        (encoder i buffer).1 = .ok 2 ∧
        (encoder i buffer).2 = [i.encode.high, i.encode.low] ++ buffer.drop 2
      else encoder i buffer = (.error .unexpectedEnd, buffer) := by
  refine ⟨?_, fun _ _ _ _ _ => inPlace.encode_decoded, fun _ _ _ _ => rfl,
    fun _ _ _ => Operation.eq_of_agrees, fun _ _ => decode_eq_some_iff,
    fun _ _ => decode_eq_some_iff_toNat, ?_, rfl, by decide, ?_⟩
  · intro i buffer long
    match buffer, long with
    | _ :: _ :: rest, _ =>
      rw [inPlace.cons]
      exact i.decodeBytes_encoded rest
  · intro w
    rw [isSome_decode_iff]
    simp only [Operation.mem_all, true_and]
  · intro i buffer
    match buffer with
    | [] => exact inPlace.short i [] (by decide)
    | [only] => exact inPlace.short i [only] (by simp)
    | high :: low :: rest =>
      rw [if_pos (by simp), inPlace.cons]
      exact ⟨rfl, rfl⟩

theorem wide_draw_loses_its_high_digits :
    Encoder.InPlace encodeInto ∧
      (draw 0x2a 0x103 0x7f).encodeInto [0, 0, 1] = (.ok 2, [0xda, 0x3f, 1]) ∧
      decodeBytes [0xda, 0x3f, 1] = .ok (2, draw 0xa 0x3 0xf) := by
  have written : (draw 0x2a 0x103 0x7f).encodeInto [0, 0, 1] = (.ok 2, [0xda, 0x3f, 1]) := by decide
  have decoded :=
    (decoding_inverts_encoding inPlace_encodeInto).1 (draw 0x2a 0x103 0x7f) [0, 0, 1] (by decide)
  rw [written] at decoded
  exact ⟨inPlace_encodeInto, written, decoded⟩

end Instruction

end Chip8
