import Chip8.Proofs.Machine.Invariant
import Chip8.Proofs.Memory.Windows
import Chip8.Proofs.Screen.Sprites

/-!
# Footprints

Every instruction has a footprint: the registers, places of memory, pixels and so on
that it may write. It depends on the operands and on the registers that place a window
in memory or on the screen. Executing the instruction changes nothing outside it but
the program counter, and a tick adds one to the cycle. What others do while an
instruction waits for a key is not the instruction's doing, so there the machine is
compared with the one that has only met their events.
-/
namespace Chip8

/-- The parts of a machine that may change, besides the program counter and the cycle. -/
structure Footprint where
  register : Fin 16 → Prop := fun _ => False
  index : Prop := False
  sp : Prop := False
  slot : Fin 16 → Prop := fun _ => False
  place : Nat → Prop := fun _ => False
  pixel : Pixel → Prop := fun _ => False
  generation : Prop := False
  delay : Prop := False
  sound : Prop := False
  latch : Prop := False

/-- Whether the operand names this register. -/
def Names (x : UInt64) (register : Fin 16) : Prop := Registers.index x = .ok register

theorem Names.val_eq {x : UInt64} {j : Fin 16} (named : Names x j) : j.val = x.toNat := by
  unfold Names Registers.index at named
  split at named
  next inside =>
    cases named
    rfl
  next => cases named

/-- Whether the operation sets vF besides its destination. -/
def ArithmeticOp.flags : ArithmeticOp → Bool
  | .copy => false
  | .or => false
  | .and => false
  | .xor => false
  | .add => true
  | .sub => true
  | .shiftRight => true
  | .subFrom => true
  | .shiftLeft => true

namespace Instruction

def immediateFootprint (x : UInt64) : ImmediateOp → Footprint
  | .skipEqual => { }
  | .skipDiffer => { }
  | .set => { register := Names x }
  | .add => { register := Names x }
  | .random => { register := Names x }

def registerFootprint (r : Registers) (x : UInt64) : RegisterOp → Footprint
  | .skipPressed => { }
  | .skipReleased => { }
  | .readDelay => { register := Names x }
  | .waitKey => { register := Names x, latch := True }
  | .setDelay => { delay := True }
  | .setSound => { sound := True }
  | .addIndex => { register := fun j => j = Registers.vF, index := True }
  | .pointGlyph => { index := True }
  | .storeDecimal => { place := Memory.window r.i.toNat 3 }
  | .storeRegisters => { place := Memory.window r.i.toNat (x.toNat + 1) }
  | .loadRegisters => { register := fun j => j.val ≤ x.toNat }

/-- What an instruction may change if it is executed with these registers. -/
def footprint (r : Registers) : Instruction → Footprint
  | .plain .clearScreen => { pixel := fun _ => True, generation := True }
  | .plain .ret => { sp := True }
  | .address .jump _ => { }
  | .address .call _ => { sp := True, slot := fun slot => slot.val = r.sp.toNat }
  | .address .setIndex _ => { index := True }
  | .address .jumpOffset _ => { }
  | .immediate op x _ => immediateFootprint x op
  | .compare _ _ _ => { }
  | .arithmetic op x _ =>
    { register := fun j => Names x j ∨ op.flags = true ∧ j = Registers.vF }
  | .draw x y n =>
    { register := fun j => j = Registers.vF
      pixel := fun p => ∃ column row, Names x column ∧ Names y row ∧
        Screen.window (r.v.read column).toNat (r.v.read row).toNat n.toNat p
      generation := True }
  | .register op x => registerFootprint r x op

end Instruction

namespace Registers

/-- Everything outside the footprint but the program counter is the same. -/
structure ChangesOnly (f : Footprint) (r s : Registers) : Prop where
  register : ∀ j, ¬ f.register j → s.v.read j = r.v.read j
  index : ¬ f.index → s.i = r.i
  sp : ¬ f.sp → s.sp = r.sp
  slot : ∀ slot, ¬ f.slot slot → s.stack.read slot = r.stack.read slot

variable {f : Footprint} {r s t : Registers}

theorem ChangesOnly.trans (first : r.ChangesOnly f s) (second : s.ChangesOnly f t) :
    r.ChangesOnly f t where
  register j outside := (second.register j outside).trans (first.register j outside)
  index outside := (second.index outside).trans (first.index outside)
  sp outside := (second.sp outside).trans (first.sp outside)
  slot slot outside := (second.slot slot outside).trans (first.slot slot outside)

theorem changesOnly_withPc (r : Registers) (pc : Word) : r.ChangesOnly f { r with pc } :=
  ⟨fun _ _ => rfl, fun _ => rfl, fun _ => rfl, fun _ _ => rfl⟩

theorem changesOnly_skipIf (r : Registers) (condition : Bool) :
    r.ChangesOnly f (r.skipIf condition) :=
  changesOnly_withPc r _

theorem changesOnly_branch (r : Registers) (target : Word) : r.ChangesOnly f (r.branch target) :=
  changesOnly_withPc r _

theorem changesOnly_withIndex (r : Registers) (i : Word) (inside : f.index) :
    r.ChangesOnly f { r with i } :=
  ⟨fun _ _ => rfl, fun outside => absurd inside outside, fun _ => rfl, fun _ _ => rfl⟩

theorem changesOnly_setV (r : Registers) {x : Fin 16} (value : UInt8) (inside : f.register x) :
    r.ChangesOnly f (r.setV x value) := by
  refine ⟨fun j outside => ?_, fun _ => rfl, fun _ => rfl, fun _ _ => rfl⟩
  rw [setV, Cells.read_write, if_neg]
  rintro rfl
  exact outside inside

theorem changesOnly_arithmetic (r : Registers) (op : ArithmeticOp) {x : Fin 16} (y : Fin 16)
    (result : f.register x) (flag : op.flags = true → f.register vF) :
    r.ChangesOnly f (r.arithmetic op x y) := by
  cases op with
  | copy => exact changesOnly_setV r _ result
  | or => exact changesOnly_setV r _ result
  | and => exact changesOnly_setV r _ result
  | xor => exact changesOnly_setV r _ result
  -- The others write vF first.
  | _ => exact (changesOnly_setV r _ (flag rfl)).trans (changesOnly_setV _ _ result)

theorem changesOnly_addIndex (r : Registers) (x : Fin 16) (flag : f.register vF)
    (index : f.index) : r.ChangesOnly f (r.addIndex x) :=
  (changesOnly_setV r _ flag).trans (changesOnly_withIndex _ _ index)

theorem changesOnly_push {address : Word} (pushed : r.push address = (.ok (), s)) (sp : f.sp)
    (slot : ∀ slot, slot.val = r.sp.toNat → f.slot slot) : r.ChangesOnly f s := by
  unfold push at pushed
  split at pushed
  next free =>
    cases pushed
    refine ⟨fun _ _ => rfl, fun _ => rfl, fun outside => absurd sp outside, ?_⟩
    intro other outside
    rw [Cells.read_write, if_neg]
    rintro rfl
    exact outside (slot _ rfl)
  next => cases pushed

theorem changesOnly_pop {address : Word} (bounded : r.Bounded) (popped : r.pop = (.ok address, s))
    (sp : f.sp) : r.ChangesOnly f s := by
  obtain ⟨slot, top, rfl, rfl, below⟩ := pop_inv bounded popped
  exact ⟨fun _ _ => rfl, fun _ => rfl, fun outside => absurd sp outside, fun _ _ => rfl⟩

theorem length_upTo (r : Registers) (x : Fin 16) : (r.upTo x).length = x.val + 1 := by
  rw [upTo, List.length_take, Vector.length_toList]
  omega

theorem changesOnly_setUpTo {x : Fin 16} {values : List UInt8}
    (set : r.setUpTo x values = (.ok (), s)) (inside : ∀ j, j ≤ x → f.register j) :
    r.ChangesOnly f s := by
  unfold setUpTo at set
  split at set
  next long =>
    cases set
    refine ⟨fun j outside => ?_, fun _ => rfl, fun _ => rfl, fun _ _ => rfl⟩
    have beyond : values.length ≤ j.val := by
      have above : ¬ j ≤ x := fun below => outside (inside j below)
      omega
    rw [Cells.read_tabulate, List.getD_eq_getElem?_getD, List.getElem?_eq_none beyond]
    rfl
  next => cases set

end Registers

namespace Machine

/-- Everything outside the footprint but the program counter and the cycle is the same. A
timer inside it has only been set. -/
structure ChangesOnly (f : Footprint) (m n : Machine) : Prop where
  settings : n.settings = m.settings
  status : n.status = m.status
  stopRequested : n.stopRequested = m.stopRequested
  held : n.keypad.held = m.keypad.held
  registers : m.registers.ChangesOnly f n.registers
  place : ∀ address, ¬ f.place (address % memorySize) →
    n.memory.byte address = m.memory.byte address
  pixel : ∀ p, ¬ f.pixel p → n.screen.pixels.read p = m.screen.pixels.read p
  generation : ¬ f.generation → n.screen.generation = m.screen.generation
  delay : n.delay = m.delay ∨ f.delay ∧ ∃ value, n.delay = m.delay.set value
  sound : n.sound = m.sound ∨ f.sound ∧ ∃ value, n.sound = m.sound.set value
  latch : ¬ f.latch → n.keypad.latch = m.keypad.latch

variable {f : Footprint} {m n : Machine}

/-! ### Parts of a machine -/

theorem changesOnly_withRegisters {r : Registers} (changes : m.registers.ChangesOnly f r) :
    ChangesOnly f m (m.withRegisters r) where
  settings := rfl
  status := rfl
  stopRequested := rfl
  held := rfl
  registers := changes
  place _ _ := rfl
  pixel _ _ := rfl
  generation _ := rfl
  delay := Or.inl rfl
  sound := Or.inl rfl
  latch _ := rfl

theorem changesOnly_refl (f : Footprint) (m : Machine) : ChangesOnly f m m :=
  changesOnly_withRegisters (m.registers.changesOnly_withPc m.registers.pc)

/-- Moving on changes nothing but the program counter. -/
theorem ChangesOnly.advance (changes : ChangesOnly f m n) : ChangesOnly f m n.advance :=
  { changes with registers := changes.registers.trans (Registers.changesOnly_withPc _ _) }

theorem changesOnly_withMemory {memory : Memory} {address : Nat} {bytes : List UInt8}
    (written : m.memory.writeBytes address bytes = (.ok (), memory))
    (inside : ∀ place, Memory.window address bytes.length place → f.place place) :
    ChangesOnly f m { m with memory } :=
  { changesOnly_refl f m with
    place := fun _ outside => Memory.byte_writeBytes_outside written
      fun within => outside (inside _ within) }

theorem changesOnly_setDelay (value : UInt8) (inside : f.delay) :
    ChangesOnly f m { m with delay := m.delay.set value } :=
  { changesOnly_refl f m with delay := Or.inr ⟨inside, value, rfl⟩ }

theorem changesOnly_setSound (value : UInt8) (inside : f.sound) :
    ChangesOnly f m { m with sound := m.sound.set value } :=
  { changesOnly_refl f m with sound := Or.inr ⟨inside, value, rfl⟩ }

/-! ### Instructions -/

theorem changesOnly_executePlain {op : PlainOp} (bounded : m.registers.Bounded)
    (done : m.executePlain op = (.ok (), n)) :
    ChangesOnly (Instruction.footprint m.registers (.plain op)) m n := by
  cases op with
  | clearScreen =>
    cases done
    exact { changesOnly_refl _ m with
      pixel := fun _ outside => absurd trivial outside
      generation := fun outside => absurd trivial outside }
  | ret =>
    obtain ⟨address, _, ended, rest⟩ := Attempt.exists_of_andThen_eq_ok done
    obtain ⟨registers, popped, rfl⟩ := Attempt.exists_of_within_eq_ok ended
    cases rest
    have changes := Registers.changesOnly_pop (f := Instruction.footprint m.registers (.plain .ret))
      bounded popped trivial
    exact changesOnly_withRegisters (changes.trans (Registers.changesOnly_withPc _ _))

theorem changesOnly_executeAddress {op : AddressOp} {a : Word}
    (done : m.executeAddress a op = (.ok (), n)) :
    ChangesOnly (Instruction.footprint m.registers (.address op a)) m n := by
  cases op with
  | jump =>
    cases done
    exact changesOnly_withRegisters (Registers.changesOnly_branch _ _)
  | call =>
    obtain ⟨_, _, ended, rest⟩ := Attempt.exists_of_andThen_eq_ok done
    obtain ⟨registers, pushed, rfl⟩ := Attempt.exists_of_within_eq_ok ended
    cases rest
    have changes := Registers.changesOnly_push
      (f := Instruction.footprint m.registers (.address .call a)) pushed trivial fun _ same => same
    exact changesOnly_withRegisters (changes.trans (Registers.changesOnly_branch _ _))
  | setIndex =>
    cases done
    exact changesOnly_withRegisters (Registers.changesOnly_withIndex _ _ trivial)
  | jumpOffset =>
    cases done
    exact changesOnly_withRegisters (Registers.changesOnly_branch _ _)

theorem changesOnly_executeImmediate {op : ImmediateOp} {x : UInt64} {j : Fin 16}
    (named : Names x j) (random b : UInt8) :
    ChangesOnly (Instruction.footprint m.registers (.immediate op x b)) m
      (m.executeImmediate random j b op) := by
  cases op with
  | skipEqual => exact changesOnly_withRegisters (Registers.changesOnly_skipIf _ _)
  | skipDiffer => exact changesOnly_withRegisters (Registers.changesOnly_skipIf _ _)
  | set => exact changesOnly_withRegisters (Registers.changesOnly_setV _ _ named)
  | add => exact changesOnly_withRegisters (Registers.changesOnly_setV _ _ named)
  | random => exact changesOnly_withRegisters (Registers.changesOnly_setV _ _ named)

theorem changesOnly_executeCompare {op : CompareOp} {x y : UInt64} (j k : Fin 16) :
    ChangesOnly (Instruction.footprint m.registers (.compare op x y)) m
      (m.executeCompare j k op) := by
  cases op with
  | skipEqual => exact changesOnly_withRegisters (Registers.changesOnly_skipIf _ _)
  | skipDiffer => exact changesOnly_withRegisters (Registers.changesOnly_skipIf _ _)

theorem changesOnly_executeDraw {x y : UInt64} {column row : Fin 16} {height : UInt8}
    (full : m.memory.Full) (namedX : Names x column) (namedY : Names y row)
    (done : m.executeDraw column row height = (.ok (), n)) :
    ChangesOnly (Instruction.footprint m.registers (.draw x y height)) m n := by
  obtain ⟨sprite, read, rest⟩ := Attempt.exists_of_finding_eq_ok done
  cases rest
  -- The sprite is as high as the operand says, wherever in memory it has been read.
  have long : sprite.length = height.toNat := by
    rw [Memory.readBytes_eq full] at read
    cases read
    rw [List.length_map, List.length_range]
  exact { changesOnly_refl _ m with
    registers := m.registers.changesOnly_setV _ rfl
    pixel := fun p outside => by
      apply Screen.read_draw_outside
      rw [long]
      exact fun within => outside ⟨column, row, namedX, namedY, within⟩
    generation := fun outside => absurd trivial outside }

theorem exists_of_store_eq_ok {bytes : List UInt8}
    (done : executeRegister.store m bytes = (.ok .done, n)) :
    ∃ memory, m.memory.writeBytes m.registers.i.toNat bytes = (.ok (), memory) ∧
      { m with memory } = n := by
  obtain ⟨_, _, ended, rest⟩ := Attempt.exists_of_andThen_eq_ok done
  obtain ⟨memory, written, rfl⟩ := Attempt.exists_of_within_eq_ok ended
  cases rest
  exact ⟨memory, written, rfl⟩

/-- Every operation on one register but the wait for a key. -/
theorem changesOnly_executeRegister {op : RegisterOp} {x : UInt64} {j : Fin 16}
    (named : Names x j)
    (done : m.executeRegister j op = (.ok .done, n)) :
    ChangesOnly (Instruction.footprint m.registers (.register op x)) m n := by
  cases op with
  | skipPressed =>
    cases done
    exact changesOnly_withRegisters (Registers.changesOnly_skipIf _ _)
  | skipReleased =>
    cases done
    exact changesOnly_withRegisters (Registers.changesOnly_skipIf _ _)
  | readDelay =>
    cases done
    exact changesOnly_withRegisters (Registers.changesOnly_setV _ _ named)
  | waitKey => cases done
  | setDelay =>
    cases done
    exact changesOnly_setDelay _ trivial
  | setSound =>
    cases done
    split
    · exact changesOnly_refl _ m
    · exact changesOnly_setSound _ trivial
  | addIndex =>
    cases done
    exact changesOnly_withRegisters (Registers.changesOnly_addIndex _ _ rfl trivial)
  | pointGlyph =>
    cases done
    exact changesOnly_withRegisters (Registers.changesOnly_withIndex _ _ trivial)
  | storeDecimal =>
    obtain ⟨memory, written, rfl⟩ := exists_of_store_eq_ok done
    exact changesOnly_withMemory written fun _ within => within
  | storeRegisters =>
    obtain ⟨memory, written, rfl⟩ := exists_of_store_eq_ok done
    -- As many bytes are stored as there are registers up to this one.
    refine changesOnly_withMemory written fun place within => ?_
    rw [Registers.length_upTo, named.val_eq] at within
    exact within
  | loadRegisters =>
    obtain ⟨values, read, rest⟩ := Attempt.exists_of_finding_eq_ok done
    obtain ⟨_, _, ended, rest⟩ := Attempt.exists_of_andThen_eq_ok rest
    obtain ⟨registers, set, rfl⟩ := Attempt.exists_of_within_eq_ok ended
    cases rest
    refine changesOnly_withRegisters (Registers.changesOnly_setUpTo set ?_)
    intro k below
    exact Nat.le_trans below (Nat.le_of_eq named.val_eq)

/-- Drawing leaves a new picture and a new flag, wherever its operands say. -/
theorem exists_of_execute_draw {random : UInt8} {x y : UInt64} {height : UInt8}
    (done : m.execute random (.draw x y height) = (.ok .done, n)) :
    ∃ column row sprite flag, n = { m with
      screen := (m.screen.draw column row sprite).2
      registers := m.registers.setV Registers.vF flag } := by
  obtain ⟨x, _, rest⟩ := Attempt.exists_of_finding_eq_ok done
  obtain ⟨y, _, rest⟩ := Attempt.exists_of_finding_eq_ok rest
  obtain ⟨_, drawn, executed, rest⟩ := Attempt.exists_of_andThen_eq_ok rest
  obtain ⟨sprite, _, drawing⟩ := Attempt.exists_of_finding_eq_ok executed
  cases rest
  cases drawing
  exact ⟨_, _, sprite, _, rfl⟩

/-- Executing an instruction changes nothing outside its footprint. -/
theorem changesOnly_execute {i : Instruction} (wellFormed : m.WellFormed) {random : UInt8}
    (done : m.execute random i = (.ok .done, n)) :
    ChangesOnly (i.footprint m.registers) m n := by
  -- The operands are looked up first; what they name is what the footprint names.
  cases i with
  | plain op =>
    obtain ⟨_, _, executed, rest⟩ := Attempt.exists_of_andThen_eq_ok done
    cases rest
    exact changesOnly_executePlain wellFormed.registers executed
  | address op a =>
    obtain ⟨_, _, executed, rest⟩ := Attempt.exists_of_andThen_eq_ok done
    cases rest
    exact changesOnly_executeAddress executed
  | immediate op x b =>
    obtain ⟨j, named, rest⟩ := Attempt.exists_of_finding_eq_ok done
    cases rest
    exact changesOnly_executeImmediate named random b
  | compare op x y =>
    obtain ⟨j, namedX, rest⟩ := Attempt.exists_of_finding_eq_ok done
    obtain ⟨k, namedY, rest⟩ := Attempt.exists_of_finding_eq_ok rest
    cases rest
    exact changesOnly_executeCompare j k
  | arithmetic op x y =>
    obtain ⟨j, named, rest⟩ := Attempt.exists_of_finding_eq_ok done
    obtain ⟨k, _, rest⟩ := Attempt.exists_of_finding_eq_ok rest
    cases rest
    exact changesOnly_withRegisters (Registers.changesOnly_arithmetic _ op k (Or.inl named)
      fun flags => Or.inr ⟨flags, rfl⟩)
  | draw x y height =>
    obtain ⟨column, namedX, rest⟩ := Attempt.exists_of_finding_eq_ok done
    obtain ⟨row, namedY, rest⟩ := Attempt.exists_of_finding_eq_ok rest
    obtain ⟨_, drawn, executed, rest⟩ := Attempt.exists_of_andThen_eq_ok rest
    cases rest
    exact changesOnly_executeDraw wellFormed.memory namedX namedY executed
  | register op x =>
    obtain ⟨j, named, executed⟩ := Attempt.exists_of_finding_eq_ok done
    exact changesOnly_executeRegister named executed

end Machine

end Chip8
