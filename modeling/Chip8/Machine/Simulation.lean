import Chip8.Machine.Execution

/-!
# What has no influence

Execution reads the registers, the memory, the keys, the pixels and the value of the
delay timer; between two ticks one looks at the status and the stop flag as well. Nobody
looks at the settings, at the counters of cycles and draws, or at what the clocks of the
timers are about to do. To say what has no influence is to relate machines that differ
in it: they agree on all that is read, and they stay related if the same is written to
both. Whatever is made of such reads and writes then does the same on both.

Even the registers need not be the same. It is enough that they stand for the same place
in memory and that pushes and pops do the same on both. Only a sum in the index register
shows more of it than that place, so there one has to know the sums to be related.
-/
namespace Chip8

namespace Attempt

variable {State Whole Found Result Last : Type}

/-- The same result or error, and related states. -/
structure Related (R : State → State → Prop) (first second : Attempt State Result) : Prop where
  result : second.1 = first.1
  state : R first.2 second.2

theorem Related.andThen {R : State → State → Prop} {first second : Attempt State Result}
    (related : Related R first second) {f g : Result → State → Attempt State Last}
    (later : ∀ result s t, R s t → Related R (f result s) (g result t)) :
    Related R (first.andThen f) (second.andThen g) := by
  obtain ⟨ended, s⟩ := first
  obtain ⟨other, t⟩ := second
  obtain ⟨result, state⟩ := related
  simp only at result state
  subst result
  cases other with
  | error abort => exact ⟨rfl, state⟩
  | ok value => exact later value s t state

theorem Related.within {R : State → State → Prop} {S : Whole → Whole → Prop}
    {first second : Attempt State Result} (related : Related R first second)
    {put other : State → Whole} (whole : ∀ s t, R s t → S (put s) (other t)) :
    Related S (first.within put) (second.within other) :=
  ⟨related.result, whole _ _ related.state⟩

theorem Related.finding {R : State → State → Prop} {s t : State} (related : R s t)
    (found : Except Abort Found) {f g : Found → Attempt State Result}
    (later : ∀ value, Related R (f value) (g value)) :
    Related R (Attempt.finding s found f) (Attempt.finding t found g) := by
  cases found with
  | error abort => exact ⟨rfl, related⟩
  | ok value => exact later value

end Attempt

open Attempt (Related)

namespace Registers

/-- A relation of registers that agree on all that is read outside the stack, and stay
related if the same is done to both. -/
structure Congruence (Q : Registers → Registers → Prop) : Prop where
  v {r s : Registers} (alike : Q r s) : s.v = r.v
  pc {r s : Registers} (alike : Q r s) : s.pc = r.pc
  place {r s : Registers} (alike : Q r s) : s.i.toNat % memorySize = r.i.toNat % memorySize
  withV {r s : Registers} (alike : Q r s) (v : Cells UInt8 16) : Q { r with v } { s with v }
  withPc {r s : Registers} (alike : Q r s) (pc : Word) : Q { r with pc } { s with pc }
  withIndex {r s : Registers} (alike : Q r s) (i : Word) : Q { r with i } { s with i }
  push {r s : Registers} (alike : Q r s) (address : Word) :
    Related Q (r.push address) (s.push address)
  pop {r s : Registers} (alike : Q r s) : Related Q r.pop s.pop

theorem congruence_eq : Congruence Eq where
  v alike := congrArg Registers.v alike.symm
  pc alike := congrArg Registers.pc alike.symm
  place alike := congrArg (fun r => r.i.toNat % memorySize) alike.symm
  withV alike v := congrArg (fun r => { r with v }) alike
  withPc alike pc := congrArg (fun r => { r with pc }) alike
  withIndex alike i := congrArg (fun r => { r with i }) alike
  push alike _ := alike ▸ ⟨rfl, rfl⟩
  pop alike := alike ▸ ⟨rfl, rfl⟩

namespace Congruence

variable {Q : Registers → Registers → Prop} (congruence : Congruence Q) {r s : Registers}
  (alike : Q r s)
include congruence alike

theorem read (x : Fin 16) : s.v.read x = r.v.read x :=
  congrArg (fun v => v.read x) (congruence.v alike)

theorem setV (x : Fin 16) (value : UInt8) : Q (r.setV x value) (s.setV x value) := by
  unfold Registers.setV
  rw [congruence.v alike]
  exact congruence.withV alike _

theorem advance : Q r.advance s.advance := by
  unfold Registers.advance
  rw [congruence.pc alike]
  exact congruence.withPc alike _

theorem skipIf (condition : Bool) : Q (r.skipIf condition) (s.skipIf condition) := by
  unfold Registers.skipIf
  rw [congruence.pc alike]
  exact congruence.withPc alike _

theorem branch (target : Word) : Q (r.branch target) (s.branch target) :=
  congruence.withPc alike _

theorem arithmetic (op : ArithmeticOp) (x y : Fin 16) :
    Q (r.arithmetic op x y) (s.arithmetic op x y) := by
  unfold Registers.arithmetic
  simp only [congruence.v alike]
  cases (op.compute (r.v.read x) (r.v.read y)).2 with
  | none => exact congruence.setV alike x _
  | some flag => exact congruence.setV (congruence.setV alike vF flag) x _

theorem upTo (x : Fin 16) : s.upTo x = r.upTo x :=
  congrArg (fun v : Cells UInt8 16 => v.toList.take (x.val + 1)) (congruence.v alike)

theorem setUpTo (x : Fin 16) (values : List UInt8) :
    Related Q (r.setUpTo x values) (s.setUpTo x values) := by
  unfold Registers.setUpTo
  rw [congruence.v alike]
  by_cases long : values.length = x.val + 1
  · simp only [long, if_true]
    exact ⟨rfl, congruence.withV alike _⟩
  · simp only [long, if_false]
    exact ⟨rfl, alike⟩

end Congruence

end Registers

namespace Machine

/-- A relation of machines that agree on what is read outside the registers, and stay
related if the same is written to both there. -/
structure Agreement (R : Machine → Machine → Prop) : Prop where
  memory {m n : Machine} (related : R m n) : n.memory = m.memory
  keypad {m n : Machine} (related : R m n) : n.keypad = m.keypad
  pixels {m n : Machine} (related : R m n) : n.screen.pixels = m.screen.pixels
  delay {m n : Machine} (related : R m n) : n.delay.value = m.delay.value
  status {m n : Machine} (related : R m n) : n.status = m.status
  stopRequested {m n : Machine} (related : R m n) : n.stopRequested = m.stopRequested
  withMemory {m n : Machine} (related : R m n) (memory : Memory) :
    R { m with memory } { n with memory }
  withKeypad {m n : Machine} (related : R m n) (keypad : Keypad) :
    R { m with keypad } { n with keypad }
  withStatus {m n : Machine} (related : R m n) (status : Status) :
    R { m with status } { n with status }
  withStop {m n : Machine} (related : R m n) (stopRequested : Bool) :
    R { m with stopRequested } { n with stopRequested }
  redraw {m n : Machine} (related : R m n) (pixels : Cells Bool 2048) :
    R { m with screen := { m.screen with pixels }.bump }
      { n with screen := { n.screen with pixels }.bump }
  setDelay {m n : Machine} (related : R m n) (value : UInt8) :
    R { m with delay := m.delay.set value } { n with delay := n.delay.set value }
  setSound {m n : Machine} (related : R m n) (value : UInt8) :
    R { m with sound := m.sound.set value } { n with sound := n.sound.set value }
  countDownDelay {m n : Machine} (related : R m n) :
    R { m with delay := m.delay.countDown } { n with delay := n.delay.countDown }
  countDownSound {m n : Machine} (related : R m n) :
    R { m with sound := m.sound.countDown } { n with sound := n.sound.countDown }
  count {m n : Machine} (related : R m n) :
    R { m with cycle := m.cycle + 1 } { n with cycle := n.cycle + 1 }

/-- An agreement up to a relation of the registers, which may be written together. -/
structure Correspondence (Q : Registers → Registers → Prop) (R : Machine → Machine → Prop) : Prop
    extends Agreement R where
  congruence : Registers.Congruence Q
  registers {m n : Machine} (related : R m n) : Q m.registers n.registers
  withRegisters {m n : Machine} (related : R m n) {r s : Registers} (alike : Q r s) :
    R (m.withRegisters r) (n.withRegisters s)

namespace Correspondence

variable {Q : Registers → Registers → Prop} {R : Machine → Machine → Prop}
  (correspondence : Correspondence Q R) {m n : Machine} (related : R m n)
include correspondence related

theorem read (x : Fin 16) : n.registers.v.read x = m.registers.v.read x :=
  correspondence.congruence.read (correspondence.registers related) x

theorem setIndex (a : Word) : R (m.setIndex a) (n.setIndex a) :=
  correspondence.withRegisters related
    (correspondence.congruence.withIndex (correspondence.registers related) a)

theorem setV (x : Fin 16) (value : UInt8) :
    R (m.withRegisters (m.registers.setV x value)) (n.withRegisters (n.registers.setV x value)) :=
  correspondence.withRegisters related
    (correspondence.congruence.setV (correspondence.registers related) x value)

theorem skipIf (condition : Bool) :
    R (m.withRegisters (m.registers.skipIf condition))
      (n.withRegisters (n.registers.skipIf condition)) :=
  correspondence.withRegisters related
    (correspondence.congruence.skipIf (correspondence.registers related) condition)

theorem branch (target : Word) :
    R (m.withRegisters (m.registers.branch target)) (n.withRegisters (n.registers.branch target)) :=
  correspondence.withRegisters related
    (correspondence.congruence.branch (correspondence.registers related) target)

/-- Both machines read the same bytes at their index registers. -/
theorem readBytes (count : Nat) : n.memory.readBytes n.registers.i.toNat count =
    m.memory.readBytes m.registers.i.toNat count := by
  rw [correspondence.memory related]
  exact m.memory.readBytes_congr
    (correspondence.congruence.place (correspondence.registers related)) count

theorem writeBytes (bytes : List UInt8) : n.memory.writeBytes n.registers.i.toNat bytes =
    m.memory.writeBytes m.registers.i.toNat bytes := by
  rw [correspondence.memory related]
  exact m.memory.writeBytes_congr
    (correspondence.congruence.place (correspondence.registers related)) bytes

theorem executePlain (op : PlainOp) : Related R (m.executePlain op) (n.executePlain op) := by
  cases op with
  | clearScreen =>
    simp only [Machine.executePlain, Screen.clear_eq]
    exact ⟨rfl, correspondence.redraw related _⟩
  | ret =>
    have popped := correspondence.congruence.pop (correspondence.registers related)
    refine (popped.within fun _ _ => correspondence.withRegisters related).andThen ?_
    intro address m n related
    have alike := correspondence.registers related
    exact ⟨rfl, correspondence.withRegisters related (correspondence.congruence.withPc alike _)⟩

theorem executeAddress (a : Word) (op : AddressOp) :
    Related R (m.executeAddress a op) (n.executeAddress a op) := by
  have congruence := correspondence.congruence
  have alike := correspondence.registers related
  cases op with
  | jump => exact ⟨rfl, correspondence.branch related a⟩
  | call =>
    unfold Machine.executeAddress
    rw [congruence.pc alike]
    have pushed := congruence.push alike m.registers.pc
    refine (pushed.within fun _ _ => correspondence.withRegisters related).andThen ?_
    exact fun _ m n related => ⟨rfl, correspondence.branch related a⟩
  | setIndex => exact ⟨rfl, correspondence.setIndex related a⟩
  | jumpOffset =>
    unfold Machine.executeAddress
    rw [correspondence.read related]
    exact ⟨rfl, correspondence.branch related _⟩

theorem executeImmediate (random : UInt8) (x : Fin 16) (b : UInt8) (op : ImmediateOp) :
    R (m.executeImmediate random x b op) (n.executeImmediate random x b op) := by
  unfold Machine.executeImmediate
  rw [correspondence.read related]
  cases op with
  | skipEqual => exact correspondence.skipIf related _
  | skipDiffer => exact correspondence.skipIf related _
  | set => exact correspondence.setV related x _
  | add => exact correspondence.setV related x _
  | random => exact correspondence.setV related x _

theorem executeCompare (x y : Fin 16) (op : CompareOp) :
    R (m.executeCompare x y op) (n.executeCompare x y op) := by
  unfold Machine.executeCompare
  rw [correspondence.read related, correspondence.read related]
  cases op with
  | skipEqual => exact correspondence.skipIf related _
  | skipDiffer => exact correspondence.skipIf related _

theorem executeDraw (x y : Fin 16) (count : UInt8) :
    Related R (m.executeDraw x y count) (n.executeDraw x y count) := by
  unfold Machine.executeDraw
  rw [correspondence.readBytes related, correspondence.read related, correspondence.read related]
  refine .finding related _ fun sprite => ?_
  obtain ⟨hit, pixels, first, second⟩ := Screen.draw_congr (correspondence.pixels related)
    (m.registers.v.read x) (m.registers.v.read y) sprite
  rw [first, second]
  exact ⟨rfl, correspondence.setV (correspondence.redraw related pixels) Registers.vF _⟩

/-- Both machines write the same bytes at their index registers. -/
theorem store (bytes : List UInt8) :
    Related R (executeRegister.store m bytes) (executeRegister.store n bytes) := by
  unfold executeRegister.store
  rw [correspondence.writeBytes related]
  have written : Related R
      ((m.memory.writeBytes m.registers.i.toNat bytes).within m.withMemory)
      ((m.memory.writeBytes m.registers.i.toNat bytes).within n.withMemory) :=
    ⟨rfl, correspondence.withMemory related _⟩
  exact written.andThen fun _ _ _ related => ⟨rfl, related⟩

/-- A sum in the index register is only asked to be related if it is made. -/
theorem executeRegister (x : Fin 16) (op : RegisterOp)
    (sums : op = .addIndex → Q (m.registers.addIndex x) (n.registers.addIndex x)) :
    Related R (m.executeRegister x op) (n.executeRegister x op) := by
  have vx : executeRegister.vx n x = executeRegister.vx m x := correspondence.read related x
  unfold Machine.executeRegister
  -- What is written to both machines is computed from what they agree on.
  simp only [vx]
  cases op with
  | skipPressed =>
    rw [correspondence.keypad related]
    exact ⟨rfl, correspondence.skipIf related _⟩
  | skipReleased =>
    rw [correspondence.keypad related]
    exact ⟨rfl, correspondence.skipIf related _⟩
  | readDelay =>
    rw [correspondence.delay related]
    exact ⟨rfl, correspondence.setV related x _⟩
  | waitKey =>
    have keypad := congrArg Keypad.arm (correspondence.keypad related)
    rw [keypad]
    exact ⟨rfl, correspondence.withKeypad related _⟩
  | setDelay => exact ⟨rfl, correspondence.setDelay related _⟩
  | setSound =>
    by_cases short : executeRegister.vx m x = 1
    · simp only [short, if_true]
      exact ⟨rfl, related⟩
    · simp only [short, if_false]
      exact ⟨rfl, correspondence.setSound related _⟩
  | addIndex => exact ⟨rfl, correspondence.withRegisters related (sums rfl)⟩
  | pointGlyph => exact ⟨rfl, correspondence.setIndex related _⟩
  | storeDecimal => exact correspondence.store related _
  | storeRegisters =>
    rw [correspondence.congruence.upTo (correspondence.registers related)]
    exact correspondence.store related _
  | loadRegisters =>
    rw [correspondence.readBytes related]
    refine .finding related _ fun values => ?_
    have loaded := correspondence.congruence.setUpTo (correspondence.registers related) x values
    refine (loaded.within fun _ _ => correspondence.withRegisters related).andThen ?_
    exact fun _ _ _ related => ⟨rfl, related⟩

/-- Executing the same instruction ends in the same way on both machines, and keeps them
related. -/
theorem execute (random : UInt8) (i : Instruction)
    (sums : ∀ x j, i = .register .addIndex x → Registers.index x = .ok j →
      Q (m.registers.addIndex j) (n.registers.addIndex j)) :
    Related R (m.execute random i) (n.execute random i) := by
  have step {first second : Attempt Machine Unit} (ended : Related R first second) :
      Related R (first.andThen finish) (second.andThen finish) :=
    ended.andThen fun _ _ _ related => ⟨rfl, related⟩
  cases i with
  | plain op => exact step (correspondence.executePlain related op)
  | address op a => exact step (correspondence.executeAddress related a op)
  | immediate op x b =>
    exact .finding related _ fun x => ⟨rfl, correspondence.executeImmediate related random x b op⟩
  | compare op x y =>
    exact .finding related _ fun x => .finding related _ fun y =>
      ⟨rfl, correspondence.executeCompare related x y op⟩
  | arithmetic op x y =>
    have alike := correspondence.registers related
    exact .finding related _ fun x => .finding related _ fun y => ⟨rfl,
      correspondence.withRegisters related (correspondence.congruence.arithmetic alike op x y)⟩
  | draw x y count =>
    exact .finding related _ fun x => .finding related _ fun y =>
      step (correspondence.executeDraw related x y count)
  | register op x =>
    simp only [Machine.execute]
    cases named : Registers.index x with
    | error abort => exact ⟨rfl, related⟩
    | ok j =>
      refine correspondence.executeRegister related j op fun adds => ?_
      exact sums x j (by rw [adds]) named

end Correspondence

/-- A relation of machines that agree on what is read, and stay related if the same is
written to both. -/
structure Simulation (R : Machine → Machine → Prop) : Prop extends Agreement R where
  registers {m n : Machine} (related : R m n) : n.registers = m.registers
  withRegisters {m n : Machine} (related : R m n) (registers : Registers) :
    R (m.withRegisters registers) (n.withRegisters registers)

namespace Simulation

variable {R : Machine → Machine → Prop} (simulation : Simulation R)
include simulation

/-- Machines with the same registers are related up to equality of these. -/
theorem correspondence : Correspondence Eq R where
  toAgreement := simulation.toAgreement
  congruence := Registers.congruence_eq
  registers related := (simulation.registers related).symm
  withRegisters related _ _ alike := alike ▸ simulation.withRegisters related _

variable {m n : Machine} (related : R m n)
include related

theorem execute (random : UInt8) (i : Instruction) :
    Related R (m.execute random i) (n.execute random i) :=
  simulation.correspondence.execute related random i fun _ j _ _ =>
    congrArg (·.addIndex j) (simulation.registers related).symm

end Simulation

/-- A change of the machine that execution does not notice can as well be made afterwards. -/
theorem Simulation.execute_map {f : Machine → Machine}
    (simulation : Simulation fun m n => n = f m) (m : Machine) (random : UInt8)
    (i : Instruction) : (f m).execute random i = (m.execute random i).within f := by
  have ended := simulation.execute (m := m) rfl random i
  exact Prod.ext ended.result ended.state

end Machine

end Chip8
