import Mathlib.Data.List.Nodup
import Chip8.Snapshot
import Chip8.Proofs.Json.Edits
import Chip8.Proofs.Memory.Restored

/-!
# Snapshots lose nothing

Which documents stand for a value is told here without a reader: a case by its name, with the
fields of what it contains, and a record by its fields. Names are told apart, so that no document
stands for two values, and what is written is one of the documents that stand for the value.
Edits that readers do not notice lead from one such document to another.
-/
namespace Chip8

open Json (Case Edit Gives Lossless Rigid States Vocabulary)

variable {j : Json}

/-! ### Names -/

theorem find?_name_eq_some_iff {α : Type} {all : List α} {name : α → String}
    (complete : ∀ a, a ∈ all) (distinct : (all.map name).Nodup) {text : String} {a : α} :
    (all.find? fun b => name b == text) = some a ↔ name a = text := by
  constructor
  · intro found
    simpa using List.find?_some found
  · rintro rfl
    cases found : all.find? fun b => name b == name a with
    | none => simpa using List.find?_eq_none.mp found a (complete a)
    | some b =>
      have same : name b = name a := by simpa using List.find?_some found
      rw [List.inj_on_of_nodup_map distinct (complete b) (complete a) same]

/-- Values that are written as their names are read from them. -/
theorem bind_caseName?_eq_some_iff {α : Type} {all : List α} {name : α → String}
    (complete : ∀ a, a ∈ all) (distinct : (all.map name).Nodup) {a : α} :
    (j.caseName?.bind fun text => all.find? fun b => name b == text) = some a ↔
      Case (name a) True (· = .null) j := by
  rw [← Json.caseName?_eq_some_iff, Option.bind_eq_some_iff]
  simp only [find?_name_eq_some_iff complete distinct]
  constructor
  · rintro ⟨_, named, rfl⟩
    exact named
  · intro named
    exact ⟨_, named, rfl⟩

/-! ### Regions and status -/

theorem Region.ofJson?_eq_some_iff {r : Region} :
    ofJson? j = some r ↔ Case r.name True (· = .null) j :=
  bind_caseName?_eq_some_iff (fun r => by cases r <;> decide) (by decide)

theorem Status.ofJson?_eq_some_iff {s : Status} :
    ofJson? j = some s ↔ Case s.name True (· = .null) j :=
  bind_caseName?_eq_some_iff (fun s => by cases s <;> decide) (by decide)

/-! ### Instructions -/

namespace Operation

theorem ofName?_eq_some_iff {text : String} {op : Operation} :
    ofName? text = some op ↔ op.name = text :=
  find?_name_eq_some_iff mem_all (by decide)

theorem name_inj {op other : Operation} (same : op.name = other.name) : op = other :=
  Option.some.inj ((ofName?_eq_some_iff.mpr same).symm.trans (ofName?_eq_some_iff.mpr rfl))

/-- The names of the operands that the operation takes. -/
def operandNames (op : Operation) : List String :=
  (op.instruction { }).operandFields.map Prod.fst

end Operation

namespace Instruction

variable {i : Instruction} {fields : List (String × Json)}

/-- What a case contains: nothing, for an operation without operands, or these operands. -/
inductive Content : Instruction → Json → Prop
  | nothing {op : PlainOp} : Content (.plain op) .null
  | operands {i : Instruction} {fields : List (String × Json)} (taken : i.operandFields ≠ [])
      (given : Gives fields i.operandFields) : Content i (.object fields)

/-- The documents that stand for an instruction. -/
def Stands (i : Instruction) : Json → Prop :=
  Case i.operation.name (i.operandFields = []) i.Content

/-- The names that are looked for: those of the operands, in the object under the name of an
operation. -/
def vocabulary : Vocabulary :=
  fun path name => ∀ op : Operation, path = [op.name] → name ∈ op.operandNames

theorem operandNames_operation (i : Instruction) :
    i.operation.operandNames = i.operandFields.map Prod.fst := by
  cases i with
  | arithmetic op x y => cases op <;> rfl
  | _ => rfl

theorem eq_plain_of_operandFields (none : i.operandFields = []) : ∃ op, i = .plain op := by
  cases i with
  | plain op => exact ⟨op, rfl⟩
  | arithmetic op x y => cases op <;> simp [operandFields] at none
  | _ => simp [operandFields] at none

theorem distinct_operandNames (op : Operation) : op.operandNames.Nodup := by
  have each : ∀ op ∈ Operation.all, op.operandNames.Nodup := by decide
  exact each op op.mem_all

/-- A copy has the same operands as the rest of its group, in another order. -/
theorem gives_arithmetic_iff {op : ArithmeticOp} {x y : UInt64} :
    Gives fields (arithmetic op x y).operandFields ↔
      Gives fields [("x", .ofNat x.toNat), ("y", .ofNat y.toNat)] := by
  have swapped : ∀ field, field ∈ (arithmetic op x y).operandFields ↔
      field ∈ [("x", Json.ofNat x.toNat), ("y", Json.ofNat y.toNat)] := by
    intro field
    cases op <;> simp [operandFields, or_comm]
  simp only [Gives, swapped]

theorem rigid_operandFields (i : Instruction) : ∀ field ∈ i.operandFields, Rigid field.2 := by
  have numbers : ∀ field ∈ i.operandFields, ∃ n, field.2 = .ofNat n := by
    cases i with
    | arithmetic op x y => cases op <;> simp [operandFields]
    | _ => simp [operandFields]
  intro field member
  obtain ⟨n, same⟩ := numbers field member
  rw [same]
  exact Json.rigid_ofNat n

/-! ### Reading operands -/

theorem address?_eq_some_iff {name : String} {a : UInt16} :
    readOperands?.address? fields name = some a ↔ Json.field? name fields = some (.ofNat a.toNat) :=
  Json.exact_uint16?.bind_eq_some_iff

theorem byte?_eq_some_iff {name : String} {b : UInt8} :
    readOperands?.byte? fields name = some b ↔ Json.field? name fields = some (.ofNat b.toNat) :=
  Json.exact_uint8?.bind_eq_some_iff

theorem register?_eq_some_iff {name : String} {x : UInt64} :
    readOperands?.register? fields name = some x ↔
      Json.field? name fields = some (.ofNat x.toNat) :=
  Json.exact_uint64?.bind_eq_some_iff

theorem gives_of_readOperands? {op : Operation} (read : readOperands? fields op = some i) :
    i.operation = op ∧ i.operandFields ≠ [] ∧ Gives fields i.operandFields := by
  cases op <;>
    simp only [readOperands?, Option.bind_eq_bind, Option.bind_eq_some_iff, address?_eq_some_iff,
      byte?_eq_some_iff, register?_eq_some_iff, reduceCtorEq] at read
  case address op =>
    obtain ⟨a, first, ⟨⟩⟩ := read
    exact ⟨rfl, nofun, by simp [operandFields, first]⟩
  case immediate op =>
    obtain ⟨b, first, x, second, ⟨⟩⟩ := read
    exact ⟨rfl, nofun, by simp [operandFields, first, second]⟩
  case compare op =>
    obtain ⟨x, first, y, second, ⟨⟩⟩ := read
    exact ⟨rfl, nofun, by simp [operandFields, first, second]⟩
  case arithmetic op =>
    obtain ⟨x, first, y, second, ⟨⟩⟩ := read
    refine ⟨rfl, ?_, ?_⟩
    · cases op <;> simp [operandFields]
    · rw [gives_arithmetic_iff]
      simp [first, second]
  case draw =>
    obtain ⟨x, first, y, second, n, third, ⟨⟩⟩ := read
    exact ⟨rfl, nofun, by simp [operandFields, first, second, third]⟩
  case register op =>
    obtain ⟨x, first, ⟨⟩⟩ := read
    exact ⟨rfl, nofun, by simp [operandFields, first]⟩

theorem readOperands?_of_gives (taken : i.operandFields ≠ [])
    (given : Gives fields i.operandFields) : readOperands? fields i.operation = some i := by
  cases i with
  | plain op => exact absurd rfl taken
  | arithmetic op x y =>
    simp only [gives_arithmetic_iff, Json.gives_cons_iff, ← register?_eq_some_iff] at given
    simp [operation, readOperands?, given]
  | _ =>
    -- Each operand is found as what it is, so reading all of them makes the same instruction.
    simp only [operandFields, Json.gives_cons_iff, ← address?_eq_some_iff, ← byte?_eq_some_iff,
      ← register?_eq_some_iff] at given
    simp [operation, readOperands?, given]

/-! ### Documents of instructions -/

theorem content_object_iff :
    Content i (.object fields) ↔ i.operandFields ≠ [] ∧ Gives fields i.operandFields :=
  ⟨fun | .operands taken given => ⟨taken, given⟩, fun ⟨taken, given⟩ => .operands taken given⟩

/-- Where there is no object for operands, the name of an operation has to be enough. -/
theorem stands_iff_of_unfilled
    (unfilled : ∀ text fields, j = .object [(text, .object fields)] → False) :
    i.Stands j ↔ ∃ op, i = .plain op ∧ j.caseName? = some (Operation.plain op).name := by
  simp only [Json.caseName?_eq_some_iff]
  constructor
  · intro stands
    cases stands with
    | bare alone =>
      obtain ⟨op, rfl⟩ := eq_plain_of_operandFields alone
      exact ⟨op, rfl, .bare trivial⟩
    | filled given =>
      cases given with
      | nothing => exact ⟨_, rfl, .filled rfl⟩
      | operands => exact (unfilled _ _ rfl).elim
  · rintro ⟨op, rfl, named⟩
    cases named with
    | bare => exact .bare rfl
    | filled given =>
      cases given
      exact .filled .nothing

theorem ofJson?_eq_some_iff : ofJson? j = some i ↔ i.Stands j := by
  unfold ofJson?
  split
  next text fields =>
    rw [Option.bind_eq_some_iff, Stands, Json.case_object_iff]
    simp only [Operation.ofName?_eq_some_iff]
    constructor
    · rintro ⟨op, rfl, read⟩
      obtain ⟨rfl, taken, given⟩ := gives_of_readOperands? read
      exact ⟨_, rfl, .operands taken given⟩
    · rintro ⟨_, ⟨⟩, filled⟩
      obtain ⟨taken, given⟩ := content_object_iff.mp filled
      exact ⟨_, rfl, readOperands?_of_gives taken given⟩
  next unfilled =>
    rw [stands_iff_of_unfilled unfilled]
    simp only [Option.bind_eq_bind, Option.bind_eq_some_iff, Operation.ofName?_eq_some_iff]
    constructor
    · rintro ⟨_, named, op, rfl, read⟩
      cases op with
      | plain op =>
        cases read
        exact ⟨op, rfl, named⟩
      | _ => cases read
    · rintro ⟨op, rfl, named⟩
      exact ⟨_, named, .plain op, rfl, rfl⟩

theorem stands_toJson (i : Instruction) : i.Stands i.toJson := by
  have distinct : (i.operandFields.map Prod.fst).Nodup := by
    rw [← operandNames_operation]
    exact distinct_operandNames _
  unfold toJson
  split
  next op => exact .bare rfl
  next bare =>
    have taken : i.operandFields ≠ [] := by
      intro none
      obtain ⟨op, same⟩ := eq_plain_of_operandFields none
      exact bare op same
    exact .filled (.operands taken (Json.gives_self distinct))

theorem content_iff_of_edit {value other : Json}
    (edit : Edit vocabulary [i.operation.name] value other) :
    Content i value ↔ Content i other := by
  have looked : ∀ field ∈ i.operandFields, vocabulary [i.operation.name] field.1 := by
    intro field member op same
    obtain rfl := Operation.name_inj (List.singleton_inj.mp same)
    rw [operandNames_operation]
    exact List.mem_map_of_mem member
  rcases edit.objects_or_arrays with ⟨fields, others, rfl, rfl⟩ | ⟨items, others, rfl, rfl⟩
  · rw [content_object_iff, content_object_iff,
      Json.gives_iff_of_edit edit looked i.rigid_operandFields]
  · exact iff_of_false nofun nofun

/-- Nothing but the operands of an instruction can be edited. -/
theorem stands_iff_of_edit {k : Json} (edit : Edit vocabulary [] j k) : i.Stands j ↔ i.Stands k :=
  Json.case_iff_of_edit edit (fun _ _ => nofun) content_iff_of_edit

theorem lossless : Lossless toJson ofJson? vocabulary :=
  Json.lossless_of_iff ofJson?_eq_some_iff stands_toJson stands_iff_of_edit

end Instruction

/-! ### Registers and memory -/

namespace Registers

variable {r : Registers}

theorem rigid_fields (r : Registers) : ∀ field ∈ r.fields, Rigid field.2 := by
  simp only [fields, List.forall_mem_cons]
  exact ⟨Json.rigid_numbers _ _, Json.rigid_ofNat _, Json.rigid_ofNat _, Json.rigid_numbers _ _,
    Json.rigid_ofNat _, nofun⟩

theorem ofJson?_eq_some_iff : ofJson? j = some r ↔ States r.fields j := by
  unfold ofJson?
  rw [Option.bind_eq_bind, Option.bind_eq_some_iff]
  constructor
  · rintro ⟨values, record, read⟩
    obtain ⟨-, stated⟩ := Json.record?_eq_some_iff.mp record
    split at read
    next v i pc stack sp =>
      simp only [Option.bind_eq_bind, Option.bind_eq_some_iff, Json.exact_uint16? _ _,
        Json.exact_uint64? _ _, Json.exact_uint8?.vector? _ _,
        Json.exact_uint16?.vector? _ _] at read
      obtain ⟨v, rfl, i, rfl, pc, rfl, stack, rfl, sp, rfl, ⟨⟩⟩ := read
      exact stated
    next => cases read
  · intro stated
    have record : j.record? fieldNames = some (r.fields.map Prod.snd) :=
      Json.record?_eq_some_iff.mpr ⟨rfl, stated⟩
    refine ⟨_, record, ?_⟩
    simp only [fields, List.map_cons, List.map_nil, Option.bind_eq_bind,
      (Json.exact_uint8?.vector? _ r.v).mpr rfl, (Json.exact_uint16? _ r.i).mpr rfl,
      (Json.exact_uint16? _ r.pc).mpr rfl, (Json.exact_uint16?.vector? _ r.stack).mpr rfl,
      (Json.exact_uint64? _ r.sp).mpr rfl, Option.bind_some]
    rfl

theorem states_toJson (r : Registers) : States r.fields r.toJson := by
  have distinct : fieldNames.Nodup := by decide
  exact .named (Json.gives_self distinct)

theorem lossless : Lossless toJson ofJson? (.record fieldNames) := by
  refine Json.lossless_of_iff ofJson?_eq_some_iff states_toJson fun {r _ _} edit => ?_
  have looked : ∀ field ∈ r.fields, Vocabulary.record fieldNames [] field.1 :=
    fun _ member _ => List.mem_map_of_mem (f := Prod.fst) member
  exact Json.states_iff_of_edit edit looked r.rigid_fields

end Registers

theorem Memory.lossless : Lossless toJson ofJson? (.record ["memory"]) := by
  refine Json.lossless_of_iff (ofJson?_eq_some_iff.trans Json.states_singleton_iff.symm)
    (fun _ => .named (Json.gives_self (List.nodup_singleton _))) fun {m _ _} edit => ?_
  refine Json.states_iff_of_edit edit ?_ ?_
  · intro field member _
    exact List.mem_map_of_mem (f := Prod.fst) member
  · rintro _ (_ | ⟨_, ⟨⟩⟩)
    exact Json.rigid_numbers _ _

theorem Region.lossless : Lossless toJson ofJson? .all :=
  Json.lossless_of_iff ofJson?_eq_some_iff (fun _ => .bare trivial) Json.bare_case_iff_of_edit

theorem Status.lossless : Lossless toJson ofJson? .all :=
  Json.lossless_of_iff ofJson?_eq_some_iff (fun _ => .bare trivial) Json.bare_case_iff_of_edit

/-- A record may leave the names of its fields out and have them in their order. An instruction
may not: its operands are told by their names alone. -/
theorem only_records_are_placed :
    (∀ r : Registers, Registers.ofJson? (.array (r.fields.map Prod.snd)) = some r) ∧
      (∀ m : Memory, Memory.ofJson? (.array [.array (m.bytes.toList.map fun b => .ofNat b.toNat)]) =
        some m) ∧
      ∀ (name : String) (items : List Json) (i : Instruction),
        Instruction.ofJson? (.object [(name, .array items)]) ≠ some i := by
  refine ⟨fun r => Registers.ofJson?_eq_some_iff.mpr .placed,
    fun m => Memory.ofJson?_eq_some_iff.mpr (.placed _), fun name items i read => ?_⟩
  obtain ⟨_, ⟨⟩, content⟩ := Json.case_object_iff.mp (Instruction.ofJson?_eq_some_iff.mp read)
  cases content

/-- Every instruction, all registers, the status, the regions and any memory are read as what they
were when they were written. Whatever document can be read can be written anew: the new one is read
as the same value, and writing it once more changes nothing. The order of fields does not matter,
in no object of a document, nor do fields whose names are not looked for. -/
theorem snapshots_are_lossless :
    Lossless Instruction.toJson Instruction.ofJson? Instruction.vocabulary ∧
      Lossless Registers.toJson Registers.ofJson? (.record Registers.fieldNames) ∧
      Lossless Status.toJson Status.ofJson? .all ∧
      Lossless Region.toJson Region.ofJson? .all ∧
      Lossless Memory.toJson Memory.ofJson? (.record ["memory"]) :=
  ⟨Instruction.lossless, Registers.lossless, Status.lossless, Region.lossless, Memory.lossless⟩

/-- The registers of a copy stand in the order that is usual for other operations, with a field
between them that nobody looks for. -/
theorem copy_with_foreign_field :
    Instruction.ofJson? (.object [("mov", .object
      [("y", .ofNat 3), ("x of", .object []), ("x", .ofNat 18446744073709551615)])]) =
        some (.arithmetic .copy 18446744073709551615 3) := by
  have lossless := snapshots_are_lossless.1
  have unknown : ¬Instruction.vocabulary ["mov"] "x of" := by
    intro known
    exact absurd (known (.arithmetic .copy) rfl) (by decide)
  -- The foreign field is taken to the front and left out there.
  have aside : [("y", Json.ofNat 3), ("x of", .object []), ("x", .ofNat 18446744073709551615)].Perm
      [("x of", .object []), ("x", .ofNat 18446744073709551615), ("y", .ofNat 3)] :=
    (List.Perm.swap _ _ _).trans ((List.Perm.swap _ _ _).cons _)
  rw [← lossless.restored]
  apply lossless.unnoticed
  exact .trans _ _ _ (.rel _ _ (.inField (.reorder aside)))
    (.rel _ _ (.inField (.leaveOut unknown)))

end Chip8
