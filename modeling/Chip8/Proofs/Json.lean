import Mathlib.Data.List.Forall2
import Chip8.Json

/-!
# Reading document values

A number in range has one way to be written, and a list is read item by item. So what has
been read tells what was written, and how much of it. A record is looked up field by field: it
does not tell in which order its fields stand, nor which others there are.
-/
namespace Chip8.Json

variable {α : Type} {read? : Json → Option α} {j : Json}

/-- Each value has one document that is read as it. -/
def Exact (read? : Json → Option α) (write : α → Json) : Prop :=
  ∀ (j : Json) (a : α), read? j = some a ↔ j = write a

variable {write : α → Json}

theorem Exact.bind_eq_some_iff {found : Option Json} {a : α} (inverse : Exact read? write) :
    found.bind read? = some a ↔ found = some (write a) := by
  rw [Option.bind_eq_some_iff]
  constructor
  · rintro ⟨j, rfl, read⟩
    rw [(inverse j a).mp read]
  · rintro rfl
    exact ⟨write a, rfl, (inverse _ a).mpr rfl⟩

/-! ### Numbers -/

theorem natBelow?_eq_some_iff {limit n : Nat} :
    j.natBelow? limit = some n ↔ j = .ofNat n ∧ n < limit := by
  constructor
  · intro found
    cases j with
    | integer whole =>
      -- In range there is no other whole number with the same natural number.
      simp only [natBelow?, Option.ite_none_right_eq_some, Option.some.injEq] at found
      obtain ⟨⟨positive, below⟩, rfl⟩ := found
      have same := Int.toNat_of_nonneg positive
      refine ⟨?_, by omega⟩
      rw [ofNat, same]
    | _ => cases found
  · rintro ⟨rfl, below⟩
    have inside : (0 : Int) ≤ n ∧ (n : Int) < limit :=
      ⟨Int.natCast_nonneg n, Int.ofNat_lt.mpr below⟩
    exact (if_pos inside).trans (congrArg some (Int.toNat_natCast n))

/-- Numbers of a fixed width are read exactly, whatever the width. -/
theorem exact_map_natBelow? {limit : Nat} {number : α → Nat} {value : Nat → α}
    (below : ∀ a, number a < limit) (back : ∀ a, value (number a) = a)
    (forth : ∀ n, n < limit → number (value n) = n) :
    Exact (fun j => (j.natBelow? limit).map value) fun a => .ofNat (number a) := by
  intro j a
  rw [Option.map_eq_some_iff]
  constructor
  · rintro ⟨n, found, rfl⟩
    obtain ⟨rfl, small⟩ := natBelow?_eq_some_iff.mp found
    exact congrArg ofNat (forth n small).symm
  · rintro rfl
    exact ⟨number a, natBelow?_eq_some_iff.mpr ⟨rfl, below a⟩, back a⟩

theorem exact_uint8? : Exact uint8? fun byte => .ofNat byte.toNat :=
  exact_map_natBelow? UInt8.toNat_lt (fun _ => UInt8.ofNat_toNat)
    fun _ small => UInt8.toNat_ofNat_of_lt' small

theorem exact_uint16? : Exact uint16? fun w => .ofNat w.toNat :=
  exact_map_natBelow? UInt16.toNat_lt (fun _ => UInt16.ofNat_toNat)
    fun _ small => UInt16.toNat_ofNat_of_lt' small

theorem exact_uint64? : Exact uint64? fun count => .ofNat count.toNat :=
  exact_map_natBelow? UInt64.toNat_lt (fun _ => UInt64.ofNat_toNat)
    fun _ small => UInt64.toNat_ofNat_of_lt' small

/-! ### Lists -/

theorem mapM_eq_some_iff {β : Type} {f : β → Option α} {items : List β} {values : List α} :
    items.mapM f = some values ↔
      List.Forall₂ (fun item value => f item = some value) items values := by
  induction items generalizing values with
  | nil => cases values <;> simp
  | cons item rest ih =>
    rw [List.mapM_cons]
    cases first : f item with
    | none => cases values <;> simp [first]
    | some value =>
      cases others : rest.mapM f with
      | none => cases values <;> simp [first, ← ih, others]
      | some more => cases values <;> simp [first, ← ih, others]

theorem readAll?_eq_mapM (items : List Json) : readAll? read? items = items.mapM read? := by
  induction items with
  | nil => rfl
  | cons item rest ih =>
    rw [readAll?, List.mapM_cons, ih]

theorem Exact.list? (inverse : Exact read? write) :
    Exact (list? read?) fun values => .array (values.map write) := by
  intro j values
  cases j with
  | array items =>
    rw [Json.list?, readAll?_eq_mapM, mapM_eq_some_iff, array.injEq, ← List.forall₂_eq_eq_eq,
      List.forall₂_map_right_iff]
    simp only [inverse _ _]
  | _ => exact iff_of_false nofun nofun

/-- A list of bytes is read from their numbers, and from nothing else. -/
theorem list?_uint8?_eq_some_iff {bytes : List UInt8} :
    j.list? uint8? = some bytes ↔ j = .array (bytes.map fun byte => .ofNat byte.toNat) :=
  exact_uint8?.list? j bytes

theorem Exact.vector? {size : Nat} (inverse : Exact read? write) :
    Exact (vector? read? size) fun values => .array (values.toList.map write) := by
  intro j values
  rw [Json.vector?, Option.bind_eq_bind, Option.bind_eq_some_iff]
  constructor
  · rintro ⟨items, found, sized⟩
    split at sized
    next =>
      cases sized
      exact (inverse.list? j items).mp found
    next => cases sized
  · rintro rfl
    refine ⟨values.toList, (inverse.list? _ _).mpr rfl, ?_⟩
    rw [dif_pos (by simp)]
    simp [Vector.toList]

/-! ### Fields -/

/-- The fields wanted are among the fields of an object, each of them once. -/
def Gives (fields wanted : List (String × Json)) : Prop :=
  ∀ field ∈ wanted, field? field.1 fields = some field.2

@[simp] theorem gives_nil (fields : List (String × Json)) : Gives fields [] := nofun

@[simp] theorem gives_cons_iff {fields wanted : List (String × Json)} {name : String}
    {value : Json} :
    Gives fields ((name, value) :: wanted) ↔
      field? name fields = some value ∧ Gives fields wanted :=
  List.forall_mem_cons

theorem field?_eq_some_iff {name : String} {fields : List (String × Json)} {value : Json} :
    field? name fields = some value ↔
      fields.filter (fun field => field.1 == name) = [(name, value)] := by
  unfold field?
  split
  next other found alone =>
    -- What the filter has let through has the name that was asked for.
    have named : other = name := by
      have member : (other, found) ∈ fields.filter (fun field => field.1 == name) := by simp [alone]
      simpa using (List.mem_filter.mp member).2
    simp [alone, named]
  next several => exact iff_of_false nofun (several name value)

/-- Fields with names of their own are all found. -/
theorem gives_self {fields : List (String × Json)} (distinct : (fields.map Prod.fst).Nodup) :
    Gives fields fields := by
  rintro ⟨name, value⟩ member
  obtain ⟨front, rest, rfl⟩ := List.append_of_mem member
  rw [List.map_append, List.map_cons, List.perm_middle.nodup_iff, List.nodup_cons,
    ← List.map_append] at distinct
  have others : ∀ field ∈ front ++ rest, ¬(field.1 == name) := by
    intro field elsewhere same
    rw [beq_iff_eq] at same
    exact distinct.1 (List.mem_map.mpr ⟨field, elsewhere, same⟩)
  have alone : (front ++ rest).filter (fun field => field.1 == name) = [] :=
    List.filter_eq_nil_iff.mpr others
  rw [List.filter_append, List.append_eq_nil_iff] at alone
  rw [field?_eq_some_iff, List.filter_append, List.filter_cons_of_pos (by simp), alone.1, alone.2]
  rfl

theorem fields?_eq_some_iff {names : List String} {fields : List (String × Json)}
    {values : List Json} :
    fields? names fields = some values ↔
      names.length = values.length ∧ Gives fields (names.zip values) := by
  rw [fields?, mapM_eq_some_iff, List.forall₂_iff_zip]
  simp only [Gives, Prod.forall]

/-! ### Records -/

/-- The documents that give a record its fields: by their names, in any order and whatever other
fields there are, or all by their places. -/
inductive States (wanted : List (String × Json)) : Json → Prop
  | named {fields : List (String × Json)} (given : Gives fields wanted) :
      States wanted (.object fields)
  | placed : States wanted (.array (wanted.map Prod.snd))

theorem states_object_iff {fields wanted : List (String × Json)} :
    States wanted (.object fields) ↔ Gives fields wanted :=
  ⟨fun | .named given => given, .named⟩

theorem states_array_iff {items : List Json} {wanted : List (String × Json)} :
    States wanted (.array items) ↔ items = wanted.map Prod.snd := by
  constructor
  · intro stated
    cases stated
    rfl
  · rintro rfl
    exact .placed

theorem record?_eq_some_iff {names : List String} {values : List Json} :
    j.record? names = some values ↔
      names.length = values.length ∧ States (names.zip values) j := by
  cases j with
  | object fields => rw [record?, fields?_eq_some_iff, states_object_iff]
  | array items =>
    rw [record?, Option.ite_none_right_eq_some, Option.some.injEq, states_array_iff]
    constructor
    · rintro ⟨sized, rfl⟩
      exact ⟨sized.symm, (List.map_snd_zip (Nat.le_of_eq sized)).symm⟩
    · rintro ⟨sized, rfl⟩
      rw [List.map_snd_zip (Nat.le_of_eq sized.symm)]
      exact ⟨sized.symm, rfl⟩
  | _ => exact iff_of_false nofun nofun

/-! ### Records with one field -/

/-- The documents that give a record's only field this value: under its name, whatever other
fields there are, or by its place alone. -/
inductive Holds (name : String) : Json → Json → Prop
  | named {fields : List (String × Json)} {value : Json} (once : field? name fields = some value) :
      Holds name (.object fields) value
  | placed (value : Json) : Holds name (.array [value]) value

theorem Holds.unique {name : String} {value other : Json} (held : j.Holds name value)
    (also : j.Holds name other) : other = value := by
  cases held with
  | named once =>
    cases also with
    | named again => exact Option.some.inj (again.symm.trans once)
  | placed value =>
    cases also with
    | placed other => rfl

theorem states_singleton_iff {name : String} {value : Json} :
    States [(name, value)] j ↔ j.Holds name value := by
  constructor
  · intro stated
    cases stated with
    | named given => exact .named (given _ List.mem_cons_self)
    | placed => exact .placed value
  · intro held
    cases held with
    | named once => exact .named fun _ member => List.mem_singleton.mp member ▸ once
    | placed => exact .placed

theorem record?_singleton_eq_some_iff {name : String} {values : List Json} :
    j.record? [name] = some values ↔ ∃ value, values = [value] ∧ j.Holds name value := by
  rw [record?_eq_some_iff, List.length_singleton, eq_comm, List.length_eq_one_iff]
  constructor
  · rintro ⟨⟨value, rfl⟩, stated⟩
    exact ⟨value, rfl, states_singleton_iff.mp stated⟩
  · rintro ⟨value, rfl, held⟩
    exact ⟨⟨value, rfl⟩, states_singleton_iff.mpr held⟩

/-! ### Cases -/

/-- The documents that name a case: the name alone, where that is enough, or the name with what
the case contains. -/
inductive Case (name : String) (enough : Prop) (content : Json → Prop) : Json → Prop
  | bare (alone : enough) : Case name enough content (.string name)
  | filled {value : Json} (given : content value) :
      Case name enough content (.object [(name, value)])

theorem case_object_iff {name : String} {enough : Prop} {content : Json → Prop}
    {fields : List (String × Json)} :
    Case name enough content (.object fields) ↔
      ∃ value, fields = [(name, value)] ∧ content value := by
  constructor
  · intro named
    cases named with
    | filled given => exact ⟨_, rfl, given⟩
  · rintro ⟨value, rfl, given⟩
    exact .filled given

theorem caseName?_eq_some_iff {name : String} :
    j.caseName? = some name ↔ Case name True (· = .null) j := by
  unfold caseName?
  split
  next other =>
    constructor
    · rintro ⟨⟩
      exact .bare trivial
    · rintro ⟨⟩
      rfl
  next other =>
    rw [case_object_iff]
    simp [eq_comm]
  next neither filled =>
    refine iff_of_false nofun ?_
    intro named
    cases named with
    | bare => exact neither _ rfl
    | filled given =>
      cases given
      exact filled _ rfl

end Chip8.Json
