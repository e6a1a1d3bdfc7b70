import Mathlib.Logic.Relation
import Chip8.Proofs.Json

/-!
# Edits that readers do not notice

The fields of an object may be put into another order, and a field may be left out if nobody
looks for its name. Which names are looked for depends on the place of the object in the document.
Such an edit needs an object: numbers, texts and lists of numbers cannot be edited at all. So a
reader that wants such values under names that it knows finds the same before and after.
-/
namespace Chip8.Json

/-- The names that are looked for in an object, by the names of the fields in which it stands. -/
abbrev Vocabulary := List String → String → Prop

namespace Vocabulary

/-- A document without an object in which a name could be unknown. -/
def all : Vocabulary := fun _ _ => True

/-- A record that contains no further objects. -/
def record (names : List String) : Vocabulary :=
  fun path name => path = [] → name ∈ names

end Vocabulary

/-- One edit, in the document itself or in any part of it. The path leads from the whole document
to where the edited part stands. -/
inductive Edit (known : Vocabulary) : List String → Json → Json → Prop
  | reorder {path : List String} {fields others : List (String × Json)}
      (same : fields.Perm others) : Edit known path (.object fields) (.object others)
  | leaveOut {path : List String} {name : String} {value : Json} {fields : List (String × Json)}
      (unknown : ¬known path name) :
      Edit known path (.object ((name, value) :: fields)) (.object fields)
  | inField {path : List String} {name : String} {value other : Json}
      {fields : List (String × Json)} (inside : Edit known (path ++ [name]) value other) :
      Edit known path (.object ((name, value) :: fields)) (.object ((name, other) :: fields))
  | inItem {path : List String} {item other : Json} {front rest : List Json}
      (inside : Edit known path item other) :
      Edit known path (.array (front ++ item :: rest)) (.array (front ++ other :: rest))

variable {known : Vocabulary} {path : List String} {j k : Json}

/-- An edit takes place within an object or an array, which stays one. -/
theorem Edit.objects_or_arrays (edit : Edit known path j k) :
    (∃ fields others, j = .object fields ∧ k = .object others) ∨
      ∃ items others, j = .array items ∧ k = .array others := by
  cases edit with
  | inItem => exact .inr ⟨_, _, rfl, rfl⟩
  | _ => exact .inl ⟨_, _, rfl, rfl⟩

/-! ### Documents without objects -/

/-- No edit starts from the document, and none leads to it. -/
def Rigid (j : Json) : Prop :=
  ∀ known path other, ¬Edit known path j other ∧ ¬Edit known path other j

theorem rigid_ofNat (n : Nat) : Rigid (.ofNat n) :=
  fun _ _ _ => ⟨nofun, nofun⟩

theorem rigid_array {items : List Json} (rigid : ∀ item ∈ items, Rigid item) :
    Rigid (.array items) := by
  intro known path other
  constructor
  · intro edit
    cases edit with
    | inItem inside => exact (rigid _ (by simp) _ _ _).1 inside
  · intro edit
    cases edit with
    | inItem inside => exact (rigid _ (by simp) _ _ _).2 inside

theorem rigid_numbers {α : Type} (number : α → Nat) (values : List α) :
    Rigid (.array (values.map fun value => .ofNat (number value))) := by
  apply rigid_array
  intro item member
  obtain ⟨value, _, rfl⟩ := List.mem_map.mp member
  exact rigid_ofNat _

/-! ### Fields -/

variable {name : String} {value : Json} {fields others wanted : List (String × Json)}

theorem field?_cons_of_ne {other : String} (apart : other ≠ name) :
    field? name ((other, value) :: fields) = field? name fields := by
  simp only [field?, List.filter_cons, beq_eq_false_iff_ne.mpr apart, Bool.false_eq_true, if_false]

theorem eq_of_field?_cons {first : Json}
    (found : field? name ((name, first) :: fields) = some value) : first = value := by
  rw [field?_eq_some_iff, List.filter_cons_of_pos (by simp)] at found
  exact congrArg Prod.snd (List.cons.inj found).1

theorem perm_singleton_iff {α : Type} {items others : List α} {item : α}
    (same : items.Perm others) : items = [item] ↔ others = [item] :=
  ⟨fun alone => List.perm_singleton.mp (alone ▸ same.symm),
    fun alone => List.perm_singleton.mp (alone ▸ same)⟩

/-- A known field without objects in it is found before an edit just if it is found afterwards. -/
theorem field?_eq_some_iff_of_edit (edit : Edit known path (.object fields) (.object others))
    (looked : known path name) (rigid : Rigid value) :
    field? name fields = some value ↔ field? name others = some value := by
  cases edit with
  | reorder same =>
    rw [field?_eq_some_iff, field?_eq_some_iff]
    exact perm_singleton_iff (same.filter _)
  | @leaveOut _ other _ _ unknown =>
    have apart : other ≠ name := fun same => unknown (same ▸ looked)
    rw [field?_cons_of_ne apart]
  | @inField _ other old new _ inside =>
    by_cases same : other = name
    · -- The field itself has been edited, so neither value of it is the one wanted.
      subst same
      constructor
      · intro found
        exact absurd inside (eq_of_field?_cons found ▸ (rigid _ _ _).1)
      · intro found
        exact absurd inside (eq_of_field?_cons found ▸ (rigid _ _ _).2)
    · rw [field?_cons_of_ne same, field?_cons_of_ne same]

theorem gives_iff_of_edit (edit : Edit known path (.object fields) (.object others))
    (looked : ∀ field ∈ wanted, known path field.1) (rigid : ∀ field ∈ wanted, Rigid field.2) :
    Gives fields wanted ↔ Gives others wanted :=
  forall₂_congr fun field member =>
    field?_eq_some_iff_of_edit edit (looked field member) (rigid field member)

/-! ### Records -/

theorem states_iff_of_edit (edit : Edit known path j k)
    (looked : ∀ field ∈ wanted, known path field.1) (rigid : ∀ field ∈ wanted, Rigid field.2) :
    States wanted j ↔ States wanted k := by
  rcases edit.objects_or_arrays with ⟨fields, others, rfl, rfl⟩ | ⟨items, others, rfl, rfl⟩
  · rw [states_object_iff, states_object_iff, gives_iff_of_edit edit looked rigid]
  · -- In a list of the values alone there is nothing to edit.
    have placed : Rigid (.array (wanted.map Prod.snd)) := by
      apply rigid_array
      intro item member
      obtain ⟨field, asked, rfl⟩ := List.mem_map.mp member
      exact rigid field asked
    rw [states_array_iff, states_array_iff]
    constructor
    · rintro rfl
      exact absurd edit (placed _ _ _).1
    · rintro rfl
      exact absurd edit (placed _ _ _).2

/-! ### Cases -/

/-- The object of a case has the name of the case for its only field, so all that can be edited
is what the case contains. -/
theorem case_iff_of_edit {enough : Prop} {content : Json → Prop} (edit : Edit known [] j k)
    (closed : ∀ name, known [] name)
    (inside : ∀ {value other}, Edit known [name] value other → (content value ↔ content other)) :
    Case name enough content j ↔ Case name enough content k := by
  cases edit with
  | reorder same =>
    rw [case_object_iff, case_object_iff]
    simp only [perm_singleton_iff same]
  | leaveOut unknown => exact absurd (closed _) unknown
  | @inField _ other old new rest deeper =>
    rw [case_object_iff, case_object_iff]
    constructor
    · rintro ⟨_, ⟨⟩, given⟩
      exact ⟨new, rfl, (inside deeper).mp given⟩
    · rintro ⟨_, ⟨⟩, given⟩
      exact ⟨old, rfl, (inside deeper).mpr given⟩
  | inItem => exact iff_of_false nofun nofun

/-- A case that contains nothing cannot be edited. -/
theorem bare_case_iff_of_edit {enough : Prop} (edit : Edit Vocabulary.all [] j k) :
    Case name enough (· = .null) j ↔ Case name enough (· = .null) k := by
  refine case_iff_of_edit edit (fun _ => trivial) fun deeper => ?_
  constructor
  · rintro rfl
    cases deeper
  · rintro rfl
    cases deeper

/-! ### Lossless documents -/

variable {α : Type} {write : α → Json} {read? : Json → Option α}

/-- What it takes to keep values of a type in documents. -/
structure Lossless (write : α → Json) (read? : Json → Option α) (known : Vocabulary) : Prop where
  /-- What has been written is read as the value that was written. -/
  restored (a : α) : read? (write a) = some a
  /-- What can be read can be written anew, is read as the same value then, and stays as it is. -/
  canonical {j c : Json} (rewritten : (read? j).map write = some c) :
    read? c = read? j ∧ (read? c).map write = some c
  /-- Any number of edits makes no difference, nor does undoing them. -/
  unnoticed {j k : Json} (edits : Relation.EqvGen (Edit known []) j k) : read? j = read? k

/-- It is enough to say which documents stand for a value. -/
theorem lossless_of_iff {stands : α → Json → Prop}
    (decided : ∀ {j a}, read? j = some a ↔ stands a j) (written : ∀ a, stands a (write a))
    (edited : ∀ {a j k}, Edit known [] j k → (stands a j ↔ stands a k)) :
    Lossless write read? known := by
  have restored : ∀ a, read? (write a) = some a := fun a => decided.mpr (written a)
  refine ⟨restored, ?_, ?_⟩
  · intro j c rewritten
    obtain ⟨a, read, rfl⟩ := Option.map_eq_some_iff.mp rewritten
    rw [restored, read]
    exact ⟨rfl, rfl⟩
  · intro j k edits
    induction edits with
    | rel j k edit =>
      ext a
      rw [decided, decided, edited edit]
    | refl => rfl
    | symm _ _ _ ih => exact ih.symm
    | trans _ _ _ _ _ first second => exact first.trans second

end Chip8.Json
