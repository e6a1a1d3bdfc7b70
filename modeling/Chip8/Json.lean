/-!
# Document values

The values that snapshots are written as: null, truth values, whole numbers,
other numbers, strings, arrays and objects. Numbers with a fraction or an
exponent are kept as text, since no snapshot has one. An object is its list of
fields in the order in which they stand.
-/
namespace Chip8

inductive Json
  | null
  | bool (b : Bool)
  | integer (n : Int)
  | fraction (text : String)
  | string (s : String)
  | array (items : List Json)
  | object (fields : List (String × Json))
deriving Repr, Inhabited

namespace Json

/-! ### Numbers -/

def ofNat (n : Nat) : Json := .integer n

/-- A whole number from zero up to, and not including, the limit. -/
def natBelow? (limit : Nat) : Json → Option Nat
  | .integer n => if 0 ≤ n ∧ n < limit then some n.toNat else none
  | _ => none

def uint8? (j : Json) : Option UInt8 := (j.natBelow? 256).map UInt8.ofNat

def uint16? (j : Json) : Option UInt16 := (j.natBelow? 65536).map UInt16.ofNat

def uint64? (j : Json) : Option UInt64 := (j.natBelow? 18446744073709551616).map UInt64.ofNat

/-! ### Arrays -/

variable {α : Type}

/-- Reads every item of a list, if all of them can be read. -/
def readAll? (read? : Json → Option α) : List Json → Option (List α)
  | [] => some []
  | item :: rest => do
    let first ← read? item
    let others ← readAll? read? rest
    return first :: others

def list? (read? : Json → Option α) : Json → Option (List α)
  | .array items => readAll? read? items
  | _ => none

/-- An array of exactly `size` items. -/
def vector? (read? : Json → Option α) (size : Nat) (j : Json) : Option (Vector α size) := do
  let items ← j.list? read?
  if exact : items.toArray.size = size then some ⟨items.toArray, exact⟩ else none

/-! ### Objects -/

/-- The value of a field that occurs exactly once. -/
def field? (name : String) (fields : List (String × Json)) : Option Json :=
  match fields.filter (fun field => field.1 == name) with
  | [(_, value)] => some value
  | _ => none

/-- The values of the named fields, in the order of the names. Other fields are
left out of account. -/
def fields? (names : List String) (fields : List (String × Json)) : Option (List Json) :=
  names.mapM fun name => field? name fields

/-- The fields of a record: an object, or an array with one item for each name. -/
def record? (names : List String) : Json → Option (List Json)
  | .object fields => fields? names fields
  -- Without names the items stand in the order of the record's own fields.
  | .array items => if items.length = names.length then some items else none
  | _ => none

/-- A case without content: its name, or an object that gives it null. -/
def caseName? : Json → Option String
  | .string name => some name
  | .object [(name, .null)] => some name
  | _ => none

end Json

end Chip8
