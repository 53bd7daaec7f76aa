import NestedQuery.Json.Basic
import NestedQuery.Dict

/-!
# Reading values out of documents

A record of named fields is read from an object or, by position, from an array.
Known keys must not repeat; unknown keys are passed over or refused.  A field
that may be absent takes `null` for absence, unless it is read with its own
reader.  All readers answer none on a document of another shape.
-/

namespace NestedQuery.Json

/-- A truth value. -/
def bool? : Json → Option Bool
  | .bool b => some b
  | _ => none

/-- A string. -/
def string? : Json → Option String
  | .string s => some s
  | _ => none

/-- A whole number of 64 bits with a sign. -/
def signed? : Json → Option Int
  | .integer n => if n < signedBound then some n else none
  | _ => none

/-- A whole number of 64 bits without a sign. -/
def count? : Json → Option Nat
  | .integer n => if 0 ≤ n then some n.toNat else none
  | _ => none

/-- A list, every item read by `item`. -/
def list? {α : Type} (item : Json → Option α) : Json → Option (List α)
  | .array items => items.mapM item
  | _ => none

/-- An object read as a dictionary: every value is read, the last of a repeated key is kept. -/
def dict? {α : Type} (value : Json → Option α) : Json → Option (Dict α)
  | .object fields => do
    let pairs ← fields.mapM fun field => (value field.2).map (field.1, ·)
    return Dict.ofPairs pairs
  | _ => none

/-- The name of an alternative: a string, or an object that binds nothing but that name to
`null`. -/
def name? : Json → Option String
  | .string s => some s
  | .object [(s, .null)] => some s
  | _ => none

/-- One of the listed alternatives, by its name. -/
def oneOf? {α : Type} (alternatives : List (String × α)) (json : Json) : Option α := do
  alternatives.lookup (← json.name?)

/-- The fields of a record as they stand in a document. -/
abbrev Fields := List (String × Json)

/-- The fields of an object: keys outside `names` are dropped and, if `strict`, refused; a key of
`names` must not repeat. -/
def objectFields? (names : List String) (strict : Bool) (fields : List (String × Json)) :
    Option Fields :=
  let known := fields.filter fun field => names.contains field.1
  if strict && known.length != fields.length then none
  else if (known.map (·.1)).eraseDups.length = known.length then some known
  else none

/-- The fields of a record with the given names in their order.  By position at least `least`
of them must be there. -/
def fields? (names : List String) (least : Nat) (strict : Bool) : Json → Option Fields
  | .object fields => objectFields? names strict fields
  | .array items =>
    if least ≤ items.length ∧ items.length ≤ names.length then some (names.zip items) else none
  | _ => none

/-- A field that must be there. -/
def Fields.required? {α : Type} (fields : Fields) (name : String) (read : Json → Option α) :
    Option α := do
  read (← fields.lookup name)

/-- A field that has a value of its own when it is missing. -/
def Fields.orElse? {α : Type} (fields : Fields) (name : String) (missing : α)
    (read : Json → Option α) : Option α :=
  match fields.lookup name with
  | none => some missing
  | some value => read value

/-- A field that is absent when it is missing or `null`. -/
def Fields.optional? {α : Type} (fields : Fields) (name : String) (read : Json → Option α) :
    Option (Option α) :=
  match fields.lookup name with
  | none | some .null => some none
  | some value => (read value).map some

/-- A field that is absent only when it is missing; `null` is a value of it. -/
def Fields.present? {α : Type} (fields : Fields) (name : String) (read : Json → Option α) :
    Option (Option α) :=
  match fields.lookup name with
  | none => some none
  | some value => (read value).map some

/-- A reader that refuses a document with a flawed part, wherever it is. -/
def sound? {α : Type} (read : Json → Option α) (json : Json) : Option α :=
  if json.isSound then read json else none

end NestedQuery.Json
