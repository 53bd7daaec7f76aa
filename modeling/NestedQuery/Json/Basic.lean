import NestedQuery.Number.Binary64

/-!
# JSON documents

A document keeps the order and the repetitions of its object keys, since some
requests give them meaning.  Text can be well formed and still stand for no
document: an escape may be half of a surrogate pair, a number may exceed every
double, containers may nest too deep.  Such a part is kept as `flawed`: it
spoils whatever is read from it, and nothing else.
-/

namespace NestedQuery

/-- A JSON document. -/
inductive Json where
  | null
  | bool (b : Bool)
  /-- A number written without point or exponent, from `-signedBound` to below `unsignedBound`. -/
  | integer (n : Int)
  /-- Any other number. -/
  | float (x : Binary64)
  | string (s : String)
  | array (items : List Json)
  | object (fields : List (String × Json))
  /-- A part of a text that is well formed but stands for nothing. -/
  | flawed

namespace Json

/-- The deepest nesting of arrays and objects that a request may have. -/
def depthLimit : Nat := 127

mutual

/-- Whether no part of the document is flawed. -/
def isSound : Json → Bool
  | .array items => areSound items
  | .object fields => fieldsSound fields
  | .flawed => false
  | _ => true

/-- Whether no part of any of the documents is flawed. -/
def areSound : List Json → Bool
  | [] => true
  | item :: rest => item.isSound && areSound rest

/-- Whether no part of any of the values is flawed. -/
def fieldsSound : List (String × Json) → Bool
  | [] => true
  | (_, value) :: rest => value.isSound && fieldsSound rest

end

mutual

/-- The document with every container below `limit` levels flawed. -/
def limitDepth (limit : Nat) : Json → Json
  | .array items =>
    match limit with
    | 0 => .flawed
    | below + 1 => .array (limitItems below items)
  | .object fields =>
    match limit with
    | 0 => .flawed
    | below + 1 => .object (limitFields below fields)
  | other => other

/-- `limitDepth` of each document. -/
def limitItems (limit : Nat) : List Json → List Json
  | [] => []
  | item :: rest => item.limitDepth limit :: limitItems limit rest

/-- `limitDepth` of each value. -/
def limitFields (limit : Nat) : List (String × Json) → List (String × Json)
  | [] => []
  | (name, value) :: rest => (name, value.limitDepth limit) :: limitFields limit rest

end

end Json

end NestedQuery
