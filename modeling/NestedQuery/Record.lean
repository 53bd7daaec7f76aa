import NestedQuery.Value

/-!
# Rows and records

A row is what a statement yields: values by output name.  A record is what a
request yields: its entries are values, single related records, or lists of
related records.
-/

namespace NestedQuery

/-- A flat result row. -/
abbrev Row := Dict Value

/-- An entry of a record. -/
inductive Node where
  | scalar (value : Value)
  | object (record : List (String × Node))
  | list (records : List (List (String × Node)))

/-- A nested result record. -/
abbrev Record := Dict Node

namespace Node

/-- The scalar, of a scalar entry. -/
def scalar? : Node → Option Value
  | .scalar value => some value
  | _ => none

/-- The related record, of an entry that holds one. -/
def object? : Node → Option Record
  | .object record => some record
  | _ => none

/-- The related records, of an entry that holds a list. -/
def list? : Node → Option (List Record)
  | .list records => some records
  | _ => none

/-- The text, of a scalar entry that is one. -/
def text? (node : Node) : Option String :=
  node.scalar?.bind Value.text?

/-- The integer, of a scalar entry that is one. -/
def integer? (node : Node) : Option Int :=
  node.scalar?.bind Value.integer?

/-- Whether the entry is the null scalar. -/
def isNull : Node → Bool
  | .scalar value => value.isNull
  | _ => false

mutual

/-- The entry as a JSON document. -/
def toJson : Node → Json
  | .scalar value => value.toJson
  | .object record => .object (recordFields record)
  | .list records => .array (recordItems records)

/-- The entries of a record as the fields of an object. -/
def recordFields : List (String × Node) → List (String × Json)
  | [] => []
  | (name, node) :: rest => (name, node.toJson) :: recordFields rest

/-- Records as the items of an array. -/
def recordItems : List (List (String × Node)) → List Json
  | [] => []
  | record :: rest => .object (recordFields record) :: recordItems rest

end

end Node

/-- The record that holds the values of a row. -/
def Row.toRecord (row : Row) : Record :=
  row.map fun pair => (pair.1, .scalar pair.2)

/-- The scalar that a record binds to `name`; null when there is none. -/
def Record.scalar (record : Record) (name : String) : Value :=
  ((record.lookup name).bind Node.scalar?).getD .null

end NestedQuery
