import NestedQuery.Json.Shape

/-!
# Relations

A relation is a named way from the rows of one table to rows of another: a
column here equals a column there, or both are linked by the rows of a junction
table.
-/

namespace NestedQuery

open Json

/-- How many rows a relation leads from and to. -/
inductive RelationKind where
  | oneToOne
  | manyToOne
  | oneToMany
  | manyToMany
  deriving DecidableEq, Repr

/-- Whether a relation of this kind yields a list of records. -/
def RelationKind.isToMany : RelationKind → Bool
  | .oneToMany | .manyToMany => true
  | .oneToOne | .manyToOne => false

/-- The table whose rows link the two sides of a relation. -/
structure Junction where
  table : String
  /-- The column that refers to the owning side. -/
  fromColumn : String
  /-- The column that refers to the target side. -/
  toColumn : String
  deriving DecidableEq, Repr

/-- A relation of one table. -/
structure Relation where
  name : String
  kind : RelationKind
  target : String
  /-- The column on the owning table. -/
  fromColumn : String
  /-- The column on the target table. -/
  toColumn : String
  junction : Option Junction := none
  /-- Whether the related row may be missing. -/
  isOptional : Bool := false
  deriving DecidableEq, Repr

namespace Relation

/-- A relation to the many rows that hold this table's column. -/
def oneToMany (name target fromColumn toColumn : String) : Relation :=
  { name, kind := .oneToMany, target, fromColumn, toColumn, isOptional := true }

/-- A relation to the row whose column this table holds. -/
def manyToOne (name target fromColumn toColumn : String) : Relation :=
  { name, kind := .manyToOne, target, fromColumn, toColumn }

/-- A relation between single rows. -/
def oneToOne (name target fromColumn toColumn : String) : Relation :=
  { name, kind := .oneToOne, target, fromColumn, toColumn }

/-- A relation through a junction table. -/
def manyToMany (name target fromColumn toColumn : String) (junction : Junction) : Relation :=
  { name, kind := .manyToMany, target, fromColumn, toColumn, junction := some junction,
    isOptional := true }

end Relation

/-! ### As JSON documents -/

namespace RelationKind

/-- The kinds by their names in documents. -/
def names : List (String × RelationKind) :=
  [("oneToOne", .oneToOne), ("manyToOne", .manyToOne), ("oneToMany", .oneToMany),
   ("manyToMany", .manyToMany)]

/-- The name of a kind in documents. -/
def name : RelationKind → String
  | .oneToOne => "oneToOne"
  | .manyToOne => "manyToOne"
  | .oneToMany => "oneToMany"
  | .manyToMany => "manyToMany"

end RelationKind

namespace Junction

/-- Reads a junction. -/
def ofJson? (json : Json) : Option Junction := do
  let fields ← json.fields? ["table", "fromColumn", "toColumn"] 3 false
  return {
    table := ← fields.required? "table" string?
    fromColumn := ← fields.required? "fromColumn" string?
    toColumn := ← fields.required? "toColumn" string? }

/-- A junction as a document. -/
def toJson (junction : Junction) : Json :=
  .object [("table", .string junction.table), ("fromColumn", .string junction.fromColumn),
    ("toColumn", .string junction.toColumn)]

end Junction

namespace Relation

/-- Reads a relation. -/
def ofJson? (json : Json) : Option Relation := do
  let fields ← json.fields?
    ["name", "kind", "targetTable", "fromField", "toField", "through", "optional"] 5 false
  return {
    name := ← fields.required? "name" string?
    kind := ← fields.required? "kind" (oneOf? RelationKind.names)
    target := ← fields.required? "targetTable" string?
    fromColumn := ← fields.required? "fromField" string?
    toColumn := ← fields.required? "toField" string?
    junction := ← fields.optional? "through" Junction.ofJson?
    isOptional := ← fields.orElse? "optional" false bool? }

/-- A relation as a document. -/
def toJson (relation : Relation) : Json :=
  .object [("name", .string relation.name), ("kind", .string relation.kind.name),
    ("targetTable", .string relation.target), ("fromField", .string relation.fromColumn),
    ("toField", .string relation.toColumn),
    ("through", (relation.junction.map Junction.toJson).getD .null),
    ("optional", .bool relation.isOptional)]

end Relation

end NestedQuery
