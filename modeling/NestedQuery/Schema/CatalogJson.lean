import NestedQuery.Json.Reader
import NestedQuery.Json.Shape
import NestedQuery.QueryError
import NestedQuery.Schema.Table

/-!
# Catalogs as JSON documents

A catalog document is an array of tables or an object with the field `tables`.
Missing flags are false, a missing type is text, missing lists are empty.  A
catalog is written with every field, so reading what was written gives the same
catalog back.
-/

namespace NestedQuery

open Json

namespace ColumnType

/-- The types by their names in documents. -/
def names : List (String × ColumnType) :=
  [("text", .text), ("integer", .integer), ("float", .float), ("boolean", .boolean),
   ("timestamp", .timestamp), ("json", .json)]

/-- The name of a type in documents. -/
def name : ColumnType → String
  | .text => "text"
  | .integer => "integer"
  | .float => "float"
  | .boolean => "boolean"
  | .timestamp => "timestamp"
  | .json => "json"

end ColumnType

namespace ColumnReference

/-- Reads a reference. -/
def ofJson? (json : Json) : Option ColumnReference := do
  let fields ← json.fields? ["table", "column"] 2 false
  return ⟨← fields.required? "table" string?, ← fields.required? "column" string?⟩

/-- A reference as a document. -/
def toJson (reference : ColumnReference) : Json :=
  .object [("table", .string reference.table), ("column", .string reference.column)]

end ColumnReference

namespace Column

/-- Reads a column. -/
def ofJson? (json : Json) : Option Column := do
  let fields ← json.fields? ["name", "type", "primary", "unique", "nullable", "references"] 1 false
  return {
    name := ← fields.required? "name" string?
    type := ← fields.orElse? "type" .text (oneOf? ColumnType.names)
    primary := ← fields.orElse? "primary" false bool?
    unique := ← fields.orElse? "unique" false bool?
    nullable := ← fields.orElse? "nullable" false bool?
    references := ← fields.optional? "references" ColumnReference.ofJson? }

/-- A column as a document. -/
def toJson (column : Column) : Json :=
  .object [("name", .string column.name), ("type", .string column.type.name),
    ("primary", .bool column.primary), ("unique", .bool column.unique),
    ("nullable", .bool column.nullable),
    ("references", (column.references.map ColumnReference.toJson).getD .null)]

end Column

namespace ForeignKey

/-- Reads a foreign key. -/
def ofJson? (json : Json) : Option ForeignKey := do
  let fields ← json.fields? ["columns", "foreignTable", "foreignColumns"] 3 false
  return {
    columns := ← fields.required? "columns" (list? string?)
    table := ← fields.required? "foreignTable" string?
    foreignColumns := ← fields.required? "foreignColumns" (list? string?) }

/-- A foreign key as a document. -/
def toJson (key : ForeignKey) : Json :=
  .object [("columns", .array (key.columns.map .string)), ("foreignTable", .string key.table),
    ("foreignColumns", .array (key.foreignColumns.map .string))]

end ForeignKey

namespace TableDecl

/-- Reads a table declaration. -/
def ofJson? (json : Json) : Option TableDecl := do
  let fields ← json.fields? ["name", "columns", "primaryKey", "foreignKeys"] 1 false
  return {
    name := ← fields.required? "name" string?
    columns := ← fields.orElse? "columns" [] (list? Column.ofJson?)
    primaryKey := ← fields.orElse? "primaryKey" [] (list? string?)
    foreignKeys := ← fields.orElse? "foreignKeys" [] (list? ForeignKey.ofJson?) }

/-- A table declaration as a document. -/
def toJson (decl : TableDecl) : Json :=
  .object [("name", .string decl.name), ("columns", .array (decl.columns.map Column.toJson)),
    ("primaryKey", .array (decl.primaryKey.map .string)),
    ("foreignKeys", .array (decl.foreignKeys.map ForeignKey.toJson))]

end TableDecl

namespace Catalog

mutual

/-- The document in which no object repeats a key: the last value of a key is kept. -/
def settle : Json → Json
  | .array items => .array (settleItems items)
  | .object fields => .object (Dict.ofPairs (settleFields fields))
  | other => other

/-- `settle` of each document. -/
def settleItems : List Json → List Json
  | [] => []
  | item :: rest => settle item :: settleItems rest

/-- `settle` of each value. -/
def settleFields : List (String × Json) → List (String × Json)
  | [] => []
  | (name, value) :: rest => (name, settle value) :: settleFields rest

end

/-- Reads a catalog document. -/
def ofJson (json : Json) : Except QueryError Catalog :=
  if !json.isSound then throw .malformed
  else match settle json with
    | .array items =>
      match items.mapM TableDecl.ofJson? with
      | some tables => return ⟨tables⟩
      | none => throw .malformed
    | .object fields =>
      match fields.lookup "tables" >>= list? TableDecl.ofJson? with
      | some tables => return ⟨tables⟩
      | none => throw .malformed
    | _ => throw .catalogShape

/-- Reads the text of a catalog document. -/
def parse (text : String) : Except QueryError Catalog :=
  match Json.read? depthLimit text with
  | some json => ofJson json
  | none => throw .malformed

/-- A catalog as a document. -/
def toJson (catalog : Catalog) : Json :=
  .object [("tables", .array (catalog.tables.map TableDecl.toJson))]

end Catalog

end NestedQuery
