import NestedQuery.Dict
import NestedQuery.QueryError
import NestedQuery.Schema.Relation
import NestedQuery.Schema.Table

/-!
# Schemas

A schema knows every table by name, with its columns, its primary key and its
relations.  Relations are inferred when a catalog is scanned, or defined by
hand; a definition is checked against the tables it names and replaces an
earlier relation of the same name.
-/

namespace NestedQuery

/-- A table as the schema knows it. -/
structure Table where
  name : String
  key : List String
  columns : List Column
  relations : Dict Relation := []
  deriving DecidableEq, Repr

namespace Table

/-- The table of a declaration, still without relations. -/
def ofDecl (decl : TableDecl) : Table :=
  { name := decl.name, key := decl.key, columns := decl.columns }

/-- The column of that name. -/
def column? (table : Table) (name : String) : Option Column :=
  table.columns.find? (·.name == name)

/-- Whether the table has a column of that name. -/
def hasColumn (table : Table) (name : String) : Bool :=
  table.columns.any (·.name == name)

/-- The column names in the order of declaration. -/
def columnNames (table : Table) : List String :=
  table.columns.map (·.name)

/-- The relation of that name. -/
def relation? (table : Table) (name : String) : Option Relation :=
  table.relations.lookup name

/-- Whether every column of the primary key is a column of the table. -/
def hasUsableKey (table : Table) : Bool :=
  table.key.all table.hasColumn

/-- The relation under its own name, in place of any other of that name. -/
def define (table : Table) (relation : Relation) : Table :=
  { table with relations := table.relations.put relation.name relation }

/-- The relation under its own name, unless the name is taken. -/
def defineIfFree (table : Table) (relation : Relation) : Table :=
  if table.relations.binds relation.name then table else table.define relation

end Table

/-- The known tables by name, and whether a catalog has been scanned. -/
structure Schema where
  tables : Dict Table := []
  isScanned : Bool := false
  deriving DecidableEq, Repr

namespace Schema

/-- The table of that name. -/
def table? (schema : Schema) (name : String) : Option Table :=
  schema.tables.lookup name

/-- The relation of that name of a table. -/
def relation? (schema : Schema) (table name : String) : Option Relation :=
  (schema.table? table).bind (·.relation? name)

/-- All relations of a table by name; none of an unknown table. -/
def relations (schema : Schema) (table : String) : List Relation :=
  match schema.table? table with
  | some known => known.relations.map (·.2)
  | none => []

/-- Whether the table is known and has a column of that name. -/
def hasColumn (schema : Schema) (table column : String) : Bool :=
  (schema.table? table).any (·.hasColumn column)

/-- Whether the table is known and has a relation of that name. -/
def hasRelation (schema : Schema) (table relation : String) : Bool :=
  (schema.relation? table relation).isSome

/-- The schema with one table changed. -/
def adjust (schema : Schema) (table : String) (change : Table → Table) : Schema :=
  { schema with tables := schema.tables.adjust table change }

/-! ### Defining relations -/

/-- What is wrong with a relation from `owner` to `target`, if anything. -/
def fault? (schema : Schema) (owner target : Table) (ownerName : String) (relation : Relation) :
    Option RelationFault :=
  if !owner.hasColumn relation.fromColumn then
    some (.missingColumn relation.fromColumn ownerName)
  else if !target.hasColumn relation.toColumn then
    some (.missingColumn relation.toColumn relation.target)
  else match relation.junction with
    | none => if relation.kind = .manyToMany then some .missingJunction else none
    | some junction =>
      match schema.table? junction.table with
      | none => none
      | some table =>
        ([junction.fromColumn, junction.toColumn].find? fun column => !table.hasColumn column).map
          (.missingColumn · junction.table)

/-- Defines a relation of a table.  Both tables must be known and the columns must exist, those
of the junction as far as its table is known. -/
def define (schema : Schema) (table : String) (relation : Relation) :
    Except QueryError Schema :=
  match schema.table? table, schema.table? relation.target with
  | none, _ => throw (.unknownTable table)
  | some _, none => throw (.unknownTable relation.target)
  | some owner, some target =>
    match schema.fault? owner target table relation with
    | some fault => throw (.invalidRelation table relation.name fault)
    | none => return schema.adjust table (·.define relation)

/-- Defines relations of a table one after the other up to the first failure; gives the schema
reached and the failure. -/
def defineAll (schema : Schema) (table : String) : List Relation → Schema × Option QueryError
  | [] => (schema, none)
  | relation :: rest =>
    match schema.define table relation with
    | .ok next => next.defineAll table rest
    | .error error => (schema, some error)

end Schema

end NestedQuery
