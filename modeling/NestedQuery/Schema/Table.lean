import NestedQuery.Text.Blank

/-!
# Declared tables

A catalog lists table declarations: columns in order, an optional explicit
primary key, and foreign keys declared on a column or on the table.  A
declaration without a name or without columns is no table.
-/

namespace NestedQuery

/-- The storage type of a column, which decides what filters apply to it. -/
inductive ColumnType where
  | text
  | integer
  | float
  | boolean
  | timestamp
  | json
  deriving DecidableEq, Repr

/-- A foreign key declared on one column. -/
structure ColumnReference where
  table : String
  column : String
  deriving DecidableEq, Repr

/-- A declared column. -/
structure Column where
  name : String
  type : ColumnType := .text
  primary : Bool := false
  unique : Bool := false
  nullable : Bool := false
  references : Option ColumnReference := none
  deriving DecidableEq, Repr

/-- A foreign key declared on a table. -/
structure ForeignKey where
  columns : List String
  table : String
  foreignColumns : List String
  deriving DecidableEq, Repr

/-- A foreign key of one column. -/
def ForeignKey.single (column table foreignColumn : String) : ForeignKey :=
  ⟨[column], table, [foreignColumn]⟩

/-- A table declaration. -/
structure TableDecl where
  name : String
  columns : List Column := []
  primaryKey : List String := []
  foreignKeys : List ForeignKey := []
  deriving DecidableEq, Repr

namespace TableDecl

/-- The declaration with one more column at the end. -/
def addColumn (decl : TableDecl) (column : Column) : TableDecl :=
  { decl with columns := decl.columns ++ [column] }

/-- The declaration with one more foreign key at the end. -/
def addForeignKey (decl : TableDecl) (key : ForeignKey) : TableDecl :=
  { decl with foreignKeys := decl.foreignKeys ++ [key] }

/-- Whether the declaration makes a table: a name that is not blank, and a column. -/
def isTable (decl : TableDecl) : Bool :=
  !Text.isBlankText decl.name && !decl.columns.isEmpty

/-- The primary key: the explicit one, else the first column marked as primary, else `id`. -/
def key (decl : TableDecl) : List String :=
  if decl.primaryKey.isEmpty then
    match decl.columns.find? (·.primary) with
    | some column => [column.name]
    | none => ["id"]
  else decl.primaryKey

/-- The foreign keys declared on columns, in column order. -/
def columnKeys (decl : TableDecl) : List ForeignKey :=
  decl.columns.filterMap fun column =>
    column.references.map fun other => .single column.name other.table other.column

/-- Every foreign key: those of the columns, then those of the table that are not among the ones
before them. -/
def allKeys (decl : TableDecl) : List ForeignKey :=
  decl.foreignKeys.foldl (fun keys key => if keys.contains key then keys else keys ++ [key])
    decl.columnKeys

end TableDecl

/-- An ordered collection of table declarations. -/
structure Catalog where
  tables : List TableDecl
  deriving DecidableEq, Repr

end NestedQuery
