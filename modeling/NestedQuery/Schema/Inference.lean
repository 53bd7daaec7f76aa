import NestedQuery.Schema.Basic
import NestedQuery.Schema.Naming

/-!
# Inferring relations

Scanning a catalog registers its tables and then makes, for every foreign key
of one column that can be resolved, a relation on its own table and one back on
the target.  A name that is taken keeps its relation.  A schema is scanned once.
-/

namespace NestedQuery

/-- The two relations that a foreign key makes: on its own table, and back on the target. -/
structure KeyRelations where
  forward : Relation
  backward : Relation
  deriving DecidableEq, Repr

namespace Schema

/-- The relations that a foreign key makes, if it has one column, and both columns exist on
known tables.  It relates single rows when its column is unique or the whole primary key. -/
def keyRelations? (schema : Schema) (owner : String) (key : ForeignKey) :
    Option KeyRelations := do
  let ([columnName], [foreignName]) := (key.columns, key.foreignColumns) | none
  let ownerTable ← schema.table? owner
  let column ← ownerTable.column? columnName
  let target ← schema.table? key.table
  if !target.hasColumn foreignName then none
  else
    let single := column.unique || ownerTable.key == [columnName]
    let forward : Relation := {
      name := Naming.forward columnName owner key.table
      kind := if single then .oneToOne else .manyToOne
      target := key.table
      fromColumn := columnName
      toColumn := foreignName
      isOptional := column.nullable }
    let backward : Relation :=
      if single then
        { Relation.oneToOne (Naming.backwardOne owner) owner foreignName columnName with
          isOptional := true }
      else .oneToMany (Naming.backwardMany owner) owner foreignName columnName
    return ⟨forward, backward⟩

/-- Adds the relations that a foreign key makes, as far as their names are free. -/
def infer (schema : Schema) (owner : String) (key : ForeignKey) : Schema :=
  match schema.keyRelations? owner key with
  | none => schema
  | some made =>
    (schema.adjust owner (·.defineIfFree made.forward)).adjust key.table
      (·.defineIfFree made.backward)

/-- Registers a table under its name, unless the declaration is no table or the name is taken. -/
def register (schema : Schema) (decl : TableDecl) : Schema :=
  if decl.isTable && !schema.tables.binds decl.name then
    { schema with tables := schema.tables.put decl.name (.ofDecl decl) }
  else schema

/-- Adds the relations of all foreign keys of a declaration. -/
def inferAll (schema : Schema) (decl : TableDecl) : Schema :=
  if decl.isTable then decl.allKeys.foldl (·.infer decl.name ·) schema else schema

/-- Registers the tables of a catalog and infers their relations; a scanned schema stays as it
is. -/
def scan (schema : Schema) (decls : List TableDecl) : Schema :=
  if schema.isScanned then schema
  else
    let registered := decls.foldl register schema
    { decls.foldl inferAll registered with isScanned := true }

/-- The schema of a catalog. -/
def ofDecls (decls : List TableDecl) : Schema :=
  scan {} decls

end Schema

end NestedQuery
