import NestedQuery.Schema.Basic
import NestedQuery.Statement.Basic

/-!
# Planned joins

Every relation that a statement joins gets an alias of its own, its label: the
name of the relation with a number that counts the joins of the plan.  A
relation of many to many is never joined.
-/

namespace NestedQuery

/-- A relation joined into a statement. -/
structure PlannedJoin where
  relation : Relation
  /-- The name by which the relation was asked for. -/
  name : String
  /-- The qualifier of the table that the relation starts from. -/
  source : String
  label : String
  kind : JoinKind
  deriving DecidableEq, Repr

namespace PlannedJoin

/-- The condition of the join: the column of the source equals the column of the target. -/
def on (join : PlannedJoin) : Expr :=
  .compare (.col join.source join.relation.fromColumn) .eq
    (.col join.label join.relation.toColumn)

/-- The join as a clause of a statement. -/
def clause (join : PlannedJoin) : Join :=
  { kind := join.kind, table := join.relation.target, label := join.label, on := join.on }

end PlannedJoin

/-- The joins planned for one statement, and how many labels were given out. -/
structure Planner where
  count : Nat := 0
  joins : List PlannedJoin := []
  deriving DecidableEq, Repr

namespace Planner

/-- The relation if it can be joined: known, not of many to many, its target known. -/
def joinable? (schema : Schema) (table name : String) : Option Relation := do
  let relation ← schema.relation? table name
  if relation.kind = .manyToMany then none
  else
    let _ ← schema.table? relation.target
    return relation

/-- Plans the join of a relation of `table`, whose columns are known under `source`; nothing
changes when the relation cannot be joined. -/
def add (planner : Planner) (schema : Schema) (table source name : String) (kind : JoinKind) :
    Option PlannedJoin × Planner :=
  match joinable? schema table name with
  | none => (none, planner)
  | some relation =>
    let count := planner.count + 1
    let label := name ++ "_" ++ toString count
    let join : PlannedJoin := { relation, name, source, label, kind }
    (some join, { count, joins := planner.joins ++ [join] })

/-- Adds the planned joins to a statement, in the order of planning. -/
def apply (planner : Planner) (statement : Select) : Select :=
  { statement with joins := statement.joins ++ planner.joins.map PlannedJoin.clause }

/-- Forgets the planned joins and counts labels from the start again. -/
def clear (planner : Planner) : Planner :=
  { planner with count := 0, joins := [] }

end Planner

/-- A relation that a statement joins, with the relations joined beneath it. -/
structure JoinedTable where
  table : String
  label : String
  nested : List (String × JoinedTable)

/-- The joined relations of a table by name. -/
abbrev JoinedTables := Dict JoinedTable

end NestedQuery
