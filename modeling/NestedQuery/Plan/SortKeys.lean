import NestedQuery.Plan.Joins

/-!
# Orderings as sort keys

A key of an ordering that names a column sorts by it; one that names a joined
relation sorts by columns of that relation and goes no deeper.  All else is
left out.
-/

namespace NestedQuery

/-- The sort key of a column, unless the ordering is a nested one. -/
def SortSpec.key? (qualifier column : String) : SortSpec → Option SortKey
  | .plain direction => some ⟨⟨qualifier, column⟩, direction, none⟩
  | .placed direction nulls => some ⟨⟨qualifier, column⟩, direction, nulls⟩
  | .nested _ => none

/-- The sort keys of an entry that name columns of the table. -/
def Table.sortKeys (table : Table) (qualifier : String) (entry : SortEntry) : List SortKey :=
  entry.filterMap fun (key, spec) =>
    if table.hasColumn key then spec.key? qualifier key else none

/-- The sort keys of one key of an ordering. -/
def Schema.keySortKeys (schema : Schema) (table : Table) (qualifier : String)
    (joined : JoinedTables) (key : String) (spec : SortSpec) : List SortKey :=
  if table.hasColumn key then (spec.key? qualifier key).toList
  else match joined.lookup key, spec with
    | some under, .nested entry =>
      match schema.table? under.table with
      | some target => target.sortKeys under.label entry
      | none => []
    | _, _ => []

/-- The sort keys of an optional ordering of a table. -/
def Schema.sortKeys (schema : Schema) (table qualifier : String) (order : Option SortRequest)
    (joined : JoinedTables) : List SortKey :=
  match order, schema.table? table with
  | some order, some known =>
    order.entries.flatMap fun entry =>
      entry.flatMap fun (key, spec) => schema.keySortKeys known qualifier joined key spec
  | _, _ => []

end NestedQuery
