import NestedQuery.Engine.Paging
import NestedQuery.Plan.Layout

/-!
# Folding rows into records

The rows of a joined statement repeat a record for every combination of its
related rows.  Rows are grouped by the identity of the outermost table, in the
order of first appearance, and each group is folded in turn by the tables
joined beneath it.
-/

namespace NestedQuery

/-- The items grouped by key, groups and items in the order of first appearance. -/
def groupsOf {α : Type} (key : α → String) (items : List α) : List (List α) :=
  (firstOfEach key [] items).map fun first => items.filter fun item => key item == key first

/-- The values of outputs in a row; null where the row has no such output. -/
def Row.valuesOf (row : Row) (outputs : List String) : List Value :=
  outputs.map fun output => (row.lookup output).getD .null

namespace Layout

/-- Whether the table is the first of the statement. -/
def isBase (layout : Layout) : Bool :=
  layout.lead.isEmpty

/-- Whether the row holds a record of the table: a joined table without a match is all null. -/
def isMatched (layout : Layout) (row : Row) : Bool :=
  layout.isBase || !(row.valuesOf layout.identity).all Value.isNull

/-- The groups of rows of which each makes one record. -/
def groups (layout : Layout) (rows : List Row) : List (List Row) :=
  groupsOf (fun row : Row => Value.jointKey (row.valuesOf layout.identity))
    (rows.filter layout.isMatched)

/-- The columns of the table in a group of rows. -/
def columnValues (layout : Layout) (group : List Row) : Record :=
  Dict.ofPairs ((layout.columns.zip layout.outputs).map fun (column, output) =>
    (column, .scalar ((group.head?.bind fun row => row.lookup output).getD .null)))

end Layout

mutual

/-- The records of a table in joined rows. -/
def Layout.assemble : Layout → List Row → List Record
  | ⟨table, qualifier, lead, fields, columns, outputs, key, identity, relations, deferred⟩, rows =>
    let layout : Layout :=
      ⟨table, qualifier, lead, fields, columns, outputs, key, identity, relations, deferred⟩
    (layout.groups rows).map fun group =>
      Dict.putAll (layout.columnValues group) (assembleBranches relations group)

/-- The entries of the joined relations in a group of rows. -/
def assembleBranches : List (JoinedBranchOf Layout) → List Row → List (String × Node)
  | [], _ => []
  | ⟨name, isToMany, branch, layout⟩ :: rest, rows =>
    (name, .ofRelated isToMany (branch.page (layout.assemble rows))) :: assembleBranches rest rows

end

/-- The entry with every record in it changed. -/
def Node.mapRecords (change : Record → Record) : Node → Node
  | .list records => .list (records.map change)
  | .object record => .object (change record)
  | .scalar value => .scalar value

/-- The records of an entry. -/
def Node.records : Node → List Record
  | .list records => records
  | .object record => [record]
  | .scalar _ => []

mutual

/-- The record without its hidden columns, and so on for the records joined beneath it. -/
def Layout.strip : Layout → Record → Record
  | ⟨_, _, _, fields, _, _, _, _, relations, deferred⟩, record =>
    stripBranches relations
      (record.shown fields (relations.map (·.name) ++ deferred.map (·.1)))

/-- The record with the records of each joined relation stripped. -/
def stripBranches : List (JoinedBranchOf Layout) → Record → Record
  | [], record => record
  | ⟨name, _, _, layout⟩ :: rest, record =>
    stripBranches rest (Dict.adjust name (Node.mapRecords layout.strip) record)

end

end NestedQuery
