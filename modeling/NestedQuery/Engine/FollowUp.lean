import NestedQuery.Engine.Assembly
import NestedQuery.Engine.Load

/-!
# Loading relations by follow-up statements

The related rows of all owners of a level are asked for by one statement per
relation, which selects by the distinct keys of the owners; a relation through
a junction table first asks for its links.  Related records then go to their
owners by key.  What is loaded for a list of owners is a function that attaches
it to each of them.
-/

namespace NestedQuery

/-- A related record with the key of an owner that it belongs to. -/
structure Related where
  owner : String
  record : Record

/-- Distinct values that are not null, in the order of first appearance. -/
def distinctKeys (values : List Value) : List Value :=
  firstOfEach Value.key [] (values.filter fun value => !value.isNull)

/-- The outputs of columns of a table under their own names. -/
def plainOutputs (table : String) (columns : List String) : List Output :=
  columns.map fun column => .column ⟨table, column⟩ none

/-- The condition that a column of a table is one of the given keys. -/
def keyedBy (table column : String) (keys : List Value) : Expr :=
  .oneOf (.col table column) keys false

/-- The columns of `table` that link it to the named relations. -/
def Table.linkColumns (table : Table) (relations : List String) : List String :=
  (relations.filterMap table.relation?).map (·.fromColumn)

/-- The statement for related rows: those of the target whose link column is one of the keys,
under the filter and the ordering of the branch, with the columns that are needed besides its
fields. -/
def relatedStatement (schema : Schema) (target : Table) (branch : Branch) (link : String)
    (keys : List Value) : Select :=
  let hidden := link :: target.linkColumns (branch.shape.relations.map (·.1)) ++
    (branch.distinct.getD []).filter target.hasColumn
  let base : Select := {
    table := target.name
    outputs := plainOutputs target.name (withHidden branch.shape.fields hidden)
    filter := some (keyedBy target.name link keys) }
  let filtered :=
    base.andWhere? (schema.predicate? target.name target.name branch.filter [] 0).1
  match schema.sortKeys target.name target.name branch.orderBy [] with
  | [] => filtered
  | order => { filtered with orderBy := some order }

/-- The statement for the links of a junction table from the given keys. -/
def linkStatement (junction : Junction) (keys : List Value) : Select :=
  { table := junction.table
    outputs := plainOutputs junction.table [junction.fromColumn, junction.toColumn]
    filter := some (keyedBy junction.table junction.fromColumn keys) }

/-- The key of a row in a column; the empty text where the row has no such column. -/
def Row.keyIn (row : Row) (column : String) : String :=
  ((row.lookup column).map Value.key).getD ""

/-- The two ends of each link of which neither is missing or null. -/
def linkEnds (junction : Junction) (links : List Row) : List (Value × Value) :=
  links.filterMap fun link =>
    match link.lookup junction.fromColumn, link.lookup junction.toColumn with
    | some owner, some target =>
      if owner.isNull || target.isNull then none else some (owner, target)
    | _, _ => none

/-- The related rows of a direct relation, each with the key of its owner. -/
def fetchDirect (schema : Schema) (relation : Relation) (branch : Branch) (keys : List Value) :
    Load (List Related) :=
  match schema.table? relation.target with
  | none => return []
  | some target => do
    let rows ← Load.query (relatedStatement schema target branch relation.toColumn keys)
    return rows.map fun row => ⟨row.keyIn relation.toColumn, row.toRecord⟩

/-- The related rows of a relation through a junction table, once for every link to them, in the
order of the rows. -/
def fetchLinked (schema : Schema) (relation : Relation) (junction : Junction) (branch : Branch)
    (keys : List Value) : Load (List Related) := do
  let links ← Load.query (linkStatement junction keys)
  let ends := linkEnds junction links
  let targetKeys := distinctKeys (ends.map (·.2))
  if targetKeys.isEmpty then return []
  else match schema.table? relation.target with
    | none => return []
    | some target => do
      let rows ← Load.query (relatedStatement schema target branch relation.toColumn targetKeys)
      return rows.flatMap fun row =>
        (ends.filter fun pair => pair.2.key == row.keyIn relation.toColumn).map fun pair =>
          ⟨pair.1.key, row.toRecord⟩

/-- The related rows of a relation for owners with the given keys. -/
def fetch (schema : Schema) (relation : Relation) (branch : Branch) (keys : List Value) :
    Load (List Related) :=
  if keys.isEmpty then return []
  else match relation.junction with
    | some junction => fetchLinked schema relation junction branch keys
    | none => fetchDirect schema relation branch keys

/-- The record with its related records attached: those whose owner has its key, cut to the page
of the branch. -/
def attach (name : String) (relation : Relation) (branch : Branch) (related : List Related)
    (record : Record) : Record :=
  let owner := record.scalar relation.fromColumn
  let matched :=
    if owner.isNull then []
    else (related.filter fun one => one.owner == owner.key).map (·.record)
  Dict.put name (.ofRelated relation.kind.isToMany (branch.page matched)) record

/-- The known relations of a table among those to load. -/
def knownBranches (schema : Schema) (table : String) (branches : Branches) :
    List (String × Branch × Relation) :=
  branches.filterMap fun (name, branch) =>
    (schema.relation? table name).map (name, branch, ·)

/-- The related rows of every known relation of a level. -/
def fetchLevel (schema : Schema) (table : String) (branches : Branches) (owners : List Record) :
    Load (List (List Related)) :=
  Load.sequence ((knownBranches schema table branches).map fun (_, branch, relation) =>
    fetch schema relation branch (distinctKeys (owners.map (·.scalar relation.fromColumn))))

mutual

/-- Attaches what was fetched for each known relation, its own relations loaded before. -/
def attachLevel (schema : Schema) (table : String) :
    List (String × BranchOf Shape) → List (List Related) → Load (Record → Record)
  | [], _ => return id
  | (name, ⟨shape, filter, orderBy, take, skip, distinct, joinKind⟩) :: rest, fetched =>
    match schema.relation? table name, fetched with
    | none, fetched => attachLevel schema table rest fetched
    | some _, [] => return id
    | some relation, related :: others => do
      let finished ← finishRelated schema relation.target shape related
      let branch : Branch := ⟨shape, filter, orderBy, take, skip, distinct, joinKind⟩
      let more ← attachLevel schema table rest others
      return fun record => more (attach name relation branch finished record)

/-- The related records with their own relations loaded and their hidden columns dropped. -/
def finishRelated (schema : Schema) (table : String) :
    Shape → List Related → Load (List Related)
  | ⟨fields, _, relations⟩, related => do
    let fetched ← fetchLevel schema table relations (related.map (·.record))
    let load ← attachLevel schema table relations fetched
    return related.map fun one =>
      { one with record := (load one.record).shown fields (relations.map (·.1)) }

end

/-- What loading relations of `table` attaches to each of the given owners.  All relations of the
level are asked for first; then each one has its own relations loaded and is attached. -/
def loadBranches (schema : Schema) (table : String) (branches : Branches)
    (owners : List Record) : Load (Record → Record) := do
  let fetched ← fetchLevel schema table branches owners
  attachLevel schema table branches fetched

mutual

/-- What loading the relations that could not be joined attaches to the given records and to the
records joined beneath them. -/
def Layout.loadDeferred (schema : Schema) : Layout → List Record → Load (Record → Record)
  | ⟨table, _, _, _, _, _, _, _, relations, deferred⟩, records => do
    let here ← loadBranches schema table deferred records
    let beneath ← loadDeferredBranches schema relations (records.map here)
    return fun record => beneath (here record)

/-- What loading deferred relations attaches to the records of each joined relation. -/
def loadDeferredBranches (schema : Schema) :
    List (JoinedBranchOf Layout) → List Record → Load (Record → Record)
  | [], _ => return id
  | ⟨name, _, _, layout⟩ :: rest, records => do
    let children := records.flatMap fun record =>
      ((record.lookup name).map Node.records).getD []
    let change ← layout.loadDeferred schema children
    let more ← loadDeferredBranches schema rest records
    return fun record => more (Dict.adjust name (Node.mapRecords change) record)

end

end NestedQuery
