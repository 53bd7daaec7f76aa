import NestedQuery.Engine.FollowUp
import NestedQuery.Engine.Settings

/-!
# Finding and counting records

A request for records becomes a base statement over its table: filter, cursor,
ordering and page.  Under the join strategy the relations are joined into it as
far as they can be; when joined rows may repeat a record, the page is cut from
the records instead of the rows.  Under the query strategy, or when nothing can
be joined, relations are loaded by follow-up statements.  A negative page size
walks the order backwards and turns the result round.
-/

namespace NestedQuery

/-- The page of a request. -/
structure Paging where
  size : Option Nat
  skip : Option Nat
  backwards : Bool
  deriving DecidableEq, Repr

/-- An engine: a schema with settings. -/
structure Engine where
  schema : Schema
  settings : Settings := {}

/-- The output name of a number of rows. -/
def countName : String := "_count"

/-- The columns of the table among those to be distinct by. -/
def Table.distinctColumns (table : Table) (distinct : Option (List String)) : List String :=
  (distinct.getD []).filter table.hasColumn

/-- The condition that a row comes after the cursor, or before it when paging backwards: every
column of the cursor on its own. -/
def Table.cursorPredicate? (table : Table) (cursor : Cursor) (backwards : Bool) : Option Expr :=
  Expr.conjunction? ((cursor.filter fun pair => table.hasColumn pair.1).map
    fun (column, value) =>
      .compare (.col table.name column) (if backwards then .lt else .gt) (.literal value))

/-- The sort keys of the primary key. -/
def Table.keyOrder (table : Table) : List SortKey :=
  (table.key.filter table.hasColumn).map fun column =>
    ⟨⟨table.name, column⟩, .ascending, none⟩

/-- The number that a counting statement reports: whole and not negative, also as a text. -/
def countOf? : Value → Option Nat
  | .integer n => if 0 ≤ n then some n.toNat else none
  | .float x =>
    if x.isNonneg then x.whole?.map fun n => min n.toNat (unsignedBound - 1) else none
  | .text s =>
    let digits :=
      match Text.trim s.toList with
      | '+' :: rest => rest
      | cs => cs
    if digits.isEmpty then none
    else match Binary64.readDigits 0 digits with
      | (n, []) => if n < unsignedBound then some n else none
      | _ => none
  | _ => none

/-- A list of keys as the ordering of a statement; no ordering for no keys. -/
def orderClause (keys : List SortKey) : Option (List SortKey) :=
  if keys.isEmpty then none else some keys

namespace Engine

/-- The page of a request. -/
def paging (engine : Engine) (args : FindArgs) : Paging :=
  { size := engine.settings.pageSize args.take
    skip := args.skip
    backwards := args.take.any (· < 0) }

/-- The sort keys of a request: those asked for, else the primary key when there is a cursor or
the page is taken backwards; reversed in the latter case. -/
def baseOrder (engine : Engine) (table : Table) (args : FindArgs) (backwards : Bool)
    (joined : JoinedTables) : List SortKey :=
  let asked := engine.schema.sortKeys table.name table.name args.orderBy joined
  let keys :=
    if asked.isEmpty && (args.cursor.isSome || backwards) then table.keyOrder else asked
  if backwards then keys.map SortKey.reverse else keys

/-- The statement over the base table, still without outputs: filter, cursor and ordering, and if
`paged` also grouping by the distinct columns and the window. -/
def baseStatement (engine : Engine) (table : Table) (args : FindArgs) (paging : Paging)
    (joined : JoinedTables) (paged : Bool) : Select :=
  let base : Select := { table := table.name }
  let filtered := base.andWhere?
    (engine.schema.predicate? table.name table.name args.filter joined 0).1
  let positioned := filtered.andWhere?
    (args.cursor.bind (table.cursorPredicate? · paging.backwards))
  let distinct := table.distinctColumns args.distinct
  { positioned with
    orderBy := orderClause (engine.baseOrder table args paging.backwards joined)
    groupBy :=
      if paged && !distinct.isEmpty then some (distinct.map (⟨table.name, ·⟩)) else none
    window :=
      if paged && (paging.size.isSome || paging.skip.isSome) then
        some ⟨paging.size, paging.skip⟩
      else none }

/-- The one statement of a layout: the base statement with joins and outputs, and with the clauses
that the joined relations bring along. -/
def joinedStatement (engine : Engine) (table : Table) (args : FindArgs) (paging : Paging)
    (layout : Layout) (planner : Planner) : Select :=
  let base := engine.baseStatement table args paging layout.joinedTables !layout.fansOut
  let joined := planner.apply base
  let clauses := (layout.clauses engine.schema 0).1
  let projected : Select := { joined with outputs := joined.outputs ++ layout.projection }
  let filtered := projected.andWhere? (Expr.conjunction? clauses.predicates)
  { filtered with orderBy := orderClause (filtered.orderBy.getD [] ++ clauses.keys) }

/-- Finds records with one joined statement. -/
def findJoined (engine : Engine) (table : Table) (args : FindArgs) (paging : Paging)
    (layout : Layout) (planner : Planner) : Load (List Record) := do
  let rows ← Load.query (engine.joinedStatement table args paging layout planner)
  let records := layout.assemble rows
  let paged :=
    if layout.fansOut then
      pageOf paging.skip paging.size (distinctBy (table.distinctColumns args.distinct) records)
    else records
  let load ← layout.loadDeferred engine.schema paged
  return paged.map fun record => layout.strip (load record)

/-- Finds records with a base statement and follow-up statements. -/
def findSeparately (engine : Engine) (table : Table) (args : FindArgs) (paging : Paging)
    (shape : Shape) : Load (List Record) := do
  let names := shape.relations.map (·.1)
  let columns := withHidden shape.fields (table.linkColumns names)
  let statement : Select :=
    { engine.baseStatement table args paging [] true with
      outputs := plainOutputs table.name columns }
  let rows ← Load.query statement
  let records := rows.map Row.toRecord
  let load ← loadBranches engine.schema table.name shape.relations records
  return records.map fun record => (load record).shown shape.fields names

/-- Finds the records of a table that a request asks for. -/
def findMany (engine : Engine) (table : String) (args : FindArgs) : Load (List Record) :=
  match engine.schema.table? table with
  | none => .fail (.unknownTable table)
  | some known => do
    let shape := engine.schema.shape table args.selected args.included args.omitted
    let paging := engine.paging args
    let (layout, planner) :=
      shape.layout engine.schema table (known.distinctColumns args.distinct)
    let records ←
      if args.strategy.getD engine.settings.strategy = .join ∧ !planner.joins.isEmpty then
        engine.findJoined known args paging layout planner
      else engine.findSeparately known args paging shape
    return if paging.backwards then records.reverse else records

/-- Finds the first record that a request asks for; its page size counts as one. -/
def findFirst (engine : Engine) (table : String) (args : FindArgs) : Load (Option Record) := do
  let records ← engine.findMany table { args with take := some 1 }
  return records.head?

/-- Finds the record that a filter identifies. -/
def findUnique (engine : Engine) (table : String) (args : UniqueArgs) : Load (Option Record) :=
  engine.findFirst table args.toFind

/-- The statement that counts the rows of a table under a filter. -/
def countStatement (engine : Engine) (table : String) (filter : Option Filter) : Select :=
  ({ table, outputs := [.count (some countName)] } : Select).andWhere?
    (engine.schema.predicate? table table filter [] 0).1

/-- The number of rows of a table under a filter. -/
def countWhere (engine : Engine) (table : String) (filter : Option Filter) : Load Nat :=
  match engine.schema.table? table with
  | none => .fail (.unknownTable table)
  | some _ => do
    let rows ← Load.query (engine.countStatement table filter)
    let value := (rows.head?.bind fun row => row.lookup countName).getD (.integer 0)
    match countOf? value with
    | some n => return n
    | none => .fail (.execution (.unexpectedCount value))

/-- The number of rows that a request counts. -/
def count (engine : Engine) (table : String) (args : CountArgs) : Load Nat :=
  engine.countWhere table args.filter

/-- Whether any row of a table satisfies a filter. -/
def anyWhere (engine : Engine) (table : String) (filter : Filter) : Load Bool := do
  let n ← engine.countWhere table (some filter)
  return 0 < n

end Engine

/-- Tables as a source of rows. -/
def Database.source : Source Database :=
  fun statement db => (db.run statement, db)

/-- An answer laid down beforehand: rows, or a refusal. -/
abbrev Response := Except String (List Row)

/-- Answers laid down beforehand as a source: each is given once, and then there are no rows. -/
def scriptedSource : Source (List Response)
  | _, [] => (.ok [], [])
  | _, .ok rows :: rest => (.ok rows, rest)
  | _, .error text :: rest => (.error (.execution (.refused text)), rest)

end NestedQuery
