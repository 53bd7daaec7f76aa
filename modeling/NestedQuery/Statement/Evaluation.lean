import NestedQuery.QueryError
import NestedQuery.Record
import NestedQuery.Statement.Basic
import NestedQuery.Statement.Like
import NestedQuery.Statement.Sorting
import NestedQuery.Text.Lowercase

/-!
# What a statement means

Statements are read over plain lists of rows.  A row of a join binds every
qualifier to a row of its table, or to no row on the side of an outer join that
had no match.  Predicates are three-valued: true, false and unknown, which is
also how null reads; only true keeps a row.  The one thing that can go wrong is
a qualifier that nothing binds.
-/

namespace NestedQuery

/-- Tables by name, each the list of its rows; a table that is not there has no rows. -/
abbrev Database := Dict (List Row)

/-- The rows of a table. -/
def Database.rows (db : Database) (table : String) : List Row :=
  (db.lookup table).getD []

/-- The database with rows added at the end of a table. -/
def Database.insert (db : Database) (table : String) (rows : List Row) : Database :=
  Dict.put table (db.rows table ++ rows) db

/-- The row bound to each qualifier, the nearest first; none where an outer join had no match. -/
abbrev Bindings := List (String × Option Row)

/-- The value of a column: null where its qualifier has no row or its row no such column. -/
def Bindings.value (bindings : Bindings) (column : ColumnRef) : Except QueryError Value :=
  match bindings.lookup column.qualifier with
  | some row => return (row.bind (·.lookup column.name)).getD .null
  | none => throw (.execution (.unknownQualifier column.qualifier))

/-! ### Truth -/

/-- A truth value as a scalar: unknown is null. -/
def truthValue : Option Bool → Value
  | some b => .boolean b
  | none => .null

/-- How a scalar reads as a predicate: null is unknown, and what is no truth value is true. -/
def Value.truth : Value → Option Bool
  | .boolean b => some b
  | .null => none
  | _ => some true

/-- Whether a comparison holds of two values in the given order. -/
def Comparison.holds : Comparison → Ordering → Bool
  | .eq, order => order == .eq
  | .ne, order => order != .eq
  | .lt, order => order == .lt
  | .le, order => order != .gt
  | .gt, order => order == .gt
  | .ge, order => order != .lt

/-- Both: false as soon as one is false, unknown if one is unknown otherwise. -/
def both : Option Bool → Option Bool → Option Bool
  | some false, _ | _, some false => some false
  | some true, some true => some true
  | _, _ => none

/-- Either: true as soon as one is true, unknown if one is unknown otherwise. -/
def either : Option Bool → Option Bool → Option Bool
  | some true, _ | _, some true => some true
  | some false, some false => some false
  | _, _ => none

/-- The truth value of two connected predicates. -/
def Connective.apply : Connective → Option Bool → Option Bool → Option Bool
  | .and => both
  | .or => either

/-- The truth value on the left that decides, whatever stands on the right. -/
def Connective.deciding : Connective → Option Bool
  | .and => some false
  | .or => some true

/-- Whether a value matches a pattern; a value that is no text matches as its literal. -/
def Value.isLike (value : Value) (pattern : String) (insensitive : Bool) : Option Bool :=
  match value with
  | .null => none
  | .text s =>
    some (if insensitive then Like.isMatch (Text.lowercase s) (Text.lowercase pattern)
      else Like.isMatch s pattern)
  | other => some (Like.isMatch other.literal pattern)

/-- Whether a value is among others; unknown for null only. -/
def Value.isOneOf (value : Value) (values : List Value) (negated : Bool) : Option Bool :=
  if value.isNull then none else some (values.any value.sqlEq != negated)

/-! ### Sorting and grouping -/

/-- Whether nulls come first: as asked, else in a descending order. -/
def SortKey.nullsFirst (key : SortKey) : Bool :=
  match key.nulls with
  | some .first => true
  | some .last => false
  | none => key.direction == .descending

/-- The order of two values under one key. -/
def SortKey.order (key : SortKey) (a b : Value) : Ordering :=
  match a.isNull, b.isNull with
  | true, true => .eq
  | true, false => if key.nullsFirst then .lt else .gt
  | false, true => if key.nullsFirst then .gt else .lt
  | false, false =>
    match key.direction with
    | .ascending => a.sortOrder b
    | .descending => (a.sortOrder b).swap

/-- The order of two lists of values under a list of keys: the first difference decides. -/
def sortOrder : List SortKey → List Value → List Value → Ordering
  | key :: keys, a :: as, b :: bs => (key.order a b).then (sortOrder keys as bs)
  | _, _, _ => .eq

/-- The first item of every key, in order. -/
def firstOfEach {α : Type} (key : α → String) (seen : List String) : List α → List α
  | [] => []
  | item :: rest =>
    if seen.contains (key item) then firstOfEach key seen rest
    else item :: firstOfEach key (key item :: seen) rest

/-- The values of columns. -/
def Bindings.values (bindings : Bindings) (columns : List ColumnRef) :
    Except QueryError (List Value) :=
  columns.mapM bindings.value

/-- One row of every group: the first. -/
def groupRows (groupBy : Option (List ColumnRef)) (outer : Bindings) (rows : List Bindings) :
    Except QueryError (List Bindings) :=
  match groupBy with
  | none => return rows
  | some columns => do
    let keyed ← rows.mapM fun row => do
      return (Value.jointKey (← (row ++ outer).values columns), row)
    return (firstOfEach (·.1) [] keyed).map (·.2)

/-- The rows in the order of the keys, where these order them; rows that the keys do not tell apart
keep their order. -/
def sortRows (orderBy : Option (List SortKey)) (outer : Bindings) (rows : List Bindings) :
    Except QueryError (List Bindings) :=
  match orderBy with
  | none => return rows
  | some keys => do
    let keyed ← rows.mapM fun row => do
      return ((← (row ++ outer).values (keys.map (·.column))), row)
    return (stableSort (fun a b => sortOrder keys a.1 b.1) keyed).map (·.2)

/-! ### Joining -/

/-- The pairs of a row on the left with rows on the right that a predicate accepts, each right row
with its position. -/
def matching (holds : Bindings → Except QueryError (Option Bool)) (label : String)
    (left : Bindings) (right : List (Nat × Row)) :
    Except QueryError (List (Nat × Bindings)) := do
  let tried ← right.mapM fun (position, row) => do
    let candidate := left ++ [(label, some row)]
    return if (← holds candidate) = some true then some (position, candidate) else none
  return tried.filterMap id

/-- The rows of a join: the accepted pairs of every left row, or the left row alone if it has
none and the join keeps it; then the right rows that no pair has, if the join keeps them. -/
def joinRows (holds : Bindings → Except QueryError (Option Bool)) (kind : JoinKind)
    (label : String) (qualifiers : List String) (left : List Bindings) (right : List Row) :
    Except QueryError (List Bindings) := do
  let numbered := (List.range right.length).zip right
  let pairs ← left.mapM fun row => do
    return (row, ← matching holds label row numbered)
  let keepsLeft := kind = .left ∨ kind = .full
  let keepsRight := kind = .right ∨ kind = .full
  let fromLeft := pairs.flatMap fun (row, found) =>
    if found.isEmpty ∧ keepsLeft then [row ++ [(label, none)]] else found.map (·.2)
  let used := pairs.flatMap fun (_, found) => found.map (·.1)
  let unmatched := numbered.filter fun (position, _) => !used.contains position
  let fromRight :=
    if keepsRight then
      unmatched.map fun (_, row) => qualifiers.map (·, none) ++ [(label, some row)]
    else []
  return fromLeft ++ fromRight

/-! ### Statements -/

mutual

/-- The value of an expression; of a predicate, its truth value. -/
def Expr.eval (db : Database) : Expr → Bindings → Except QueryError Value
  | .column ref, bindings => bindings.value ref
  | .literal value, _ => return value
  | .compare left op right, bindings => do
    let l ← left.eval db bindings
    let r ← right.eval db bindings
    return truthValue ((l.compare r).map op.holds)
  | .connect left op right, bindings => do
    let l ← left.eval db bindings
    if l.truth = op.deciding then return truthValue op.deciding
    else
      let r ← right.eval db bindings
      return truthValue (op.apply l.truth r.truth)
  | .not inner, bindings => do
    return truthValue ((← inner.eval db bindings).truth.map (!·))
  | .like subject pattern insensitive, bindings => do
    return truthValue ((← subject.eval db bindings).isLike pattern insensitive)
  | .oneOf subject values negated, bindings => do
    return truthValue ((← subject.eval db bindings).isOneOf values negated)
  | .isNull subject negated, bindings => do
    return .boolean ((← subject.eval db bindings).isNull != negated)
  | .exists statement, bindings => do
    return .boolean (!(← selectRows db statement bindings).isEmpty)

/-- The rows of a statement before its window and its outputs. -/
def selectRows (db : Database) : SelectOf Expr → Bindings → Except QueryError (List Bindings)
  | ⟨_, table, label, joins, filter, groupBy, orderBy, _⟩, outer => do
    let qualifier := label.getD table
    let base := (db.rows table).map fun row => [(qualifier, some row)]
    let joined ← joinAll db joins [qualifier] base outer
    let kept ← keepRows db filter joined outer
    let grouped ← groupRows groupBy outer kept
    sortRows orderBy outer grouped

/-- The rows with every table joined in turn. -/
def joinAll (db : Database) : List (JoinOf Expr) → List String → List Bindings → Bindings →
    Except QueryError (List Bindings)
  | [], _, rows, _ => return rows
  | ⟨kind, table, label, on⟩ :: rest, qualifiers, rows, outer => do
    let holds := fun row => do return (← on.eval db (row ++ outer)).truth
    let joined ← joinRows holds kind label qualifiers rows (db.rows table)
    joinAll db rest (qualifiers ++ [label]) joined outer

/-- The rows for which the predicate is true. -/
def keepRows (db : Database) : Option Expr → List Bindings → Bindings →
    Except QueryError (List Bindings)
  | none, rows, _ => return rows
  | some condition, rows, outer =>
    rows.filterM fun row => do return (← condition.eval db (row ++ outer)).truth = some true

end

/-- The truth value of a predicate. -/
def Expr.truth (db : Database) (expr : Expr) (bindings : Bindings) :
    Except QueryError (Option Bool) := do
  return (← expr.eval db bindings).truth

/-- The rows inside a window. -/
def Window.cut {α : Type} (window : Option Window) (rows : List α) : List α :=
  match window with
  | none => rows
  | some window =>
    let rest := rows.drop (window.offset.getD 0)
    match window.count with
    | some count => rest.take count
    | none => rest

/-- The result row of a row: its outputs, or without any all columns of all its tables. -/
def project (outputs : List Output) (row : Bindings) : Except QueryError Row :=
  if outputs.isEmpty then
    return row.foldl (fun result source => Dict.putAll result (source.2.getD [])) []
  else
    outputs.foldlM (fun result output =>
      match output with
      | .column ref _ => do return Dict.put output.name (← row.value ref) result
      | .count _ => return result) []

/-- The output of a statement that counts, if it has one. -/
def SelectOf.counter? {Predicate : Type} (statement : SelectOf Predicate) : Option Output :=
  statement.outputs.find? fun
    | .count _ => true
    | .column _ _ => false

/-- Runs a statement: the number of its rows if it counts, else the rows in its window. -/
def Database.run (db : Database) (statement : Select) : Except QueryError (List Row) := do
  let rows ← selectRows db statement []
  match statement.counter? with
  | some output => return [[(output.name, .integer rows.length)]]
  | none => (Window.cut statement.window rows).mapM (project statement.outputs)

end NestedQuery
