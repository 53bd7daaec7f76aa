import NestedQuery.Plan.Joins
import NestedQuery.Statement.Like

/-!
# Filters as predicates

A filter on a table becomes a predicate over the qualifier of the table, or
nothing when it constrains nothing.  A filter on a relation speaks about the
label of the relation when it is joined; otherwise it becomes a statement whose
rows must exist, under a label of its own.  Keys that name nothing, operands
that do not suit their key, and operators that do not apply to the type of
their column are left out.
-/

namespace NestedQuery

/-! ### Conditions -/

/-- Whether columns of the type have an order that filters may use. -/
def ColumnType.hasRange : ColumnType → Bool
  | .text | .integer | .float | .timestamp => true
  | .boolean | .json => false

/-- Whether columns of the type can be tested for membership in a list. -/
def ColumnType.hasMembership : ColumnType → Bool
  | .boolean | .json => false
  | _ => true

/-- The column equals a value, or differs from it if `negated`; null is tested as null. -/
def equality (target : Expr) (value : Value) (negated : Bool) : Expr :=
  if value.isNull then .isNull target negated
  else .compare target (if negated then .ne else .eq) (.literal value)

/-- The column is among values; no list of values is needed for the empty one. -/
def membership (type : ColumnType) (target : Expr) (values : Option (List Value))
    (negated : Bool) : List Expr :=
  match values with
  | none => []
  | some values =>
    if !type.hasMembership then []
    else if values.isEmpty then if negated then [] else [.literal (.boolean false)]
    else [.oneOf target values negated]

/-- The column compares with a value. -/
def range (type : ColumnType) (target : Expr) (op : Comparison) (value : Option Value) :
    List Expr :=
  match value with
  | some value => if type.hasRange then [.compare target op (.literal value)] else []
  | none => []

/-- The column holds a text, with anything before or after it as allowed. -/
def textMatch (type : ColumnType) (target : Expr) (insensitive before after : Bool)
    (needle : Option String) : List Expr :=
  match needle with
  | some needle =>
    if type = .text then [.like target (Like.pattern before after needle) insensitive] else []
  | none => []

/-- The predicates of the tests that come before the negation of a condition. -/
def Tests.leading (tests : Tests) (target : Expr) : List Expr :=
  (tests.isNull.map fun asked => Expr.isNull target !asked).toList ++
  (tests.isNotNull.map fun asked => Expr.isNull target asked).toList ++
  (tests.equals.map fun value => equality target value false).toList

/-- The predicates of the tests that come after the negation of a condition. -/
def Tests.trailing (tests : Tests) (type : ColumnType) (target : Expr) : List Expr :=
  let insensitive := tests.mode = some .insensitive
  membership type target tests.oneOf false ++ membership type target tests.noneOf true ++
  range type target .lt tests.lt ++ range type target .le tests.lte ++
  range type target .gt tests.gt ++ range type target .ge tests.gte ++
  textMatch type target insensitive true true tests.contains ++
  textMatch type target insensitive false true tests.startsWith ++
  textMatch type target insensitive true false tests.endsWith

/-- The predicate of a condition on a column; none if no operator applies. -/
def Condition.predicate? (type : ColumnType) (target : Expr) : Condition → Option Expr
  | .only tests =>
    Expr.conjunction? (tests.leading target ++ tests.trailing type target)
  | .butNot tests value =>
    Expr.conjunction?
      (tests.leading target ++ equality target value true :: tests.trailing type target)
  | .butNotWhen tests inner =>
    Expr.conjunction?
      (tests.leading target ++ ((inner.predicate? type target).map Expr.not).toList ++
        tests.trailing type target)

/-- The predicate of an entry on a column. -/
def Operand.columnPredicate? (column : Column) (qualifier : String) : Operand → Option Expr
  | .literal value => some (equality (.col qualifier column.name) value false)
  | .condition operators => operators.predicate? column.type (.col qualifier column.name)
  | .related _ => none

/-! ### Related rows -/

/-- The label with number `n` of a table in a predicate. -/
def subLabel (base : String) (n : Nat) : String :=
  base ++ "_sq" ++ toString n

/-- Two columns are equal. -/
def columnsEqual (left right : ColumnRef) : Expr :=
  .compare (.column left) .eq (.column right)

/-- Some related row satisfies the predicate: rows of the target under `label`, linked to the row
under `qualifier` directly or by a row of the junction table under the next label after `n`.
Gives the last number used. -/
def existence (relation : Relation) (qualifier target label : String) (predicate : Option Expr)
    (n : Nat) : Expr × Nat :=
  let rows : Select := ({ table := target, label := some label } : Select).andWhere? predicate
  match relation.junction with
  | none =>
    (.exists (rows.andWhere
      (columnsEqual ⟨label, relation.toColumn⟩ ⟨qualifier, relation.fromColumn⟩)), n)
  | some junction =>
    let link := subLabel junction.table (n + 1)
    let linked := rows.andWhere
      (columnsEqual ⟨label, relation.toColumn⟩ ⟨link, junction.toColumn⟩)
    let links : Select := { table := junction.table, label := some link }
    (.exists ((links.andWhere
      (columnsEqual ⟨link, junction.fromColumn⟩ ⟨qualifier, relation.fromColumn⟩)).andWhere
      (.exists linked)), n + 1)

/-! ### Filters -/

/-- Some branch holds; nothing if a branch constrains nothing or there is none. -/
def someBranch (branches : List (Option Expr)) : List Expr :=
  if branches.all Option.isSome then (Expr.disjunction? (branches.filterMap id)).toList else []

mutual

/-- The predicate of a filter on a table known under `qualifier`, where `n` labels have been
used; gives the number used then. -/
def Filter.predicate? (schema : Schema) : Filter → Table → String → JoinedTables → Nat →
    Option Expr × Nat
  | .node allOf anyOf noneOf entries, table, qualifier, joined, n =>
    let (parts, n) := entryPredicates schema entries table qualifier joined n
    let (every, n) := filterPredicates schema allOf table qualifier joined n
    let (branches, n) := filterPredicates schema anyOf table qualifier joined n
    let (excluded, n) := filterPredicates schema noneOf table qualifier joined n
    (Expr.conjunction? (parts ++ (Expr.conjunction? (every.filterMap id)).toList ++
      someBranch branches ++ (excluded.filterMap id).map Expr.not), n)

/-- The predicate of each filter. -/
def filterPredicates (schema : Schema) : List Filter → Table → String → JoinedTables → Nat →
    List (Option Expr) × Nat
  | [], _, _, _, n => ([], n)
  | filter :: rest, table, qualifier, joined, n =>
    let (first, n) := filter.predicate? schema table qualifier joined n
    let (others, n) := filterPredicates schema rest table qualifier joined n
    (first :: others, n)

/-- The predicates of entries, each on a column or else on a relation of the table. -/
def entryPredicates (schema : Schema) : List (String × Operand) → Table → String →
    JoinedTables → Nat → List Expr × Nat
  | [], _, _, _, n => ([], n)
  | (key, operand) :: rest, table, qualifier, joined, n =>
    let (first, n) : Option Expr × Nat :=
      match table.column? key, table.relation? key with
      | some column, _ => (operand.columnPredicate? column qualifier, n)
      | none, some relation =>
        relationPredicate? schema operand relation qualifier joined n
      | none, none => (none, n)
    let (others, n) := entryPredicates schema rest table qualifier joined n
    (first.toList ++ others, n)

/-- The predicate of an entry on a relation, which must be a filter. -/
def relationPredicate? (schema : Schema) : Operand → Relation → String → JoinedTables → Nat →
    Option Expr × Nat
  | .related inner, relation, qualifier, joined, n =>
    match joined.lookup relation.name with
    | some under =>
      match schema.table? under.table with
      | some target => inner.predicate? schema target under.label under.nested n
      | none => (none, n)
    | none =>
      match schema.table? relation.target with
      | some target =>
        let label := subLabel relation.name (n + 1)
        let (predicate, n) := inner.predicate? schema target label [] (n + 1)
        let (found, n) := existence relation qualifier target.name label predicate n
        (some found, n)
      | none => (none, n)
  | _, _, _, _, n => (none, n)

end

/-- The predicate of an optional filter on a table by its name; none of an unknown table. -/
def Schema.predicate? (schema : Schema) (table qualifier : String) (filter : Option Filter)
    (joined : JoinedTables) (n : Nat) : Option Expr × Nat :=
  match filter, schema.table? table with
  | some filter, some known => filter.predicate? schema known qualifier joined n
  | _, _ => (none, n)

end NestedQuery
