import NestedQuery.Request.Arguments

/-!
# Statements

A statement selects from one table and the tables joined to it, keeps the rows
for which a predicate holds, keeps one row of every group, sorts and cuts.
Predicates may contain statements of their own.  The clauses of a statement are
given once, over any type of expressions, and expressions then contain
statements over themselves.
-/

namespace NestedQuery

/-- A column of the table that is known under `qualifier`. -/
structure ColumnRef where
  qualifier : String
  name : String
  deriving DecidableEq, Repr

/-- What a statement yields in one output. -/
inductive Output where
  | column (ref : ColumnRef) (label : Option String)
  /-- The number of rows. -/
  | count (label : Option String)
  deriving DecidableEq, Repr

/-- The name of an output in result rows. -/
def Output.name : Output → String
  | .column ref label => label.getD ref.name
  | .count label => label.getD "COUNT(*)"

/-- A sort key. -/
structure SortKey where
  column : ColumnRef
  direction : Direction
  nulls : Option NullPlacement := none
  deriving DecidableEq, Repr

/-- The same key in the opposite order. -/
def SortKey.reverse (key : SortKey) : SortKey :=
  { key with direction := key.direction.reverse, nulls := key.nulls.map NullPlacement.reverse }

/-- A window of rows: at most `count` of them after `offset`. -/
structure Window where
  count : Option Nat := none
  offset : Option Nat := none
  deriving DecidableEq, Repr

/-- A table joined under a label. -/
structure JoinOf (Predicate : Type) where
  kind : JoinKind
  table : String
  /-- The alias under which the statement knows the table. -/
  label : String
  on : Predicate
  deriving DecidableEq, Repr

/-- The clauses of a statement. -/
structure SelectOf (Predicate : Type) where
  outputs : List Output := []
  table : String
  /-- The alias of the first table, which else is known by its own name. -/
  label : Option String := none
  joins : List (JoinOf Predicate) := []
  filter : Option Predicate := none
  groupBy : Option (List ColumnRef) := none
  orderBy : Option (List SortKey) := none
  window : Option Window := none
  deriving DecidableEq, Repr

/-- How two values are compared. -/
inductive Comparison where
  | eq
  | ne
  | lt
  | le
  | gt
  | ge
  deriving DecidableEq, Repr

/-- The two connectives. -/
inductive Connective where
  | and
  | or
  deriving DecidableEq, Repr

/-- An expression. -/
inductive Expr where
  | column (ref : ColumnRef)
  | literal (value : Value)
  | compare (left : Expr) (op : Comparison) (right : Expr)
  | connect (left : Expr) (op : Connective) (right : Expr)
  | not (inner : Expr)
  /-- Matching a pattern, in any case if `insensitive`. -/
  | like (subject : Expr) (pattern : String) (insensitive : Bool)
  | oneOf (subject : Expr) (values : List Value) (negated : Bool)
  | isNull (subject : Expr) (negated : Bool)
  /-- Whether a statement yields any row; it may refer to the rows around it. -/
  | exists (statement : SelectOf Expr)

/-- A joined table of a statement. -/
abbrev Join := JoinOf Expr

/-- A statement. -/
abbrev Select := SelectOf Expr

namespace Expr

/-- A column as an expression. -/
def col (qualifier name : String) : Expr :=
  .column ⟨qualifier, name⟩

/-- Both expressions hold. -/
def and (left right : Expr) : Expr :=
  .connect left .and right

/-- One of the expressions holds. -/
def or (left right : Expr) : Expr :=
  .connect left .or right

/-- All expressions joined from the left by `join`; none of no expressions. -/
def joinAll? (join : Expr → Expr → Expr) : List Expr → Option Expr
  | [] => none
  | first :: rest => some (rest.foldl join first)

/-- All expressions hold; none of no expressions. -/
def conjunction? : List Expr → Option Expr :=
  joinAll? and

/-- Some expression holds; none of no expressions. -/
def disjunction? : List Expr → Option Expr :=
  joinAll? or

end Expr

namespace SelectOf

/-- The name under which the columns of the first table are known. -/
def qualifier {Predicate : Type} (statement : SelectOf Predicate) : String :=
  statement.label.getD statement.table

/-- The statement with one more condition. -/
def andWhere (statement : Select) (condition : Expr) : Select :=
  { statement with
    filter := some (match statement.filter with
      | some known => known.and condition
      | none => condition) }

/-- The statement with one more condition, if there is one. -/
def andWhere? (statement : Select) (condition : Option Expr) : Select :=
  match condition with
  | some condition => statement.andWhere condition
  | none => statement

end SelectOf

end NestedQuery
