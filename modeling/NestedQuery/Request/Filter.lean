import NestedQuery.Value

/-!
# Filters

A filter constrains the rows of a table.  Its entries are keyed by columns and
relations: a value, a condition of several operators, or a filter on the
related rows.  Filters combine by AND, OR and NOT lists.
-/

namespace NestedQuery

/-- How texts are matched. -/
inductive MatchMode where
  | exact
  | insensitive
  deriving DecidableEq, Repr

/-- The operators of a condition apart from its negation; those present are conjoined. -/
structure Tests where
  equals : Option Value := none
  oneOf : Option (List Value) := none
  noneOf : Option (List Value) := none
  lt : Option Value := none
  lte : Option Value := none
  gt : Option Value := none
  gte : Option Value := none
  contains : Option String := none
  startsWith : Option String := none
  endsWith : Option String := none
  mode : Option MatchMode := none
  isNull : Option Bool := none
  isNotNull : Option Bool := none
  deriving DecidableEq, Repr

/-- Operators on one column. -/
inductive Condition where
  /-- The tests alone. -/
  | only (tests : Tests)
  /-- The tests, and the column differs from a value. -/
  | butNot (tests : Tests) (value : Value)
  /-- The tests, and the column fails another condition. -/
  | butNotWhen (tests : Tests) (inner : Condition)
  deriving DecidableEq, Repr

/-- The tests of a condition. -/
def Condition.tests : Condition → Tests
  | .only tests | .butNot tests _ | .butNotWhen tests _ => tests

mutual

/-- A filter: lists of filters that must all hold, of which one must hold, of which none may
hold, and entries by key that must all hold. -/
inductive Filter where
  | node (allOf anyOf noneOf : List Filter) (entries : List (String × Operand))

/-- What an entry asks of its column or relation. -/
inductive Operand where
  /-- The column equals the value, or is null when the value is. -/
  | literal (value : Value)
  | condition (operators : Condition)
  /-- A related row satisfies the filter. -/
  | related (filter : Filter)

end

namespace Filter

/-- The filter that constrains nothing. -/
def empty : Filter := .node [] [] [] []

/-- The filters that must all hold. -/
def allOf : Filter → List Filter
  | .node allOf _ _ _ => allOf

/-- The filters of which one must hold, unless there are none. -/
def anyOf : Filter → List Filter
  | .node _ anyOf _ _ => anyOf

/-- The filters of which none may hold. -/
def noneOf : Filter → List Filter
  | .node _ _ noneOf _ => noneOf

/-- The entries in key order. -/
def entries : Filter → Dict Operand
  | .node _ _ _ entries => entries

/-- Whether the filter has no entry and no list. -/
def isEmpty (filter : Filter) : Bool :=
  filter.allOf.isEmpty && filter.anyOf.isEmpty && filter.noneOf.isEmpty && filter.entries.isEmpty

/-- The filter with an entry added, in place of any other of that key. -/
def entry (filter : Filter) (key : String) (operand : Operand) : Filter :=
  .node filter.allOf filter.anyOf filter.noneOf (Dict.put key operand filter.entries)

end Filter

end NestedQuery
