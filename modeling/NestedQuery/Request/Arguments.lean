import NestedQuery.Request.Filter
import NestedQuery.Request.Sorting

/-!
# Arguments of requests

What a caller asks for: columns and relations as a tree of choices, columns to
leave out, a filter, an ordering, a page, and how relations are loaded.
-/

namespace NestedQuery

/-- How a relation is joined. -/
inductive JoinKind where
  | inner
  | left
  | right
  | full
  deriving DecidableEq, Repr

/-- How relations are loaded. -/
inductive LoadStrategy where
  /-- With the base rows in one joined statement. -/
  | join
  /-- By statements that follow the base statement. -/
  | query
  deriving DecidableEq, Repr

/-- A choice of a column or a relation: a flag, or the arguments of a relation. -/
inductive Choice (Args : Type) where
  | flag (chosen : Bool)
  | relation (args : Args)

/-- How one relation is loaded and shaped. -/
structure RelationArgs where
  selected : Option (List (String × Choice RelationArgs)) := none
  included : Option (List (String × Choice RelationArgs)) := none
  omitted : Option (Dict Bool) := none
  filter : Option Filter := none
  orderBy : Option SortRequest := none
  take : Option Int := none
  skip : Option Nat := none
  distinct : Option (List String) := none
  joinKind : Option JoinKind := none

/-- Choices by column or relation. -/
abbrev Choices := Dict (Choice RelationArgs)

/-- The columns to leave out, by flag. -/
abbrev Omissions := Dict Bool

/-- Values of key columns after which a page starts. -/
abbrev Cursor := Dict Value

/-- The arguments of a request for records. -/
structure FindArgs where
  selected : Option Choices := none
  included : Option Choices := none
  omitted : Option Omissions := none
  strategy : Option LoadStrategy := none
  filter : Option Filter := none
  orderBy : Option SortRequest := none
  cursor : Option Cursor := none
  /-- The page size; a negative one pages backwards. -/
  take : Option Int := none
  skip : Option Nat := none
  distinct : Option (List String) := none

/-- The arguments of a request for the one record that a filter identifies. -/
structure UniqueArgs where
  filter : Filter
  selected : Option Choices := none
  included : Option Choices := none
  omitted : Option Omissions := none
  strategy : Option LoadStrategy := none

/-- The arguments of a request for a number of rows. -/
structure CountArgs where
  filter : Option Filter := none

/-- The request for all records that the filter identifies. -/
def UniqueArgs.toFind (args : UniqueArgs) : FindArgs :=
  { selected := args.selected, included := args.included, omitted := args.omitted,
    strategy := args.strategy, filter := some args.filter }

/-- The arguments with a relation included in its default shape. -/
def FindArgs.including (args : FindArgs) (relation : String) : FindArgs :=
  { args with included := some (Dict.put relation (.flag true) (args.included.getD [])) }

end NestedQuery
