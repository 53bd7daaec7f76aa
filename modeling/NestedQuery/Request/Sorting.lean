import NestedQuery.Dict

/-!
# Orderings

An ordering lists entries; an entry orders by its keys in the order in which
they are written, and a key that is written twice counts twice.
-/

namespace NestedQuery

/-- The direction of a sort key. -/
inductive Direction where
  | ascending
  | descending
  deriving DecidableEq, Repr

/-- The opposite direction. -/
def Direction.reverse : Direction → Direction
  | .ascending => .descending
  | .descending => .ascending

/-- Where nulls stand in a sorted list. -/
inductive NullPlacement where
  | first
  | last
  deriving DecidableEq, Repr

/-- The opposite end. -/
def NullPlacement.reverse : NullPlacement → NullPlacement
  | .first => .last
  | .last => .first

/-- How one key orders. -/
inductive SortSpec where
  | plain (direction : Direction)
  | placed (direction : Direction) (nulls : Option NullPlacement)
  /-- By the columns of a joined relation. -/
  | nested (keys : List (String × SortSpec))

/-- The keys of one entry in the order written. -/
abbrev SortEntry := List (String × SortSpec)

/-- An ordering, written as one entry or as a list of them. -/
inductive SortRequest where
  | one (entry : SortEntry)
  | many (entries : List SortEntry)

/-- The entries of an ordering. -/
def SortRequest.entries : SortRequest → List SortEntry
  | .one entry => [entry]
  | .many entries => entries

/-- The ordering by one key. -/
def SortRequest.by (key : String) (direction : Direction) : SortRequest :=
  .one [(key, .plain direction)]

end NestedQuery
