/-!
# Dictionaries in key order

Rows, records, tables of relations and most request objects are finite maps
from names to values whose listing order is part of every answer: names come
in increasing order of their code points.  A dictionary is therefore the list
of its pairs in that order, and looking up is `List.lookup`.
-/

namespace NestedQuery

/-- Pairs in increasing key order, each key once. -/
abbrev Dict (α : Type) := List (String × α)

namespace Dict

variable {α β : Type}

/-- Binds `name` to `value`, replacing an earlier binding. -/
def put (name : String) (value : α) : Dict α → Dict α
  | [] => [(name, value)]
  | (other, kept) :: rest =>
    if name < other then (name, value) :: (other, kept) :: rest
    else if name = other then (name, value) :: rest
    else (other, kept) :: put name value rest

/-- The dictionary of a list of pairs; of two pairs with one name the later holds. -/
def ofPairs (pairs : List (String × α)) : Dict α :=
  pairs.foldl (fun dict pair => put pair.1 pair.2 dict) []

/-- Adds every pair of `more`, replacing earlier bindings. -/
def putAll (dict : Dict α) (more : List (String × α)) : Dict α :=
  more.foldl (fun dict pair => put pair.1 pair.2 dict) dict

/-- The bound names, in order. -/
def names (dict : Dict α) : List String :=
  dict.map (·.1)

/-- Whether `name` is bound. -/
def binds (dict : Dict α) (name : String) : Bool :=
  dict.any (·.1 == name)

/-- Changes the value bound to `name`, if there is one. -/
def adjust (name : String) (change : α → α) (dict : Dict α) : Dict α :=
  dict.map fun pair => if pair.1 = name then (pair.1, change pair.2) else pair

end Dict

end NestedQuery
