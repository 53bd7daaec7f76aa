import NestedQuery.Schema.Basic
import NestedQuery.Request.Arguments

/-!
# The shape of records

Choices and omissions settle which columns of a table a record shows and which
relations it holds, and so on for the records of every relation.  A name that
is a column is never taken for a relation; a name that is neither is left out.
-/

namespace NestedQuery

/-- How one relation is loaded. -/
structure BranchOf (Shape : Type) where
  shape : Shape
  filter : Option Filter := none
  orderBy : Option SortRequest := none
  take : Option Int := none
  skip : Option Nat := none
  distinct : Option (List String) := none
  joinKind : JoinKind := .left

/-- What a record of a table shows. -/
structure Shape where
  /-- The columns in the order of declaration. -/
  fields : List String := []
  /-- The columns that were left out, in order. -/
  excluded : List String := []
  /-- The relations by name. -/
  relations : List (String × BranchOf Shape) := []

/-- How one relation is loaded. -/
abbrev Branch := BranchOf Shape

/-- Relations to load by name. -/
abbrev Branches := Dict Branch

namespace Shape

/-- Whether the records show the column. -/
def hasField (shape : Shape) (name : String) : Bool :=
  shape.fields.contains name

/-- Whether a choice asks for the thing by a flag. -/
def isChosen {Args : Type} : Choice Args → Bool
  | .flag chosen => chosen
  | .relation _ => false

/-- The chosen columns in the order of declaration; all if none is chosen. -/
def chosenFields (table : Table) (selected : Option Choices) : List String :=
  let chosen := ((selected.getD []).filter fun pair =>
    table.hasColumn pair.1 && isChosen pair.2).map (·.1)
  table.columnNames.filter fun name => chosen.isEmpty || chosen.contains name

/-- The fields without the omitted ones, and the omitted ones that were among them. -/
def omitFields (fields : List String) (omitted : Option Omissions) :
    List String × List String :=
  let dropped := ((omitted.getD []).filter (·.2)).map (·.1)
  dropped.foldl (fun (kept, excluded) name =>
    if kept.contains name then (kept.erase name, excluded ++ [name]) else (kept, excluded))
    (fields, [])

/-- The shape of records of a table with the given relations. -/
def ofTable (table : Table) (selected : Option Choices) (omitted : Option Omissions)
    (relations : Branches) : Shape :=
  let (fields, excluded) := omitFields (chosenFields table selected) omitted
  { fields, excluded, relations }

/-- The shape of records of a table when nothing is said: all columns and no relation. -/
def plain (schema : Schema) (table : String) : Shape :=
  match schema.table? table with
  | some known => ofTable known none none []
  | none => {}

end Shape

mutual

/-- How a relation to `target` is loaded under its arguments. -/
def RelationArgs.branch (schema : Schema) (target : String) : RelationArgs → Branch
  | ⟨selected, included, omitted, filter, orderBy, take, skip, distinct, joinKind⟩ =>
    let shape : Shape :=
      match schema.table? target with
      | some table =>
        .ofTable table selected omitted
          (chosenBranches schema table included (chosenBranches schema table selected []))
      | none => {}
    { shape, filter, orderBy, take, skip, distinct, joinKind := joinKind.getD .left }

/-- The relations that optional choices ask for, over those known before. -/
def chosenBranches (schema : Schema) (table : Table) :
    Option (List (String × Choice RelationArgs)) → Branches → Branches
  | none, known => known
  | some choices, known => addBranches schema table choices known

/-- The relations that choices ask for, over those known before. -/
def addBranches (schema : Schema) (table : Table) :
    List (String × Choice RelationArgs) → Branches → Branches
  | [], known => known
  | (key, choice) :: rest, known =>
    let known :=
      if table.hasColumn key then known
      else match table.relation? key with
        | none => known
        | some relation =>
          match choice with
          | .flag false => known
          | .flag true => Dict.put key { shape := .plain schema relation.target } known
          | .relation args => Dict.put key (args.branch schema relation.target) known
    addBranches schema table rest known

end

/-- The shape that choices and omissions give the records of a table; that of an unknown table
shows nothing. -/
def Schema.shape (schema : Schema) (table : String) (selected included : Option Choices)
    (omitted : Option Omissions) : Shape :=
  match schema.table? table with
  | some known =>
    .ofTable known selected omitted
      (chosenBranches schema known included (chosenBranches schema known selected []))
  | none => {}

end NestedQuery
