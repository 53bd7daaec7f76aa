import NestedQuery.Text.Lowercase

/-!
# Names of inferred relations

A foreign key names two relations: one on its own table, after its column or
the target, and one on the target, after its own table.
-/

namespace NestedQuery.Naming

/-- The plural of an identifier, by the rules of English spelling. -/
def pluralize (name : String) : String :=
  let ends := (Text.lowerAscii name).toList.reverse
  match ends with
  | 'y' :: before =>
    if before.head?.any (['a', 'e', 'i', 'o', 'u'].contains ·) then name ++ "s"
    else String.ofList name.toList.dropLast ++ "ies"
  | 's' :: _ | 'x' :: _ | 'z' :: _ | 'h' :: 'c' :: _ | 'h' :: 's' :: _ => name ++ "es"
  | _ => name ++ "s"

/-- The column without the ending that marks it as a key, if it has one and is not that alone. -/
def stem (column : String) : String :=
  let ends := column.toList.reverse
  match ends with
  | 'd' :: 'I' :: before => String.ofList before.reverse
  | 'd' :: 'i' :: '_' :: before => String.ofList before.reverse
  | _ => column

/-- Whether two texts differ at most in the case of the letters `A` to `Z`. -/
def eqIgnoringCase (a b : String) : Bool :=
  Text.lowerAscii a == Text.lowerAscii b

/-- The name of the relation that a foreign-key column makes on its own table: the stem of the
column, or the target when the stem is empty, is `id`, is the table itself, or is the whole
column. -/
def forward (column owner target : String) : String :=
  let stem := stem column
  if stem = "" || eqIgnoringCase stem "id" || eqIgnoringCase stem owner || stem = column then
    Text.lowerFirst target
  else stem

/-- The name of the relation that a foreign key makes on its target when it relates one record. -/
def backwardOne (owner : String) : String :=
  Text.lowerFirst owner

/-- The name of the relation that a foreign key makes on its target when it relates many. -/
def backwardMany (owner : String) : String :=
  pluralize (Text.lowerFirst owner)

end NestedQuery.Naming
