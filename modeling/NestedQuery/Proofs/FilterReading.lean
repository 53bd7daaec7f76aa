import NestedQuery.Plan.Predicate
import NestedQuery.Proofs.Evaluation
import NestedQuery.Proofs.Patterns

/-!
# What a filter says

A filter has a meaning of its own, apart from the predicate that it is compiled
to: it is read off a row and the tables by recursion on the filter.  The reading
is three-valued, as null makes a comparison unknown, and a part of a filter that
does not apply says nothing at all, which is not the same as true: in a list of
alternatives one that says nothing makes the whole list say nothing.  A reading
is therefore nothing, or a truth value.
-/

namespace NestedQuery

/-! ### Several truth values -/

/-- All of the values: nothing for none of them. -/
def conjoin : List (Option Bool) → Option (Option Bool)
  | [] => none
  | truths => some (truths.foldr both (some true))

/-- Some of the values: nothing for none of them. -/
def disjoin : List (Option Bool) → Option (Option Bool)
  | [] => none
  | truths => some (truths.foldr either (some false))

/-- Whether a row is kept: nothing is said against it, or what is said is true. -/
def keeps : Option (Option Bool) → Bool
  | none => true
  | some truth => truth == some true

/-! ### Conditions on a value -/

/-- The value equals a constant, or differs from it if `negated`; a null constant asks for null. -/
def equalityTruth (value constant : Value) (negated : Bool) : Option Bool :=
  if constant.isNull then some (value.isNull != negated)
  else (value.compare constant).map fun order => (order == .eq) != negated

/-- The value is among constants; an empty list excludes every value, and not being in it says
nothing. -/
def membershipTruths (type : ColumnType) (value : Value) (constants : Option (List Value))
    (negated : Bool) : List (Option Bool) :=
  match constants with
  | none => []
  | some constants =>
    if !type.hasMembership then []
    else if constants.isEmpty then if negated then [] else [some false]
    else [if value.isNull then none else some (constants.any value.sqlEq != negated)]

/-- The value compares with a constant; nothing for columns without an order. -/
def rangeTruths (type : ColumnType) (value : Value) (op : Comparison)
    (constant : Option Value) : List (Option Bool) :=
  match constant with
  | some constant => if type.hasRange then [(value.compare constant).map op.holds] else []
  | none => []

/-- A text stands in the value, which reads as its literal if it is no text.  Without regard to
case both are taken in lower case, the text together with the wildcards around it. -/
def textTruth (value : Value) (insensitive before after : Bool) (needle : String) :
    Option Bool :=
  match value with
  | .null => none
  | .text s =>
    some (if insensitive then
        Like.isMatch (Text.lowercase s) (Text.lowercase (Like.pattern before after needle))
      else Like.placed before after needle.toList s.toList)
  | other => some (Like.placed before after needle.toList other.literal.toList)

/-- A text stands in the value; nothing for columns that hold no texts. -/
def textTruths (type : ColumnType) (value : Value) (insensitive before after : Bool)
    (needle : Option String) : List (Option Bool) :=
  match needle with
  | some needle => if type = .text then [textTruth value insensitive before after needle] else []
  | none => []

/-- What the tests before the negation of a condition say of a value. -/
def Tests.leadingTruths (tests : Tests) (value : Value) : List (Option Bool) :=
  (tests.isNull.map fun asked => some (value.isNull == asked)).toList ++
  (tests.isNotNull.map fun asked => some (value.isNull != asked)).toList ++
  (tests.equals.map fun constant => equalityTruth value constant false).toList

/-- What the tests after the negation of a condition say of a value. -/
def Tests.trailingTruths (tests : Tests) (type : ColumnType) (value : Value) :
    List (Option Bool) :=
  let insensitive := tests.mode = some .insensitive
  membershipTruths type value tests.oneOf false ++
  membershipTruths type value tests.noneOf true ++
  rangeTruths type value .lt tests.lt ++ rangeTruths type value .le tests.lte ++
  rangeTruths type value .gt tests.gt ++ rangeTruths type value .ge tests.gte ++
  textTruths type value insensitive true true tests.contains ++
  textTruths type value insensitive false true tests.startsWith ++
  textTruths type value insensitive true false tests.endsWith

/-- What a condition says of a value of a column; nothing if no operator applies. -/
def Condition.reading (type : ColumnType) (value : Value) : Condition → Option (Option Bool)
  | .only tests => conjoin (tests.leadingTruths value ++ tests.trailingTruths type value)
  | .butNot tests constant =>
    conjoin (tests.leadingTruths value ++
      equalityTruth value constant true :: tests.trailingTruths type value)
  | .butNotWhen tests inner =>
    conjoin (tests.leadingTruths value ++
      ((inner.reading type value).map fun truth => truth.map (!·)).toList ++
      tests.trailingTruths type value)

/-- What an entry on a column says of a row. -/
def Operand.columnReading (column : Column) (row : Row) : Operand → Option (Option Bool)
  | .literal constant => some (equalityTruth (row.value column.name) constant false)
  | .condition operators => operators.reading column.type (row.value column.name)
  | .related _ => none

/-! ### Related rows -/

/-- Whether a link of a relation leads from a row to a row of the target: the columns are equal, or
a row of the junction table has the columns of both. -/
def Relation.links (db : Database) (relation : Relation) (row other : Row) : Bool :=
  match relation.junction with
  | none => (other.value relation.toColumn).sqlEq (row.value relation.fromColumn)
  | some junction => (db.rows junction.table).any fun link =>
    (link.value junction.fromColumn).sqlEq (row.value relation.fromColumn) &&
      (other.value relation.toColumn).sqlEq (link.value junction.toColumn)

/-! ### Filters -/

mutual

/-- What a filter on a table says of a row. -/
def Filter.reading (schema : Schema) (db : Database) : Filter → Table → Row →
    Option (Option Bool)
  | .node allOf anyOf noneOf entries, table, row =>
    let alternatives := filterReadings schema db anyOf table row
    conjoin (entryReadings schema db entries table row ++
      (filterReadings schema db allOf table row).filterMap id ++
      (if alternatives.all Option.isSome then (disjoin (alternatives.filterMap id)).toList
        else []) ++
      ((filterReadings schema db noneOf table row).filterMap id).map fun truth =>
        truth.map (!·))

/-- What each filter says of a row. -/
def filterReadings (schema : Schema) (db : Database) : List Filter → Table → Row →
    List (Option (Option Bool))
  | [], _, _ => []
  | filter :: rest, table, row =>
    filter.reading schema db table row :: filterReadings schema db rest table row

/-- What the entries say of a row, each of a column or else of the related rows. -/
def entryReadings (schema : Schema) (db : Database) : List (String × Operand) → Table → Row →
    List (Option Bool)
  | [], _, _ => []
  | (key, operand) :: rest, table, row =>
    (match table.column? key, table.relation? key with
      | some column, _ => operand.columnReading column row
      | none, some relation => relatedReading schema db operand relation row
      | none, none => none).toList ++ entryReadings schema db rest table row

/-- What an entry on a relation says of a row: that the filter keeps a row linked to it. -/
def relatedReading (schema : Schema) (db : Database) : Operand → Relation → Row →
    Option (Option Bool)
  | .related inner, relation, row =>
    (schema.table? relation.target).map fun target =>
      some ((db.rows target.name).any fun other =>
        relation.links db row other && keeps (inner.reading schema db target other))
  | _, _, _ => none

end

/-- What an optional filter on a table says of a row; nothing of an unknown table. -/
def Schema.reading (schema : Schema) (db : Database) (table : String) (filter : Option Filter)
    (row : Row) : Option (Option Bool) :=
  match filter, schema.table? table with
  | some filter, some known => filter.reading schema db known row
  | _, _ => none

end NestedQuery
