import NestedQuery.Json.Reader
import NestedQuery.Request.Arguments

/-!
# Requests as JSON documents

Filters, orderings, choices and arguments are read from documents.  Where
several forms are possible the first that fits is taken, and then no part of
the document may be flawed; a field that no argument has is not looked at.
-/

namespace NestedQuery

open Json

/-! ### Filters -/

/-- The match modes by name. -/
def MatchMode.names : List (String × MatchMode) :=
  [("default", .exact), ("insensitive", .insensitive)]

namespace Condition

/-- The names of the operators in order. -/
def operators : List String :=
  ["equals", "not", "in", "notIn", "lt", "lte", "gt", "gte", "contains", "startsWith", "endsWith",
   "mode", "isNull", "isNotNull"]

/-- Reads the tests among the fields of a condition. -/
def readTests? (fields : Fields) : Option Tests := do
  return {
    equals := ← fields.present? "equals" Value.ofJson?
    oneOf := ← fields.optional? "in" (list? Value.ofJson?)
    noneOf := ← fields.optional? "notIn" (list? Value.ofJson?)
    lt := ← fields.optional? "lt" Value.ofJson?
    lte := ← fields.optional? "lte" Value.ofJson?
    gt := ← fields.optional? "gt" Value.ofJson?
    gte := ← fields.optional? "gte" Value.ofJson?
    contains := ← fields.optional? "contains" string?
    startsWith := ← fields.optional? "startsWith" string?
    endsWith := ← fields.optional? "endsWith" string?
    mode := ← fields.optional? "mode" (oneOf? MatchMode.names)
    isNull := ← fields.optional? "isNull" bool?
    isNotNull := ← fields.optional? "isNotNull" bool? }

mutual

/-- Reads a condition: operators by name, none unknown, or all of them by position. -/
def ofJson? : Json → Option Condition
  | .object fields => do
    let known ← objectFields? operators true fields
    let tests ← readTests? known
    return (← negation? fields) tests
  | .array items => do
    if items.length = operators.length then
      let tests ← readTests? (operators.zip items)
      return (← secondNegation? items) tests
    else none
  | _ => none

/-- Reads the negation among the fields of a condition: a value, or a condition. -/
def negation? : List (String × Json) → Option (Tests → Condition)
  | [] => some .only
  | (name, operand) :: rest =>
    if name = "not" then
      match Value.ofJson? operand with
      | some value => some (.butNot · value)
      | none => (ofJson? operand).map fun inner tests => .butNotWhen tests inner
    else negation? rest

/-- Reads the negation in the second place. -/
def secondNegation? : List Json → Option (Tests → Condition)
  | _ :: operand :: _ =>
    match Value.ofJson? operand with
    | some value => some (.butNot · value)
    | none => (ofJson? operand).map fun inner tests => .butNotWhen tests inner
  | _ => none

end

end Condition

namespace Filter

/-- The keys that hold lists of filters. -/
def combinators : List String := ["AND", "OR", "NOT"]

mutual

/-- Reads a filter from a document without flaws. -/
def read? : Json → Option Filter
  | .object fields => do
    let keys := (fields.map (·.1)).filter combinators.contains
    if keys.eraseDups.length = keys.length then
      let allOf ← readList? "AND" fields
      let anyOf ← readList? "OR" fields
      let noneOf ← readList? "NOT" fields
      return .node allOf anyOf noneOf (Dict.ofPairs (← readEntries? fields))
    else none
  | _ => none

/-- Reads the filters under a combinator: one filter, or a list of them. -/
def readList? (combinator : String) : List (String × Json) → Option (List Filter)
  | [] => some []
  | (key, value) :: rest =>
    if key = combinator then
      match value with
      | .array items => readItems? items
      | other => (read? other).map ([·])
    else readList? combinator rest

/-- Reads each filter of a list. -/
def readItems? : List Json → Option (List Filter)
  | [] => some []
  | item :: rest => do
    let filter ← read? item
    return filter :: (← readItems? rest)

/-- Reads the entries of a filter: a value, else a condition, else a filter on related rows. -/
def readEntries? : List (String × Json) → Option (List (String × Operand))
  | [] => some []
  | (key, value) :: rest =>
    if combinators.contains key then readEntries? rest
    else do
      let operand : Operand ←
        match Value.ofJson? value, Condition.ofJson? value with
        | some literal, _ => some (.literal literal)
        | none, some condition => some (.condition condition)
        | none, none => (read? value).map .related
      return (key, operand) :: (← readEntries? rest)

end

/-- Reads a filter. -/
def ofJson? (json : Json) : Option Filter :=
  sound? read? json

end Filter

/-! ### Orderings -/

/-- The directions by name. -/
def Direction.names : List (String × Direction) :=
  [("asc", .ascending), ("desc", .descending)]

/-- The places of nulls by name. -/
def NullPlacement.names : List (String × NullPlacement) :=
  [("first", .first), ("last", .last)]

namespace SortRequest

/-- Reads a direction with a place for nulls. -/
def readPlaced? (json : Json) : Option SortSpec := do
  let fields ← json.fields? ["sort", "nulls"] 1 true
  return .placed (← fields.required? "sort" (oneOf? Direction.names))
    (← fields.optional? "nulls" (oneOf? NullPlacement.names))

/-- Reads the keys of an entry: a direction, else a direction with a place for nulls, else a
nested entry. -/
def readSortKeys? : List (String × Json) → Option SortEntry
  | [] => some []
  | (key, value) :: rest => do
    let spec ←
      match oneOf? Direction.names value, readPlaced? value with
      | some direction, _ => some (.plain direction)
      | none, some placed => some placed
      | none, none =>
        match value with
        | .object fields => (readSortKeys? fields).map .nested
        | _ => none
    return (key, spec) :: (← readSortKeys? rest)

/-- Reads one entry. -/
def readObject? : Json → Option SortEntry
  | .object fields => readSortKeys? fields
  | _ => none

/-- Reads an ordering: a list of entries, or one entry. -/
def ofJson? (json : Json) : Option SortRequest :=
  if json.isSound then
    match json with
    | .array items => (items.mapM readObject?).map .many
    | other => (readObject? other).map .one
  else none

end SortRequest

/-! ### Choices and arguments -/

/-- The kinds of join by name. -/
def JoinKind.names : List (String × JoinKind) :=
  [("inner", .inner), ("left", .left), ("right", .right), ("full", .full)]

/-- The strategies by name. -/
def LoadStrategy.names : List (String × LoadStrategy) :=
  [("join", .join), ("query", .query)]

/-- Reads the columns to leave out. -/
def Omissions.ofJson? : Json → Option Omissions :=
  dict? bool?

/-- Reads a cursor. -/
def Cursor.ofJson? : Json → Option Cursor :=
  dict? Value.ofJson?

namespace RelationArgs

/-- The names of the arguments of a relation in order. -/
def names : List String :=
  ["select", "include", "omit", "where", "orderBy", "take", "skip", "distinct", "joinKind"]

/-- Reads the arguments of a relation, the choices in them already read. -/
def ofFields? (fields : Fields) (selected included : Option Choices) : Option RelationArgs := do
  return {
    selected, included
    omitted := ← fields.optional? "omit" Omissions.ofJson?
    filter := ← fields.optional? "where" Filter.ofJson?
    orderBy := ← fields.optional? "orderBy" SortRequest.ofJson?
    take := ← fields.optional? "take" signed?
    skip := ← fields.optional? "skip" count?
    distinct := ← fields.optional? "distinct" (list? string?)
    joinKind := ← fields.optional? "joinKind" (oneOf? JoinKind.names) }

end RelationArgs

namespace Choices

mutual

/-- Reads choices: a flag, or the arguments of a relation by name or all of them by position. -/
def readFields? : List (String × Json) → Option (List (String × Choice RelationArgs))
  | [] => some []
  | (key, value) :: rest => do
    let choice : Choice RelationArgs ←
      match value with
      | .bool chosen => some (.flag chosen)
      | .object fields => do
        let known ← objectFields? RelationArgs.names false fields
        let selected ← named? "select" fields
        let included ← named? "include" fields
        (RelationArgs.ofFields? known selected included).map .relation
      | .array items => do
        if items.length = RelationArgs.names.length then
          let selected ← placed? 0 items
          let included ← placed? 1 items
          (RelationArgs.ofFields? (RelationArgs.names.zip items) selected included).map .relation
        else none
      | _ => none
    return (key, choice) :: (← readFields? rest)

/-- Reads the choices in a field of the arguments of a relation. -/
def named? (name : String) : List (String × Json) → Option (Option Choices)
  | [] => some none
  | (key, value) :: rest =>
    if key = name then
      match value with
      | .null => some none
      | .object fields => (readFields? fields).map fun pairs => some (Dict.ofPairs pairs)
      | _ => none
    else named? name rest

/-- Reads the choices in a place of the arguments of a relation. -/
def placed? : Nat → List Json → Option (Option Choices)
  | 0, value :: _ =>
    match value with
    | .null => some none
    | .object fields => (readFields? fields).map fun pairs => some (Dict.ofPairs pairs)
    | _ => none
  | place + 1, _ :: rest => placed? place rest
  | _, [] => none

end

/-- Reads choices by column or relation. -/
def ofJson? (json : Json) : Option Choices :=
  if json.isSound then
    match json with
    | .object fields => (readFields? fields).map Dict.ofPairs
    | _ => none
  else none

end Choices

/-- Reads the arguments of a request for records. -/
def FindArgs.ofJson? (json : Json) : Option FindArgs := do
  let fields ← json.fields?
    ["select", "include", "omit", "relationLoadStrategy", "where", "orderBy", "cursor", "take",
     "skip", "distinct"] 10 false
  return {
    selected := ← fields.optional? "select" Choices.ofJson?
    included := ← fields.optional? "include" Choices.ofJson?
    omitted := ← fields.optional? "omit" Omissions.ofJson?
    strategy := ← fields.optional? "relationLoadStrategy" (oneOf? LoadStrategy.names)
    filter := ← fields.optional? "where" Filter.ofJson?
    orderBy := ← fields.optional? "orderBy" SortRequest.ofJson?
    cursor := ← fields.optional? "cursor" Cursor.ofJson?
    take := ← fields.optional? "take" signed?
    skip := ← fields.optional? "skip" count?
    distinct := ← fields.optional? "distinct" (list? string?) }

/-- Reads the arguments of a request for one record. -/
def UniqueArgs.ofJson? (json : Json) : Option UniqueArgs := do
  let fields ← json.fields? ["where", "select", "include", "omit", "relationLoadStrategy"] 5 false
  return {
    filter := ← fields.required? "where" Filter.ofJson?
    selected := ← fields.optional? "select" Choices.ofJson?
    included := ← fields.optional? "include" Choices.ofJson?
    omitted := ← fields.optional? "omit" Omissions.ofJson?
    strategy := ← fields.optional? "relationLoadStrategy" (oneOf? LoadStrategy.names) }

/-- Reads the arguments of a request for a number of rows. -/
def CountArgs.ofJson? (json : Json) : Option CountArgs := do
  let fields ← json.fields? ["where"] 1 false
  return { filter := ← fields.optional? "where" Filter.ofJson? }

end NestedQuery
