import NestedQuery.Statement.Basic

/-!
# The text of a statement

A statement is written as a sequence of pieces: fixed text, names and values.
A style says how names and values are set: in line for logs, or with names in
quotes and values as numbered or unnumbered placeholders for a driver, which
gets the values beside the text.  Null is always set in line.
-/

namespace NestedQuery

/-- A piece of the text of a statement. -/
inductive Piece where
  | fixed (words : String)
  | name (identifier : String)
  | value (scalar : Value)
  deriving DecidableEq, Repr

/-- How names and values are set. -/
inductive Style where
  /-- Names as they are, values as literals. -/
  | inline
  /-- Quoted names, a question mark for every value. -/
  | question
  /-- Quoted names, a dollar sign with a number for every value. -/
  | dollar
  deriving DecidableEq, Repr

/-! ### Pieces -/

/-- Lists of pieces with a comma between them. -/
def commaSeparated : List (List Piece) → List Piece
  | [] => []
  | first :: rest => first ++ rest.flatMap (.fixed ", " :: ·)

/-- A column with its qualifier. -/
def ColumnRef.pieces (column : ColumnRef) : List Piece :=
  [.name column.qualifier, .fixed ".", .name column.name]

/-- A label after an output or a table. -/
def labelPieces : Option String → List Piece
  | some label => [.fixed " AS ", .name label]
  | none => []

/-- An output with its label. -/
def Output.pieces : Output → List Piece
  | .column ref label => ref.pieces ++ labelPieces label
  | .count label => .fixed "COUNT(*)" :: labelPieces label

/-- The outputs of a statement; a star for none. -/
def outputPieces (outputs : List Output) : List Piece :=
  if outputs.isEmpty then [.fixed "*"] else commaSeparated (outputs.map Output.pieces)

/-- The word of a comparison. -/
def Comparison.word : Comparison → String
  | .eq => "="
  | .ne => "<>"
  | .lt => "<"
  | .le => "<="
  | .gt => ">"
  | .ge => ">="

/-- The word of a connective. -/
def Connective.word : Connective → String
  | .and => "AND"
  | .or => "OR"

/-- The word of a join. -/
def JoinKind.word : JoinKind → String
  | .inner => "INNER"
  | .left => "LEFT"
  | .right => "RIGHT"
  | .full => "FULL"

/-- The word of a direction. -/
def Direction.word : Direction → String
  | .ascending => "ASC"
  | .descending => "DESC"

/-- The word of a place for nulls. -/
def NullPlacement.word : NullPlacement → String
  | .first => "FIRST"
  | .last => "LAST"

/-- A sort key. -/
def SortKey.pieces (key : SortKey) : List Piece :=
  key.column.pieces ++ .fixed (" " ++ key.direction.word) ::
    match key.nulls with
    | some nulls => [.fixed (" NULLS " ++ nulls.word)]
    | none => []

/-- The grouping of a statement. -/
def groupPieces : Option (List ColumnRef) → List Piece
  | some columns => .fixed " GROUP BY " :: commaSeparated (columns.map ColumnRef.pieces)
  | none => []

/-- The ordering of a statement. -/
def orderPieces : Option (List SortKey) → List Piece
  | some keys => .fixed " ORDER BY " :: commaSeparated (keys.map SortKey.pieces)
  | none => []

/-- The window of a statement. -/
def windowPieces : Option Window → List Piece
  | some window =>
    (match window.count with
      | some count => [.fixed (" LIMIT " ++ toString count)]
      | none => []) ++
    match window.offset with
      | some offset => [.fixed (" OFFSET " ++ toString offset)]
      | none => []
  | none => []

mutual

/-- The pieces of an expression. -/
def Expr.pieces : Expr → List Piece
  | .column ref => ref.pieces
  | .literal value => [.value value]
  | .compare left op right =>
    .fixed "(" :: left.pieces ++ .fixed (" " ++ op.word ++ " ") :: right.pieces ++ [.fixed ")"]
  | .connect left op right =>
    .fixed "(" :: left.pieces ++ .fixed (" " ++ op.word ++ " ") :: right.pieces ++ [.fixed ")"]
  | .not inner => .fixed "NOT (" :: inner.pieces ++ [.fixed ")"]
  | .like subject pattern insensitive =>
    if insensitive then
      .fixed "LOWER(" :: subject.pieces ++
        [.fixed ") LIKE LOWER(", .value (.text pattern), .fixed ")"]
    else subject.pieces ++ [.fixed " LIKE ", .value (.text pattern)]
  | .oneOf subject values negated =>
    subject.pieces ++ .fixed (if negated then " NOT IN (" else " IN (") ::
      commaSeparated (values.map fun value => [.value value]) ++ [.fixed ")"]
  | .isNull subject negated =>
    subject.pieces ++ [.fixed (if negated then " IS NOT NULL" else " IS NULL")]
  | .exists statement => .fixed "EXISTS (" :: selectPieces statement ++ [.fixed ")"]

/-- The pieces of a statement. -/
def selectPieces : SelectOf Expr → List Piece
  | ⟨outputs, table, label, joins, filter, groupBy, orderBy, window⟩ =>
    .fixed "SELECT " :: outputPieces outputs ++ .fixed " FROM " :: .name table ::
      labelPieces label ++ joinPieces joins ++ wherePieces filter ++ groupPieces groupBy ++
      orderPieces orderBy ++ windowPieces window

/-- The pieces of the joins of a statement. -/
def joinPieces : List (JoinOf Expr) → List Piece
  | [] => []
  | ⟨kind, table, label, on⟩ :: rest =>
    .fixed (" " ++ kind.word ++ " JOIN ") :: .name table :: .fixed " AS " :: .name label ::
      .fixed " ON " :: on.pieces ++ joinPieces rest

/-- The pieces of the predicate of a statement. -/
def wherePieces : Option Expr → List Piece
  | some condition => .fixed " WHERE " :: condition.pieces
  | none => []

end

/-! ### Setting -/

/-- A name in quotes, a quote inside written twice. -/
def quotedName (name : String) : String :=
  "\"" ++ String.ofList (name.toList.flatMap fun c => if c = '"' then ['"', '"'] else [c]) ++ "\""

/-- The text of a piece before which `before` values have been set. -/
def Piece.text (style : Style) (before : Nat) : Piece → String
  | .fixed words => words
  | .name identifier => if style = .inline then identifier else quotedName identifier
  | .value scalar =>
    if scalar.isNull then "NULL"
    else match style with
      | .inline => scalar.literal
      | .question => "?"
      | .dollar => "$" ++ toString (before + 1)

/-- Whether the piece is a value with a placeholder. -/
def Piece.parameter? : Piece → Option Value
  | .value scalar => if scalar.isNull then none else some scalar
  | _ => none

/-- The texts of pieces before which `before` values have been set. -/
def pieceTexts (style : Style) (before : Nat) : List Piece → List String
  | [] => []
  | piece :: rest =>
    let after := if piece.parameter?.isSome then before + 1 else before
    piece.text style before :: pieceTexts style after rest

/-- The text of a sequence of pieces. -/
def render (style : Style) (pieces : List Piece) : String :=
  String.join (pieceTexts style 0 pieces)

/-- The values for the placeholders of a sequence of pieces, in order. -/
def parameters (pieces : List Piece) : List Value :=
  pieces.filterMap Piece.parameter?

/-- The expression with its values in line. -/
def Expr.text (expr : Expr) : String :=
  render .inline expr.pieces

namespace SelectOf

/-- The pieces of a statement. -/
def pieces (statement : Select) : List Piece :=
  selectPieces statement

/-- The statement with its values in line. -/
def text (statement : Select) : String :=
  render .inline statement.pieces

/-- The statement in a style. -/
def textIn (statement : Select) (style : Style) : String :=
  render style statement.pieces

/-- The values for the placeholders of the statement; in line there are none. -/
def parametersIn (statement : Select) (style : Style) : List Value :=
  if style = .inline then [] else parameters statement.pieces

end SelectOf

end NestedQuery
