import NestedQuery.Statement.Text

/-!
# Writing a statement

A writer goes through a statement once.  What it writes is added at the end of
its text; a value with a placeholder is kept at the end of its values, and where
placeholders are numbered the number is how many values are kept by then.
-/

namespace NestedQuery

/-- A text that is being written, and the values for its placeholders so far. -/
structure Writer where
  style : Style
  text : String := ""
  values : List Value := []
  deriving DecidableEq, Repr

namespace Writer

/-- Writes fixed words. -/
def words (writer : Writer) (words : String) : Writer :=
  { writer with text := writer.text ++ words }

/-- Writes a name, in quotes unless values are in line. -/
def name (writer : Writer) (identifier : String) : Writer :=
  writer.words (if writer.style = .inline then identifier else quotedName identifier)

/-- Keeps a value for a placeholder. -/
def keep (writer : Writer) (scalar : Value) : Writer :=
  { writer with values := writer.values ++ [scalar] }

/-- Writes a value: in line, or as a placeholder for which the value is kept. -/
def value (writer : Writer) (scalar : Value) : Writer :=
  if scalar.isNull then writer.words "NULL"
  else match writer.style with
    | .inline => writer.words scalar.literal
    | .question => (writer.keep scalar).words "?"
    | .dollar =>
      let kept := writer.keep scalar
      kept.words ("$" ++ toString kept.values.length)

/-- Writes items one after the other with a comma between them. -/
def separated {α : Type} (write : Writer → α → Writer) (writer : Writer) : List α → Writer
  | [] => writer
  | first :: rest =>
    rest.foldl (fun writer item => write (writer.words ", ") item) (write writer first)

/-- Writes a column with its qualifier. -/
def column (writer : Writer) (ref : ColumnRef) : Writer :=
  ((writer.name ref.qualifier).words ".").name ref.name

/-- Writes a label after an output or a table. -/
def label (writer : Writer) : Option String → Writer
  | some label => (writer.words " AS ").name label
  | none => writer

/-- Writes an output with its label. -/
def output (writer : Writer) : Output → Writer
  | .column ref label => (writer.column ref).label label
  | .count label => (writer.words "COUNT(*)").label label

/-- Writes the outputs of a statement; a star for none. -/
def outputs (writer : Writer) (outputs : List Output) : Writer :=
  (if outputs.isEmpty then writer.words "*" else writer).separated output outputs

/-- Writes a sort key. -/
def sortKey (writer : Writer) (key : SortKey) : Writer :=
  let writer := (writer.column key.column).words (" " ++ key.direction.word)
  match key.nulls with
  | some nulls => writer.words (" NULLS " ++ nulls.word)
  | none => writer

/-- Writes the grouping of a statement. -/
def groups (writer : Writer) : Option (List ColumnRef) → Writer
  | some columns => (writer.words " GROUP BY ").separated column columns
  | none => writer

/-- Writes the ordering of a statement. -/
def orders (writer : Writer) : Option (List SortKey) → Writer
  | some keys => (writer.words " ORDER BY ").separated sortKey keys
  | none => writer

/-- Writes the window of a statement. -/
def window (writer : Writer) : Option Window → Writer
  | some window =>
    let writer := match window.count with
      | some count => writer.words (" LIMIT " ++ toString count)
      | none => writer
    match window.offset with
    | some offset => writer.words (" OFFSET " ++ toString offset)
    | none => writer
  | none => writer

mutual

/-- Writes an expression. -/
def expr : Writer → Expr → Writer
  | writer, .column ref => writer.column ref
  | writer, .literal scalar => writer.value scalar
  | writer, .compare left op right =>
    ((((writer.words "(").expr left).words (" " ++ op.word ++ " ")).expr right).words ")"
  | writer, .connect left op right =>
    ((((writer.words "(").expr left).words (" " ++ op.word ++ " ")).expr right).words ")"
  | writer, .not inner => ((writer.words "NOT (").expr inner).words ")"
  | writer, .like subject pattern insensitive =>
    if insensitive then
      ((((writer.words "LOWER(").expr subject).words ") LIKE LOWER(").value (.text pattern)).words
        ")"
    else ((writer.expr subject).words " LIKE ").value (.text pattern)
  | writer, .oneOf subject values negated =>
    (((writer.expr subject).words (if negated then " NOT IN (" else " IN (")).separated value
      values).words ")"
  | writer, .isNull subject negated =>
    (writer.expr subject).words (if negated then " IS NOT NULL" else " IS NULL")
  | writer, .exists statement => ((writer.words "EXISTS (").select statement).words ")"

/-- Writes a statement. -/
def select : Writer → SelectOf Expr → Writer
  | writer, ⟨outputs, table, label, joins, filter, groupBy, orderBy, window⟩ =>
    let writer := (((writer.words "SELECT ").outputs outputs).words " FROM ").name table
    (((((writer.label label).joins joins).condition filter).groups groupBy).orders orderBy).window
      window

/-- Writes the joins of a statement. -/
def joins : Writer → List (JoinOf Expr) → Writer
  | writer, [] => writer
  | writer, ⟨kind, table, label, on⟩ :: rest =>
    let writer := ((writer.words (" " ++ kind.word ++ " JOIN ")).name table).label (some label)
    ((writer.words " ON ").expr on).joins rest

/-- Writes the predicate of a statement. -/
def condition : Writer → Option Expr → Writer
  | writer, some condition => (writer.words " WHERE ").expr condition
  | writer, none => writer

end

end Writer

/-- The statement written in a style. -/
def SelectOf.written (statement : Select) (style : Style) : Writer :=
  Writer.select { style } statement

end NestedQuery
