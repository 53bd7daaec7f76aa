import NestedQuery.Proofs.Evaluation
import NestedQuery.Statement.Writer

/-!
# A statement in three writings

Whatever its style, a writer that goes through a statement sets the same pieces
in the same order: the style only says how a piece is set.  Side by side, the
three writings have the same fixed words; names bare in line and quoted in the
other two; and for every value that is not null its literal, a question mark,
and a dollar sign with its number among such values.  The values that are kept
are these, in that order, so each placeholder stands for its own value.
-/

namespace NestedQuery

namespace Writer

variable (writer : Writer)

/-! ### Pieces set one after the other -/

/-- Sets a piece. -/
def set : Piece → Writer
  | .fixed words => writer.words words
  | .name identifier => writer.name identifier
  | .value scalar => writer.value scalar

/-- Sets pieces in turn. -/
def setAll (pieces : List Piece) : Writer :=
  pieces.foldl set writer

@[simp]
theorem setAll_nil : writer.setAll [] = writer := rfl

@[simp]
theorem setAll_cons (piece : Piece) (rest : List Piece) :
    writer.setAll (piece :: rest) = (writer.set piece).setAll rest := rfl

/-- Pieces are set one after the other. -/
@[simp]
theorem setAll_append (pieces more : List Piece) :
    writer.setAll (pieces ++ more) = (writer.setAll pieces).setAll more :=
  List.foldl_append

@[simp]
theorem set_fixed (words : String) : writer.set (.fixed words) = writer.words words := rfl

@[simp]
theorem set_name (identifier : String) : writer.set (.name identifier) = writer.name identifier :=
  rfl

@[simp]
theorem set_value (scalar : Value) : writer.set (.value scalar) = writer.value scalar := rfl

/-! ### Clauses -/

/-- A column is written by setting its pieces. -/
theorem column_eq (ref : ColumnRef) : writer.column ref = writer.setAll ref.pieces := rfl

/-- So is the label of a table. -/
theorem label_eq (label : Option String) :
    writer.label label = writer.setAll (labelPieces label) := by
  cases label <;> rfl

/-- So is an output. -/
theorem output_eq (output : Output) : writer.output output = writer.setAll output.pieces := by
  cases output <;> simp [Writer.output, Output.pieces, column_eq, label_eq]

/-- Items are separated alike as they are written and as pieces. -/
theorem separated_eq {α : Type} {write : Writer → α → Writer} {pieces : α → List Piece}
    (hwrite : ∀ writer item, write writer item = writer.setAll (pieces item)) (items : List α) :
    writer.separated write items = writer.setAll (commaSeparated (items.map pieces)) := by
  have hrest : ∀ (rest : List α) (writer : Writer),
      rest.foldl (fun writer item => write (writer.words ", ") item) writer =
        writer.setAll ((rest.map pieces).flatMap (.fixed ", " :: ·)) := by
    intro rest
    induction rest with
    | nil => exact fun writer => rfl
    | cons item rest ih =>
        intro writer
        rw [List.foldl_cons, ih, hwrite, List.map_cons, List.flatMap_cons, setAll_append,
          setAll_cons, set_fixed]
  cases items with
  | nil => rfl
  | cons first rest => rw [separated, hrest, hwrite, List.map_cons, commaSeparated, setAll_append]

/-- So are the outputs of a statement. -/
theorem outputs_eq (outputs : List Output) :
    writer.outputs outputs = writer.setAll (outputPieces outputs) := by
  rw [Writer.outputs, outputPieces, separated_eq _ output_eq]
  cases outputs <;> simp [commaSeparated]

/-- So is a list of scalars, with commas between them. -/
theorem values_eq (values : List Value) :
    writer.separated value values =
      writer.setAll (commaSeparated (values.map fun scalar => [.value scalar])) :=
  @separated_eq writer Value value (fun scalar => [.value scalar]) (fun _ _ => rfl) values

/-- So is a sort key. -/
theorem sortKey_eq (key : SortKey) : writer.sortKey key = writer.setAll key.pieces := by
  rw [Writer.sortKey, SortKey.pieces, setAll_append, setAll_cons, ← column_eq, set_fixed]
  cases key.nulls <;> rfl

/-- So is the grouping of a statement. -/
theorem groups_eq (columns : Option (List ColumnRef)) :
    writer.groups columns = writer.setAll (groupPieces columns) := by
  cases columns with
  | none => rfl
  | some columns => exact separated_eq _ column_eq columns

/-- So is its ordering. -/
theorem orders_eq (keys : Option (List SortKey)) :
    writer.orders keys = writer.setAll (orderPieces keys) := by
  cases keys with
  | none => rfl
  | some keys => exact separated_eq _ sortKey_eq keys

/-- So is its window. -/
theorem window_eq (window : Option Window) :
    writer.window window = writer.setAll (windowPieces window) := by
  cases window with
  | none => rfl
  | some window =>
      obtain ⟨count, offset⟩ := window
      cases count <;> cases offset <;> rfl

/-! ### Statements -/

mutual

/-- An expression is handed through its parts in the order in which their pieces stand. -/
theorem expr_eq : ∀ (expr : Expr) (writer : Writer), writer.expr expr = writer.setAll expr.pieces
  | .column ref, writer => by rw [Writer.expr, Expr.pieces, column_eq]
  | .literal _, writer => by rw [Writer.expr, Expr.pieces]; rfl
  | .compare left _ right, writer => by
      rw [Writer.expr, Expr.pieces, expr_eq left, expr_eq right]
      simp
  | .connect left _ right, writer => by
      rw [Writer.expr, Expr.pieces, expr_eq left, expr_eq right]
      simp
  | .not inner, writer => by
      rw [Writer.expr, Expr.pieces, expr_eq inner]
      simp
  | .like subject _ insensitive, writer => by
      rw [Writer.expr, Expr.pieces, expr_eq subject, expr_eq subject]
      cases insensitive <;> simp
  | .oneOf subject values _, writer => by
      rw [Writer.expr, Expr.pieces, expr_eq subject, values_eq]
      simp
  | .isNull subject _, writer => by
      rw [Writer.expr, Expr.pieces, expr_eq subject]
      simp
  | .exists statement, writer => by
      rw [Writer.expr, Expr.pieces, select_eq statement]
      simp

/-- Writing a statement is setting its pieces, in any style. -/
theorem select_eq : ∀ (statement : SelectOf Expr) (writer : Writer),
    writer.select statement = writer.setAll (selectPieces statement)
  | ⟨_, _, _, joins, filter, _, _, _⟩, writer => by
      rw [Writer.select, selectPieces, outputs_eq, label_eq, joins_eq joins, condition_eq filter,
        groups_eq, orders_eq, window_eq]
      simp

/-- Joins are written by setting their pieces, those of their conditions included. -/
theorem joins_eq : ∀ (joins : List (JoinOf Expr)) (writer : Writer),
    writer.joins joins = writer.setAll (joinPieces joins)
  | [], writer => by rw [Writer.joins, joinPieces, setAll_nil]
  | ⟨_, _, _, on⟩ :: rest, writer => by
      rw [Writer.joins, joinPieces, label_eq, expr_eq on, joins_eq rest]
      simp [labelPieces]

/-- So is the predicate of a statement, if there is one. -/
theorem condition_eq : ∀ (filter : Option Expr) (writer : Writer),
    writer.condition filter = writer.setAll (wherePieces filter)
  | none, writer => by rw [Writer.condition, wherePieces, setAll_nil]
  | some condition, writer => by
      rw [Writer.condition, wherePieces, expr_eq condition]
      simp

end

end Writer

/-! ### Three writings -/

/-- The texts of pieces in the three styles, part by part, behind `before` values that are not null,
and the values of the pieces that are not null. -/
inductive SideBySide :
    Nat → List Piece → List String → List String → List String → List Value → Prop
  | nil {before : Nat} : SideBySide before [] [] [] [] []
  | fixed {before : Nat} {pieces : List Piece} {inline question dollar : List String}
      {values : List Value} (words : String)
      (hrest : SideBySide before pieces inline question dollar values) :
      SideBySide before (.fixed words :: pieces) (words :: inline) (words :: question)
        (words :: dollar) values
  | name {before : Nat} {pieces : List Piece} {inline question dollar : List String}
      {values : List Value} (identifier : String)
      (hrest : SideBySide before pieces inline question dollar values) :
      SideBySide before (.name identifier :: pieces) (identifier :: inline)
        (quotedName identifier :: question) (quotedName identifier :: dollar) values
  | null {before : Nat} {pieces : List Piece} {inline question dollar : List String}
      {values : List Value} (hrest : SideBySide before pieces inline question dollar values) :
      SideBySide before (.value .null :: pieces) ("NULL" :: inline) ("NULL" :: question)
        ("NULL" :: dollar) values
  | value {before : Nat} {pieces : List Piece} {inline question dollar : List String}
      {values : List Value} (scalar : Value) (hsome : scalar ≠ .null)
      (hrest : SideBySide (before + 1) pieces inline question dollar values) :
      SideBySide before (.value scalar :: pieces) (scalar.literal :: inline) ("?" :: question)
        (("$" ++ toString (before + 1)) :: dollar) (scalar :: values)

/-- The texts of pieces in the three styles stand side by side. -/
theorem sideBySide_pieceTexts (pieces : List Piece) : ∀ before : Nat,
    SideBySide before pieces (pieceTexts .inline before pieces)
      (pieceTexts .question before pieces) (pieceTexts .dollar before pieces)
      (parameters pieces) := by
  induction pieces with
  | nil => exact fun _ => .nil
  | cons piece rest ih =>
      intro before
      cases piece with
      | fixed words => exact .fixed words (ih before)
      | name identifier => exact .name identifier (ih before)
      | value scalar =>
          by_cases hnull : scalar = .null
          · subst hnull
            exact .null (ih before)
          · have hsome : scalar.isNull = false := Value.isNull_eq_false.mpr hnull
            have hparameter : (Piece.value scalar).parameter? = some scalar := by
              simp [Piece.parameter?, hsome]
            simpa [pieceTexts, Piece.text, parameters, hsome, hparameter] using
              SideBySide.value scalar hnull (ih (before + 1))

namespace Writer

variable (writer : Writer)

/-- A piece adds its text at the end, and its value if that has a placeholder. -/
theorem set_eq (piece : Piece) : writer.set piece = { writer with
    text := writer.text ++ piece.text writer.style writer.values.length
    values := writer.values ++
      if writer.style = .inline then [] else piece.parameter?.toList } := by
  obtain ⟨style, text, values⟩ := writer
  cases piece with
  | fixed words => simp [Writer.words, Piece.text, Piece.parameter?]
  | name identifier => simp [Writer.name, Writer.words, Piece.text, Piece.parameter?]
  | value scalar =>
      by_cases hnull : scalar.isNull
      · simp [Writer.value, Writer.words, Piece.text, Piece.parameter?, hnull]
      · cases style <;>
          simp [Writer.value, Writer.keep, Writer.words, Piece.text, Piece.parameter?, hnull]

/-- The writer writes a piece as behind `before` values, if it keeps values and has kept as many. -/
theorem text_of_kept {writer : Writer} {before : Nat}
    (hkept : writer.style ≠ .inline → writer.values.length = before) (piece : Piece) :
    piece.text writer.style writer.values.length = piece.text writer.style before := by
  by_cases hstyle : writer.style = .inline
  · rw [hstyle]
    cases piece <;> rfl
  · rw [hkept hstyle]

/-- Pieces add their texts, numbered from the values kept before, and their values.  The writer and
the count change together at every piece, so both vary in the induction. -/
theorem setAll_eq (pieces : List Piece) : ∀ {writer : Writer} {before : Nat},
    (writer.style ≠ .inline → writer.values.length = before) →
    writer.setAll pieces = { writer with
      text := writer.text ++ String.join (pieceTexts writer.style before pieces)
      values := writer.values ++
        if writer.style = .inline then [] else parameters pieces } := by
  induction pieces with
  | nil => simp [pieceTexts, parameters]
  | cons piece rest ih =>
      intro writer before hkept
      have hset := set_eq writer piece
      rw [text_of_kept hkept] at hset
      have hcount : (writer.set piece).style ≠ .inline → (writer.set piece).values.length =
          if piece.parameter?.isSome then before + 1 else before := by
        rw [hset]
        intro hstyle
        rw [if_neg hstyle, List.length_append, hkept hstyle]
        cases piece.parameter? <;> rfl
      have hvalues : parameters (piece :: rest) = piece.parameter?.toList ++ parameters rest := by
        rw [parameters, List.filterMap_cons]
        cases piece.parameter? <;> rfl
      rw [setAll_cons, ih hcount, hset, pieceTexts, String.join_cons, hvalues]
      by_cases hstyle : writer.style = .inline <;> simp [hstyle, String.append_assoc]

end Writer

/-- What a writer ends with is the text of the statement and the values for its placeholders. -/
theorem SelectOf.written_eq (statement : Select) (style : Style) : statement.written style =
    { style, text := statement.textIn style, values := statement.parametersIn style } := by
  rw [SelectOf.written, Writer.select_eq, Writer.setAll_eq _ fun _ => rfl]
  simp [textIn, render, parametersIn, pieces]

/-- A writer goes through a statement alike in every style, setting its pieces in turn.  The three
writings stand side by side: the fixed words and nulls are the same in all of them, names are bare
in line and quoted in the other two, and the value that is the `k`th not to be null is its literal,
a question mark and a dollar sign with `k`.  Both writers with placeholders keep these values in
that order. -/
theorem writings_side_by_side (statement : Select) :
    (∀ writer : Writer, writer.select statement = writer.setAll statement.pieces) ∧
    ∃ inline question dollar values,
      SideBySide 0 statement.pieces inline question dollar values ∧
      statement.written .inline = ⟨.inline, String.join inline, []⟩ ∧
      statement.written .question = ⟨.question, String.join question, values⟩ ∧
      statement.written .dollar = ⟨.dollar, String.join dollar, values⟩ :=
  ⟨Writer.select_eq statement, _, _, _, _, sideBySide_pieceTexts statement.pieces 0,
    statement.written_eq .inline, statement.written_eq .question, statement.written_eq .dollar⟩

/-- The value inside the nested statement comes between those around it, and the null has no
placeholder. -/
example :
    let ofSeven : Expr := .compare (.column ⟨"dish", "course"⟩) .eq (.literal (.integer 7))
    let served : Expr := .connect (.exists { table := "dish", filter := ofSeven }) .or
      (.oneOf (.column ⟨"menu", "id"⟩) [.null, .integer 9] false)
    let wanted : Expr := .connect (.like (.column ⟨"menu", "name"⟩) "s%" false) .and served
    let menus : Select := { table := "menu", filter := wanted }
    menus.written .dollar =
      { style := .dollar
        text := "SELECT * FROM \"menu\" WHERE (\"menu\".\"name\" LIKE $1 AND " ++
          "(EXISTS (SELECT * FROM \"dish\" WHERE (\"dish\".\"course\" = $2)) OR " ++
          "\"menu\".\"id\" IN (NULL, $3)))"
        values := [.text "s%", .integer 7, .integer 9] } := by
  cbv

end NestedQuery
