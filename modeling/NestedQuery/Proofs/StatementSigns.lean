import NestedQuery.Proofs.DigitTexts
import NestedQuery.Statement.Text

/-!
# Signs of a statement

In a style with placeholders the text of a statement is a sequence of signs:
single characters of fixed text, whole names in their quotes, and placeholders.
Fixed text holds no quote and no mark of a placeholder, and no name stands right
behind another.  So the text, with the parameters beside it, tells the signs one
after the other: a name ends with the first quote that is not doubled, and the
next placeholder stands for the next parameter.
-/

namespace NestedQuery

/-- A part of the text of a statement that is read as a whole. -/
inductive Sign where
  | char (c : Char)
  | name (identifier : String)
  /-- A placeholder, with the value that it stands for. -/
  | slot (scalar : Value)
  deriving DecidableEq, Repr

/-- The placeholder before which `before` others stand. -/
def placeholder (style : Style) (before : Nat) : List Char :=
  if style = .dollar then '$' :: (toString (before + 1)).toList else ['?']

namespace Sign

/-- The text of a sign before which `before` placeholders stand. -/
def text (style : Style) (before : Nat) : Sign → List Char
  | .char c => [c]
  | .name identifier => (quotedName identifier).toList
  | .slot _ => placeholder style before

/-- The value for a placeholder. -/
def value? : Sign → Option Value
  | .slot scalar => some scalar
  | _ => none

/-- Whether the sign is a name. -/
def isName : Sign → Bool
  | .name _ => true
  | _ => false

/-- Whether the sign is a character that only names and placeholders begin with. -/
def isMark : Sign → Bool
  | .char c => c = '"' || c = '?' || c = '$'
  | _ => false

end Sign

/-- The characters as signs. -/
def chars (words : String) : List Sign :=
  words.toList.map .char

/-- The signs of a piece. -/
def Piece.signs : Piece → List Sign
  | .fixed words => chars words
  | .name identifier => [.name identifier]
  | .value scalar => if scalar.isNull then chars "NULL" else [.slot scalar]

/-- The signs of a sequence of pieces. -/
def signs (pieces : List Piece) : List Sign :=
  pieces.flatMap Piece.signs

@[simp]
theorem signs_nil : signs [] = [] := rfl

@[simp]
theorem signs_cons (piece : Piece) (rest : List Piece) :
    signs (piece :: rest) = piece.signs ++ signs rest := rfl

/-- The signs of a text are those of its parts. -/
@[simp]
theorem signs_append (first rest : List Piece) :
    signs (first ++ rest) = signs first ++ signs rest :=
  List.flatMap_append

/-- The text of signs before which `before` placeholders stand. -/
def signTexts (style : Style) (before : Nat) : List Sign → List Char
  | [] => []
  | sign :: rest =>
    sign.text style before ++
      signTexts style (if sign.value?.isSome then before + 1 else before) rest

/-! ### The text of pieces -/

/-- A character of fixed text is written as it is. -/
@[simp]
theorem signTexts_char (style : Style) (before : Nat) (c : Char) (rest : List Sign) :
    signTexts style before (.char c :: rest) = c :: signTexts style before rest := rfl

/-- A name is written in quotes. -/
@[simp]
theorem signTexts_name (style : Style) (before : Nat) (name : String) (rest : List Sign) :
    signTexts style before (.name name :: rest) =
      (quotedName name).toList ++ signTexts style before rest := rfl

/-- A placeholder is written with its number, and the one behind it has the next. -/
@[simp]
theorem signTexts_slot (style : Style) (before : Nat) (scalar : Value) (rest : List Sign) :
    signTexts style before (.slot scalar :: rest) =
      placeholder style before ++ signTexts style (before + 1) rest := rfl

/-- Fixed text is written as it is. -/
theorem signTexts_chars (style : Style) (before : Nat) (words : String) (rest : List Sign) :
    signTexts style before (chars words ++ rest) = words.toList ++ signTexts style before rest := by
  unfold chars
  induction words.toList with
  | nil => rfl
  | cons c cs ih => rw [List.map_cons, List.cons_append, signTexts_char, ih, List.cons_append]

/-- A statement is written sign by sign. -/
theorem flatMap_pieceTexts {style : Style} (hstyle : style ≠ .inline) (before : Nat)
    (pieces : List Piece) : (pieceTexts style before pieces).flatMap String.toList =
      signTexts style before (signs pieces) := by
  induction pieces generalizing before with
  | nil => rfl
  | cons piece rest ih =>
      rw [pieceTexts, List.flatMap_cons, ih, signs_cons]
      cases piece with
      | fixed words =>
          exact (signTexts_chars style before words (signs rest)).symm
      | name identifier =>
          rw [Piece.text, if_neg hstyle]
          rfl
      | value scalar =>
          rw [Piece.text.eq_def, Piece.signs, Piece.parameter?]
          dsimp only
          cases scalar.isNull with
          | true => exact (signTexts_chars style before "NULL" (signs rest)).symm
          | false =>
              cases style with
              | inline => exact absurd rfl hstyle
              | question => simp [placeholder]
              | dollar => simp [placeholder]

/-- In a style with placeholders a text is written sign by sign. -/
theorem toList_render {style : Style} (hstyle : style ≠ .inline) (pieces : List Piece) :
    (render style pieces).toList = signTexts style 0 (signs pieces) := by
  rw [render, String.toList_join, flatMap_pieceTexts hstyle]

/-- The parameters are the values of the placeholders. -/
theorem parameters_eq (pieces : List Piece) :
    parameters pieces = (signs pieces).filterMap Sign.value? := by
  have hchars : ∀ words, (chars words).filterMap Sign.value? = [] := by
    intro words
    rw [chars, List.filterMap_map]
    exact List.filterMap_eq_nil_iff.mpr fun _ _ => rfl
  induction pieces with
  | nil => rfl
  | cons piece rest ih =>
      rw [parameters, List.filterMap_cons, ← parameters, ih, signs_cons, List.filterMap_append]
      cases piece with
      | fixed words => rw [Piece.signs, hchars]; rfl
      | name identifier => rfl
      | value scalar =>
          rw [Piece.signs, Piece.parameter?]
          cases scalar.isNull with
          | true => rw [if_pos rfl, if_pos rfl, hchars]; rfl
          | false => rfl

/-! ### Reading signs -/

/-- The characters of a name with every quote written twice. -/
def doubled (name : List Char) : List Char :=
  name.flatMap fun c => if c = '"' then ['"', '"'] else [c]

/-- A name in quotes is the name with doubled quotes between two more. -/
theorem toList_quotedName (name : String) :
    (quotedName name).toList = '"' :: (doubled name.toList ++ ['"']) := by
  rw [quotedName, String.toList_append, String.toList_append, String.toList_ofList]
  simp [doubled]

/-- A quote in a name is followed by another, any other character stands for itself. -/
theorem doubled_cons (c : Char) (cs : List Char) :
    doubled (c :: cs) = if c = '"' then '"' :: '"' :: doubled cs else c :: doubled cs := by
  rw [doubled, List.flatMap_cons]
  split <;> rfl

/-- A name ends with the first quote that is not doubled. -/
theorem doubled_split : ∀ {one other rest more : List Char},
    rest.head? ≠ some '"' → more.head? ≠ some '"' →
    doubled one ++ '"' :: rest = doubled other ++ '"' :: more → one = other ∧ rest = more
  | [], [], rest, more, _, _, h => ⟨rfl, (List.cons.inj h).2⟩
  | [], d :: other, rest, more, hrest, _, h => by
      rw [doubled_cons] at h
      split at h
      · exact absurd (congrArg List.head? (List.cons.inj h).2) hrest
      · next hd => exact absurd (List.cons.inj h).1.symm hd
  | c :: one, [], rest, more, _, hmore, h => by
      rw [doubled_cons] at h
      split at h
      · exact absurd (congrArg List.head? (List.cons.inj h).2).symm hmore
      · next hc => exact absurd (List.cons.inj h).1 hc
  | c :: one, d :: other, rest, more, hrest, hmore, h => by
      have hstep : c = d ∧ doubled one ++ '"' :: rest = doubled other ++ '"' :: more := by
        rw [doubled_cons, doubled_cons] at h
        split at h <;> split at h <;> simp only [List.cons_append, List.cons.injEq] at h
        · next hc hd => exact ⟨hc.trans hd.symm, h.2.2⟩
        · next hd => exact absurd h.1.symm hd
        · next hc _ => exact absurd h.1 hc
        · exact h
      obtain ⟨rfl, hothers⟩ := hstep
      obtain ⟨rfl, hends⟩ := doubled_split hrest hmore hothers
      exact ⟨rfl, hends⟩

/-- The character that the text of a sign begins with. -/
def Sign.opening (style : Style) : Sign → Char
  | .char c => c
  | .name _ => '"'
  | .slot _ => if style = .dollar then '$' else '?'

/-- The text of a sign begins with the character that it opens with. -/
theorem head?_signTexts (style : Style) (before : Nat) (sign : Sign) (rest : List Sign) :
    (signTexts style before (sign :: rest)).head? = some (sign.opening style) := by
  cases sign with
  | char c => rfl
  | name identifier =>
      rw [signTexts_name, toList_quotedName]
      rfl
  | slot scalar =>
      rw [signTexts_slot, placeholder, Sign.opening]
      split <;> rfl

/-- Signs whose texts begin alike are of one kind, unless one of them is a mark. -/
theorem Sign.alike_of_opening {style : Style} {one other : Sign} (hone : one.isMark = false)
    (hother : other.isMark = false) (h : one.opening style = other.opening style) :
    (∃ c, one = .char c ∧ other = .char c) ∨ (∃ a b, one = .name a ∧ other = .name b) ∨
      ∃ v w, one = .slot v ∧ other = .slot w := by
  cases one <;> cases other <;> simp only [Sign.opening] at h
  case char.char => exact .inl ⟨_, rfl, by rw [h]⟩
  case name.name => exact .inr (.inl ⟨_, _, rfl, rfl⟩)
  case slot.slot => exact .inr (.inr ⟨_, _, rfl, rfl⟩)
  case char.name => simp [Sign.isMark, h] at hone
  case name.char => simp [Sign.isMark, ← h] at hother
  case char.slot => split at h <;> simp [Sign.isMark, h] at hone
  case slot.char => split at h <;> simp [Sign.isMark, ← h] at hother
  case name.slot => split at h <;> cases h
  case slot.name => split at h <;> cases h

/-- No mark stands among the signs by itself, and no name right behind another. -/
def Legible : List Sign → Prop
  | [] => True
  | sign :: rest =>
    sign.isMark = false ∧ (sign.isName = true → rest.head?.any Sign.isName = false) ∧ Legible rest

/-- What stands behind a name does not begin with a quote. -/
theorem Legible.behind_name {style : Style} {before : Nat} {rest : List Sign} (h : Legible rest)
    (hname : rest.head?.any Sign.isName = false) :
    (signTexts style before rest).head? ≠ some '"' := by
  cases rest with
  | nil => simp [signTexts]
  | cons sign rest =>
      rw [head?_signTexts]
      intro hquote
      have hopening : sign.opening style = (Sign.name "").opening style := Option.some.inj hquote
      obtain ⟨_, -, hchar⟩ | ⟨_, _, rfl, -⟩ | ⟨_, _, -, hslot⟩ :=
        Sign.alike_of_opening h.1 rfl hopening
      · cases hchar
      · cases hname
      · cases hslot

/-- Text and parameters tell the signs. -/
theorem signs_of_text {style : Style} : ∀ {before : Nat} {one other : List Sign},
    Legible one → Legible other →
    signTexts style before one = signTexts style before other →
    one.filterMap Sign.value? = other.filterMap Sign.value? → one = other
  | before, [], [], _, _, _, _ => rfl
  | before, [], sign :: other, _, _, htext, _ => by
      have hhead := congrArg List.head? htext
      rw [head?_signTexts] at hhead
      cases hhead
  | before, sign :: one, [], _, _, htext, _ => by
      have hhead := congrArg List.head? htext
      rw [head?_signTexts] at hhead
      cases hhead
  | before, sign :: one, found :: other, hone, hother, htext, hvalues => by
      have hhead := congrArg List.head? htext
      rw [head?_signTexts, head?_signTexts, Option.some.injEq] at hhead
      obtain ⟨c, rfl, rfl⟩ | ⟨a, b, rfl, rfl⟩ | ⟨v, w, rfl, rfl⟩ :=
        Sign.alike_of_opening hone.1 hother.1 hhead
      · rw [signs_of_text hone.2.2 hother.2.2 (List.cons.inj htext).2 hvalues]
      · rw [signTexts_name, signTexts_name, toList_quotedName, toList_quotedName,
          List.cons_append, List.cons_append, List.append_assoc, List.append_assoc] at htext
        obtain ⟨hname, hrest⟩ := doubled_split (hone.2.2.behind_name (hone.2.1 rfl))
          (hother.2.2.behind_name (hother.2.1 rfl)) (List.cons.inj htext).2
        rw [String.toList_inj.mp hname, signs_of_text hone.2.2 hother.2.2 hrest hvalues]
      · obtain ⟨rfl, hmore⟩ := List.cons.inj hvalues
        rw [signs_of_text hone.2.2 hother.2.2 (List.append_cancel_left htext) hmore]

/-! ### Statements are legible -/

/-- Fixed text that stands between names: there is some, and no mark in it. -/
def Separating (words : String) : Prop :=
  words ≠ "" ∧ ∀ c ∈ words.toList, (Sign.char c).isMark = false

instance (words : String) : Decidable (Separating words) :=
  have := List.decidableBAll (fun c : Char => (Sign.char c).isMark = false) words.toList
  inferInstanceAs (Decidable (words ≠ "" ∧ ∀ c ∈ words.toList, (Sign.char c).isMark = false))

/-- Fixed text separates names, and no name stands right behind another. -/
def Spaced : List Piece → Prop
  | [] => True
  | .fixed words :: rest => Separating words ∧ Spaced rest
  | .name _ :: rest => (∀ other more, rest ≠ .name other :: more) ∧ Spaced rest
  | .value _ :: rest => Spaced rest

/-- The pieces may stand behind a name. -/
structure Behind (pieces : List Piece) : Prop where
  spaced : Spaced pieces
  noName : ∀ other more, pieces ≠ .name other :: more

/-- Fixed text without marks may stand before anything legible. -/
theorem legible_chars {words : String}
    (hwords : ∀ c ∈ words.toList, (Sign.char c).isMark = false) {rest : List Sign}
    (h : Legible rest) : Legible (chars words ++ rest) := by
  unfold chars
  generalize words.toList = cs at hwords
  induction cs with
  | nil => exact h
  | cons c cs ih =>
      obtain ⟨hfirst, hothers⟩ := List.forall_mem_cons.mp hwords
      refine ⟨hfirst, ?_, ih hothers⟩
      simp [Sign.isName]

/-- Behind a name stands no other one. -/
theorem Behind.isName_head? {pieces : List Piece} (h : Behind pieces) :
    (signs pieces).head?.any Sign.isName = false := by
  cases pieces with
  | nil => rfl
  | cons piece rest =>
      cases piece with
      | fixed words =>
          obtain ⟨hsome, -⟩ := h.spaced.1
          rw [signs_cons, Piece.signs, chars]
          cases hcs : words.toList with
          | nil => exact absurd (String.toList_inj.mp hcs) hsome
          | cons c cs => rfl
      | name identifier => exact absurd rfl (h.noName identifier rest)
      | value scalar =>
          rw [signs_cons, Piece.signs]
          split <;> rfl

/-- Pieces that are spaced are legible. -/
theorem Spaced.legible : ∀ {pieces : List Piece}, Spaced pieces → Legible (signs pieces)
  | [], _ => trivial
  | .fixed words :: rest, h => legible_chars h.1.2 h.2.legible
  | .name identifier :: rest, h =>
      ⟨rfl, fun _ => Behind.isName_head? ⟨h.2, h.1⟩, h.2.legible⟩
  | .value scalar :: rest, h => by
      have hrest : Legible (signs rest) := (show Spaced rest from h).legible
      rw [signs_cons, Piece.signs]
      split
      · have hnull : Separating "NULL" := by decide
        exact legible_chars hnull.2 hrest
      · exact ⟨rfl, by simp [Sign.isName], hrest⟩

/-- Nothing may stand behind a name. -/
theorem behind_nil : Behind [] :=
  ⟨trivial, nofun⟩

/-- Separating text may stand behind a name. -/
theorem behind_fixed (words : String) (hwords : Separating words) {rest : List Piece}
    (h : Spaced rest) : Behind (.fixed words :: rest) :=
  ⟨⟨hwords, h⟩, nofun⟩

/-- A name may stand before what may stand behind a name. -/
theorem Behind.name {rest : List Piece} (h : Behind rest) (identifier : String) :
    Spaced (.name identifier :: rest) :=
  ⟨h.noName, h.spaced⟩

/-- A number behind separating text leaves it separating. -/
theorem separating_number {words : String} (hwords : Separating words) (n : Nat) :
    Separating (words ++ toString n) := by
  constructor
  · intro hnone
    exact hwords.1 (String.append_eq_empty_iff.mp hnone).1
  · intro c hc
    rw [String.toList_append, List.mem_append, toList_toString] at hc
    rcases hc with hword | hnumber
    · exact hwords.2 c hword
    · have hdigit := allDigits_toDigits n c hnumber
      simp only [Sign.isMark, Bool.or_eq_false_iff, decide_eq_false_iff_not]
      refine ⟨⟨?_, ?_⟩, ?_⟩ <;> rintro rfl <;> cases hdigit

section Clauses

variable {rest : List Piece} (h : Behind rest)

include h

/-- A column may stand before what may stand behind a name. -/
theorem Behind.column (column : ColumnRef) : Spaced (column.pieces ++ rest) :=
  (behind_fixed _ (by decide) (h.name column.name)).name column.qualifier

/-- An optional label and what may stand behind a name may stand behind a name. -/
theorem Behind.label (label : Option String) : Behind (labelPieces label ++ rest) := by
  cases label with
  | none => exact h
  | some label => exact behind_fixed _ (by decide) (h.name label)

omit h in
/-- Items may stand behind one another with commas between them. -/
theorem spaced_commaSeparated {α : Type} {pieces : α → List Piece}
    (hitem : ∀ item rest, Behind rest → Spaced (pieces item ++ rest)) (h : Behind rest)
    (items : List α) : Spaced (commaSeparated (items.map pieces) ++ rest) := by
  cases items with
  | nil => exact h.spaced
  | cons first others =>
      rw [List.map_cons, commaSeparated.eq_2, List.append_assoc]
      refine hitem first _ ?_
      induction others with
      | nil => exact h
      | cons item others ih =>
          rw [List.map_cons, List.flatMap_cons, List.append_assoc]
          exact behind_fixed _ (by decide) (hitem item _ ih)

/-- An output may stand before what may stand behind a name. -/
theorem Behind.output (output : Output) : Spaced (output.pieces ++ rest) := by
  cases output with
  | column ref label =>
      rw [Output.pieces, List.append_assoc]
      exact (h.label label).column ref
  | count label => exact (behind_fixed _ (by decide) (h.label label).spaced).spaced

/-- So may the outputs of a statement. -/
theorem Behind.outputs (outputs : List Output) : Spaced (outputPieces outputs ++ rest) := by
  unfold outputPieces
  split
  · exact (behind_fixed _ (by decide) h.spaced).spaced
  · exact spaced_commaSeparated (fun output _ hrest => hrest.output output) h outputs

/-- The grouping may stand behind a name and before what may. -/
theorem Behind.groups (columns : Option (List ColumnRef)) :
    Behind (groupPieces columns ++ rest) := by
  cases columns with
  | none => exact h
  | some columns =>
      exact behind_fixed _ (by decide)
        (spaced_commaSeparated (fun column _ hrest => hrest.column column) h columns)

/-- A sort key may stand before what may stand behind a name. -/
theorem Behind.sortKey (key : SortKey) : Spaced (key.pieces ++ rest) := by
  obtain ⟨column, direction, nulls⟩ := key
  have hdirection : Separating (" " ++ direction.word) := by cases direction <;> decide
  rw [SortKey.pieces, List.append_assoc]
  refine Behind.column (behind_fixed _ hdirection ?_) column
  cases nulls with
  | none => exact h.spaced
  | some nulls => cases nulls <;> exact (behind_fixed _ (by decide) h.spaced).spaced

/-- The ordering may stand behind a name and before what may. -/
theorem Behind.orders (keys : Option (List SortKey)) : Behind (orderPieces keys ++ rest) := by
  cases keys with
  | none => exact h
  | some keys =>
      exact behind_fixed _ (by decide)
        (spaced_commaSeparated (fun key _ hrest => hrest.sortKey key) h keys)

/-- So may the window. -/
theorem Behind.window (window : Option Window) : Behind (windowPieces window ++ rest) := by
  have hnumber : ∀ {words : String} (_ : Separating words) (n : Nat) {rest : List Piece},
      Behind rest → Behind (.fixed (words ++ toString n) :: rest) :=
    fun hwords n _ hrest => behind_fixed _ (separating_number hwords n) hrest.spaced
  rcases window with _ | ⟨_ | count, _ | offset⟩
  · exact h
  · exact h
  · exact hnumber (by decide) offset h
  · exact hnumber (by decide) count h
  · exact hnumber (by decide) count (hnumber (by decide) offset h)

end Clauses

/-- A list of scalars may stand before what may stand behind a name. -/
theorem spaced_values {rest : List Piece} (h : Behind rest) (values : List Value) :
    Spaced (commaSeparated (values.map fun value => [.value value]) ++ rest) :=
  @spaced_commaSeparated rest _ (fun value => [.value value]) (fun _ _ hrest => hrest.spaced) h values

mutual

/-- So may every expression. -/
theorem Behind.expr : ∀ (expr : Expr) {rest : List Piece}, Behind rest →
    Spaced (expr.pieces ++ rest)
  | .column ref, rest, h => by
      rw [Expr.pieces]
      exact h.column ref
  | .literal value, rest, h => by
      rw [Expr.pieces]
      exact h.spaced
  | .compare left op right, rest, h => by
      have hright := Behind.expr right (behind_fixed ")" (by decide) h.spaced)
      have hleft := Behind.expr left
        (behind_fixed (" " ++ op.word ++ " ") (by cases op <;> decide) hright)
      have hall := behind_fixed "(" (by decide) hleft
      simpa only [Expr.pieces, List.cons_append, List.append_assoc, List.nil_append] using hall.spaced
  | .connect left op right, rest, h => by
      have hright := Behind.expr right (behind_fixed ")" (by decide) h.spaced)
      have hleft := Behind.expr left
        (behind_fixed (" " ++ op.word ++ " ") (by cases op <;> decide) hright)
      have hall := behind_fixed "(" (by decide) hleft
      simpa only [Expr.pieces, List.cons_append, List.append_assoc, List.nil_append] using hall.spaced
  | .not inner, rest, h => by
      have hinner := Behind.expr inner (behind_fixed ")" (by decide) h.spaced)
      have hall := behind_fixed "NOT (" (by decide) hinner
      simpa only [Expr.pieces, List.cons_append, List.append_assoc, List.nil_append] using hall.spaced
  | .like subject pattern true, rest, h => by
      have hend := behind_fixed ")" (by decide) h.spaced
      have hpattern : Spaced (.value (.text pattern) :: .fixed ")" :: rest) := hend.spaced
      have hsubject := Behind.expr subject
        (behind_fixed ") LIKE LOWER(" (by decide) hpattern)
      have hall := behind_fixed "LOWER(" (by decide) hsubject
      rw [Expr.pieces, if_pos rfl]
      simpa only [List.cons_append, List.append_assoc, List.nil_append] using hall.spaced
  | .like subject pattern false, rest, h => by
      have hpattern : Spaced (.value (.text pattern) :: rest) := h.spaced
      have hall := Behind.expr subject (behind_fixed " LIKE " (by decide) hpattern)
      rw [Expr.pieces, if_neg (by decide)]
      simpa only [List.cons_append, List.append_assoc, List.nil_append] using hall
  | .oneOf subject values negated, rest, h => by
      have hvalues := spaced_values (behind_fixed ")" (by decide) h.spaced) values
      have hall := Behind.expr subject (behind_fixed
        (if negated then " NOT IN (" else " IN (") (by cases negated <;> decide) hvalues)
      simpa only [Expr.pieces, List.cons_append, List.append_assoc, List.nil_append] using hall
  | .isNull subject negated, rest, h => by
      have hall := Behind.expr subject (behind_fixed
        (if negated then " IS NOT NULL" else " IS NULL") (by cases negated <;> decide)
        h.spaced)
      simpa only [Expr.pieces, List.cons_append, List.append_assoc, List.nil_append] using hall
  | .exists statement, rest, h => by
      have hstatement := Behind.select statement
        (behind_fixed ")" (by decide) h.spaced)
      have hall := behind_fixed "EXISTS (" (by decide) hstatement
      simpa only [Expr.pieces, List.cons_append, List.append_assoc, List.nil_append] using hall.spaced

/-- So may every statement inside an expression. -/
theorem Behind.select : ∀ (statement : SelectOf Expr) {rest : List Piece}, Behind rest →
    Spaced (selectPieces statement ++ rest)
  | ⟨outputs, table, label, joins, filter, groupBy, orderBy, window⟩, rest, h => by
      have hjoins := Behind.joins joins
        (Behind.filter filter (((h.window window).orders orderBy).groups groupBy))
      have hfrom := behind_fixed " FROM " (by decide) ((hjoins.label label).name table)
      have hall := behind_fixed "SELECT " (by decide) (hfrom.outputs outputs)
      rw [selectPieces]
      simpa only [List.cons_append, List.append_assoc] using hall.spaced

/-- Joins may stand behind a name and before what may. -/
theorem Behind.joins : ∀ (joins : List (JoinOf Expr)) {rest : List Piece}, Behind rest →
    Behind (joinPieces joins ++ rest)
  | [], rest, h => by
      rw [joinPieces]
      exact h
  | ⟨kind, table, label, on⟩ :: more, rest, h => by
      have hon := Behind.expr on (Behind.joins more h)
      have hlabel := (behind_fixed " ON " (by decide) hon).name label
      have htable := (behind_fixed " AS " (by decide) hlabel).name table
      have hall := behind_fixed (" " ++ kind.word ++ " JOIN ")
        (by cases kind <;> decide) htable
      rw [joinPieces]
      simpa only [List.cons_append, List.append_assoc] using hall

/-- So may a predicate. -/
theorem Behind.filter : ∀ (filter : Option Expr) {rest : List Piece}, Behind rest →
    Behind (wherePieces filter ++ rest)
  | none, rest, h => by
      rw [wherePieces]
      exact h
  | some condition, rest, h => by
      rw [wherePieces]
      exact behind_fixed _ (by decide) (Behind.expr condition h)

end

/-- In a style with placeholders the text of a statement and its parameters tell its signs. -/
theorem signs_of_textIn {style : Style} (hstyle : style ≠ .inline) {one other : Select}
    (htext : one.textIn style = other.textIn style)
    (hparameters : one.parametersIn style = other.parametersIn style) :
    signs one.pieces = signs other.pieces := by
  have hlegible : ∀ statement : Select, Legible (signs statement.pieces) := by
    intro statement
    have hspaced := Behind.select statement behind_nil
    rw [List.append_nil] at hspaced
    exact hspaced.legible
  refine @signs_of_text style 0 _ _ (hlegible one) (hlegible other) ?_ ?_
  · rw [← toList_render hstyle, ← toList_render hstyle]
    exact congrArg String.toList htext
  · rw [SelectOf.parametersIn, SelectOf.parametersIn, if_neg hstyle, if_neg hstyle] at hparameters
    rw [← parameters_eq, ← parameters_eq, hparameters]

end NestedQuery
