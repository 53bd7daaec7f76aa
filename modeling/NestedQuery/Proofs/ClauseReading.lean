import NestedQuery.Proofs.Labels
import NestedQuery.Proofs.StatementSigns

/-!
# Reading the clauses of a statement

Every clause of a statement begins with words of its own, none of which begins
another.  So whether a clause is there is told by its first signs, and where it
ends by the words of the clauses that may follow; the items of a list are told
by the commas before them, a number by the first sign that is no digit.  A window
that has neither count nor offset is not written, so it is told only up to that.
-/

namespace NestedQuery

/-! ### Words -/

/-- Whether the sign is a character of fixed text. -/
def Sign.isChar : Sign → Bool
  | .char _ => true
  | _ => false

/-- Whether the sign is a digit. -/
def Sign.isDigit : Sign → Bool
  | .char c => c.isDigit
  | _ => false

theorem chars_append (one other : String) : chars (one ++ other) = chars one ++ chars other := by
  rw [chars, String.toList_append, List.map_append]
  rfl

/-- A character is told by its sign. -/
theorem char_injective : Function.Injective Sign.char :=
  fun _ _ h => Sign.char.inj h

/-- Neither text begins with the other. -/
def WordsApart (one other : String) : Prop :=
  ¬ one.toList <+: other.toList ∧ ¬ other.toList <+: one.toList

instance (one other : String) : Decidable (WordsApart one other) :=
  inferInstanceAs (Decidable (_ ∧ _))

/-- Texts that begin with words apart differ. -/
theorem WordsApart.chars_ne {one other : String} (h : WordsApart one other)
    (rest more : List Sign) : chars one ++ rest ≠ chars other ++ more := by
  intro heq
  rcases List.prefix_or_prefix_of_prefix (List.prefix_append (chars one) rest)
      (heq ▸ List.prefix_append (chars other) more) with hprefix | hprefix
  · exact h.1 ((List.prefix_map_iff_of_injective char_injective).mp hprefix)
  · exact h.2 ((List.prefix_map_iff_of_injective char_injective).mp hprefix)

/-- The signs are at their end or begin with one of the words. -/
def Opens (words : List String) (rest : List Sign) : Prop :=
  rest = [] ∨ ∃ word ∈ words, ∃ more, rest = chars word ++ more

/-- What begins with one of some words opens with them. -/
theorem opens_chars {words : List String} {word : String} (h : word ∈ words) (more : List Sign) :
    Opens words (chars word ++ more) :=
  .inr ⟨word, h, more, rfl⟩

/-- More words may open the same text. -/
theorem Opens.mono {words others : List String} {rest : List Sign} (h : Opens words rest)
    (hsubset : words ⊆ others) : Opens others rest :=
  h.imp_right fun ⟨word, hword, more, heq⟩ => ⟨word, hsubset hword, more, heq⟩

/-- Signs that begin with one of some words do not begin with another word. -/
theorem Opens.ne {words : List String} {rest : List Sign} (h : Opens words rest) {other : String}
    (hother : other ≠ "" ∧ ∀ word ∈ words, WordsApart word other) (more : List Sign) :
    rest ≠ chars other ++ more := by
  rcases h with rfl | ⟨word, hword, tail, rfl⟩
  · intro heq
    have hnone := (List.append_eq_nil_iff.mp heq.symm).1
    exact hother.1 (String.toList_inj.mp (List.map_eq_nil_iff.mp hnone))
  · exact (hother.2 word hword).chars_ne tail more

/-! ### Clauses -/

/-- What is written so is told, with where it ends, if one of the words or nothing follows. -/
def ReadBefore {α : Type} (words : List String) (view : α → List Sign) : Prop :=
  ∀ ⦃a b : α⦄ ⦃rest more : List Sign⦄, Opens words rest → Opens words more →
    view a ++ rest = view b ++ more → a = b ∧ rest = more

/-- The word and what is said after it, if anything is. -/
def optional {α : Type} (word : String) (view : α → List Sign) : Option α → List Sign
  | none => []
  | some a => chars word ++ view a

section Clauses

variable {α : Type} {words : List String} {view : α → List Sign}

/-- What is told whatever follows. -/
theorem ReadBefore.of_any (h : ∀ {a b : α} {rest more : List Sign},
    view a ++ rest = view b ++ more → a = b ∧ rest = more) : ReadBefore words view :=
  fun _ _ _ _ _ _ => h

/-- An optional part begins with its word, or what follows it comes at once. -/
theorem opens_optional {word : String} {said : Option α} {rest : List Sign} (h : Opens words rest) :
    Opens (word :: words) (optional word view said ++ rest) := by
  cases said with
  | none => exact h.mono (List.subset_cons_self _ _)
  | some a =>
      rw [optional, List.append_assoc]
      exact opens_chars List.mem_cons_self _

/-- Whether a clause is there is told by its word. -/
theorem optional_read {word : String} (hword : word ≠ "" ∧ ∀ other ∈ words, WordsApart other word)
    (hread : ReadBefore words view) : ReadBefore words (optional word view) := by
  intro one other rest more hrest hmore h
  cases one with
  | none =>
      cases other with
      | none => exact ⟨rfl, h⟩
      | some b =>
          rw [optional, optional, List.append_assoc] at h
          exact absurd h (hrest.ne hword _)
  | some a =>
      rw [optional, List.append_assoc] at h
      cases other with
      | none => exact absurd h.symm (hmore.ne hword _)
      | some b =>
          rw [optional, List.append_assoc] at h
          obtain ⟨rfl, hends⟩ := hread hrest hmore (List.append_cancel_left h)
          exact ⟨rfl, hends⟩

variable {pieces : α → List Piece}

/-- Behind a first item stands a comma, or what may follow the items. -/
theorem opens_commas {items : List α} {rest : List Sign} (hrest : Opens words rest) :
    Opens (", " :: words) (signs ((items.map pieces).flatMap (.fixed ", " :: ·)) ++ rest) := by
  cases items with
  | nil => exact hrest.mono (List.subset_cons_self _ _)
  | cons item items =>
      rw [List.map_cons, List.flatMap_cons, List.cons_append, signs_cons, List.append_assoc]
      exact opens_chars List.mem_cons_self _

section Lists

variable (hwords : ∀ other ∈ words, WordsApart other ", ")
  (hread : ReadBefore (", " :: words) fun a => signs (pieces a))

include hwords hread

/-- The items behind a first one are told by the commas before them. -/
theorem commas_read : ReadBefore words fun items : List α =>
    signs ((items.map pieces).flatMap (.fixed ", " :: ·)) := by
  have hcomma : ", " ≠ "" ∧ ∀ other ∈ words, WordsApart other ", " := ⟨by decide, hwords⟩
  have hcons : ∀ (a : α) (items : List α) (rest : List Sign),
      signs (((a :: items).map pieces).flatMap (.fixed ", " :: ·)) ++ rest =
        chars ", " ++ (signs (pieces a) ++
          (signs ((items.map pieces).flatMap (.fixed ", " :: ·)) ++ rest)) := by
    intro a items rest
    simp only [List.map_cons, List.flatMap_cons, List.cons_append, signs_cons, Piece.signs,
      signs_append, List.append_assoc]
  intro one
  induction one with
  | nil =>
      intro other rest more hrest hmore h
      cases other with
      | nil => exact ⟨rfl, h⟩
      | cons b other =>
          simp only [hcons] at h
          exact absurd h (hrest.ne hcomma _)
  | cons a one ih =>
      intro other rest more hrest hmore h
      simp only [hcons] at h
      cases other with
      | nil => exact absurd h.symm (hmore.ne hcomma _)
      | cons b other =>
          simp only [hcons, List.append_cancel_left_eq] at h
          obtain ⟨rfl, hothers⟩ := hread (opens_commas hrest) (opens_commas hmore) h
          obtain ⟨rfl, hends⟩ := ih hrest hmore hothers
          exact ⟨rfl, hends⟩

/-- Items with commas between them are told apart, if no item begins like what may follow. -/
theorem commaSeparated_read
    (hstart : ∀ (a : α) (more : List Sign), ¬ Opens words (signs (pieces a) ++ more)) :
    ReadBefore words fun items : List α => signs (commaSeparated (items.map pieces)) := by
  have hcons : ∀ (a : α) (items : List α) (rest : List Sign),
      signs (commaSeparated ((a :: items).map pieces)) ++ rest = signs (pieces a) ++
        (signs ((items.map pieces).flatMap (.fixed ", " :: ·)) ++ rest) := by
    intro a items rest
    rw [List.map_cons, commaSeparated.eq_2, signs_append, List.append_assoc]
  intro one other rest more hrest hmore h
  dsimp only at h
  cases one with
  | nil =>
      cases other with
      | nil => exact ⟨rfl, h⟩
      | cons b other =>
          rw [hcons] at h
          change rest = _ at h
          exact absurd (h ▸ hrest) (hstart b _)
  | cons a one =>
      rw [hcons] at h
      cases other with
      | nil =>
          change _ = more at h
          exact absurd (h.symm ▸ hmore) (hstart a _)
      | cons b other =>
          rw [hcons] at h
          obtain ⟨rfl, hothers⟩ := hread (opens_commas hrest) (opens_commas hmore) h
          obtain ⟨rfl, hends⟩ := commas_read hwords hread hrest hmore hothers
          exact ⟨rfl, hends⟩

end Lists

end Clauses

/-- No word begins where a name or a placeholder stands. -/
theorem not_opens_of_isChar {words : List String} (hwords : "" ∉ words) {sign : Sign}
    (hsign : sign.isChar = false) (more : List Sign) : ¬ Opens words (sign :: more) := by
  rintro (hnil | ⟨word, hword, tail, heq⟩)
  · cases hnil
  · rw [chars] at heq
    cases hcs : word.toList with
    | nil => exact hwords (String.toList_inj.mp (hcs.trans String.toList_empty.symm) ▸ hword)
    | cons c cs =>
        rw [hcs] at heq
        rw [(List.cons.inj heq).1] at hsign
        cases hsign

/-- Words no two of which begin alike tell what they stand for. -/
theorem word_read {α : Type} [DecidableEq α] (word : α → String)
    (hapart : ∀ a b, a ≠ b → WordsApart (word a) (word b)) {a b : α} {rest more : List Sign}
    (h : chars (word a) ++ rest = chars (word b) ++ more) : a = b ∧ rest = more := by
  by_cases hsame : a = b
  · subst hsame
    exact ⟨rfl, List.append_cancel_left h⟩
  · exact absurd h ((hapart a b hsame).chars_ne rest more)

/-- A number as it is written in a window. -/
def numberSigns (n : Nat) : List Sign :=
  chars (toString n)

/-- A number is told from words that begin with no digit. -/
theorem number_read {words : List String}
    (hwords : ∀ word ∈ words, word.toList.head?.map Char.isDigit = some false) :
    ReadBefore words numberSigns := by
  have hdigits : ∀ k : Nat, ∀ sign ∈ numberSigns k, Sign.isDigit sign = true := by
    intro k sign hsign
    obtain ⟨c, hc, rfl⟩ := List.mem_map.mp hsign
    exact isDigit_of_mem_toString hc
  have hends : ∀ {rest : List Sign}, Opens words rest →
      ∀ sign ∈ rest.head?, Sign.isDigit sign = false := by
    rintro rest (rfl | ⟨word, hword, tail, rfl⟩) sign hsign
    · cases hsign
    · obtain ⟨c, hc, hdigit⟩ := Option.map_eq_some_iff.mp (hwords word hword)
      rw [chars, List.head?_append, List.head?_map, hc] at hsign
      cases hsign
      exact hdigit
  intro n m rest more hrest hmore h
  obtain ⟨hsame, hothers⟩ := split_of_all (hdigits n) (hdigits m) (hends hrest) (hends hmore) h
  have hcs := (List.map_inj_right fun _ _ hchar => char_injective hchar).mp hsame
  exact ⟨toList_toString_injective hcs, hothers⟩

/-! ### Columns, outputs and sort keys -/

/-- A column is written as its qualifier and its name, with a dot between them. -/
theorem signs_column (column : ColumnRef) (rest : List Sign) : signs column.pieces ++ rest =
    .name column.qualifier :: (chars "." ++ .name column.name :: rest) := by
  simp only [ColumnRef.pieces, signs_cons, signs_nil, Piece.signs, List.cons_append,
    List.nil_append, List.append_assoc]

/-- A column is told whatever stands behind it. -/
theorem ColumnRef.read {one other : ColumnRef} {rest more : List Sign}
    (h : signs one.pieces ++ rest = signs other.pieces ++ more) : one = other ∧ rest = more := by
  rw [signs_column, signs_column, List.cons.injEq, List.append_cancel_left_eq, List.cons.injEq,
    Sign.name.injEq, Sign.name.injEq] at h
  obtain ⟨hqualifier, hname, hends⟩ := h
  exact ⟨(ColumnRef.mk.injEq ..).mpr ⟨hqualifier, hname⟩, hends⟩

/-- No word begins where a column stands. -/
theorem ColumnRef.not_opens {words : List String} (hwords : "" ∉ words) (column : ColumnRef)
    (more : List Sign) : ¬ Opens words (signs column.pieces ++ more) := by
  rw [signs_column]
  exact not_opens_of_isChar hwords rfl _

/-- A name is told whatever stands behind it. -/
theorem name_read {one other : String} {rest more : List Sign}
    (h : Sign.name one :: rest = Sign.name other :: more) : one = other ∧ rest = more := by
  rw [List.cons.injEq, Sign.name.injEq] at h
  exact h

/-- A label is an optional part behind its word. -/
theorem signs_label (label : Option String) :
    signs (labelPieces label) = optional " AS " (fun label => [Sign.name label]) label := by
  cases label with
  | none => rfl
  | some label =>
      simp only [labelPieces, signs_cons, signs_nil, Piece.signs, optional, List.append_nil]

/-- It is told, with where it ends, from words apart from its own. -/
theorem label_read {words : List String} (hwords : ∀ other ∈ words, WordsApart other " AS ") :
    ReadBefore words fun label => signs (labelPieces label) := by
  intro one other rest more hrest hmore h
  simp only [signs_label] at h
  exact optional_read ⟨by decide, hwords⟩ (.of_any name_read) hrest hmore h

/-- What may stand behind an output. -/
def outputEnds : List String :=
  [", ", " FROM "]

/-- An output is told by what may stand behind it. -/
theorem Output.read : ReadBefore outputEnds fun output : Output => signs output.pieces := by
  intro one other rest more hrest hmore h
  have hlabel : ReadBefore outputEnds fun label => signs (labelPieces label) :=
    label_read (by decide)
  dsimp only at h
  cases one with
  | column ref label =>
      rw [Output.pieces, signs_append, List.append_assoc] at h
      cases other with
      | column found known =>
          rw [Output.pieces, signs_append, List.append_assoc] at h
          obtain ⟨rfl, hlabels⟩ := ColumnRef.read h
          obtain ⟨rfl, hends⟩ := hlabel hrest hmore hlabels
          exact ⟨rfl, hends⟩
      | count known =>
          rw [signs_column] at h
          cases (List.cons.inj h).1
  | count label =>
      cases other with
      | column found known =>
          rw [Output.pieces.eq_1, signs_append, List.append_assoc, signs_column] at h
          cases (List.cons.inj h).1
      | count known =>
          rw [Output.pieces, Output.pieces, signs_cons, signs_cons, List.append_assoc,
            List.append_assoc] at h
          obtain ⟨rfl, hends⟩ := hlabel hrest hmore (List.append_cancel_left h)
          exact ⟨rfl, hends⟩

/-- Where an output begins there is neither its end nor a star. -/
theorem Output.start (output : Output) (more : List Sign) :
    ¬ Opens ["*", " FROM "] (signs output.pieces ++ more) := by
  cases output with
  | column ref label =>
      rw [Output.pieces, signs_append, List.append_assoc]
      exact ColumnRef.not_opens (by decide) _ _
  | count label =>
      rw [Output.pieces, signs_cons, List.append_assoc]
      intro hopens
      exact @Opens.ne _ _ hopens "COUNT(*)" (by decide) _ rfl

/-- So are the outputs of a statement by the word behind them, a star included. -/
theorem outputs_read : ReadBefore [" FROM "] fun outputs => signs (outputPieces outputs) := by
  intro one other rest more hrest hmore h
  have hstart : ∀ (output : Output) (outputs : List Output) (rest more : List Sign),
      chars "*" ++ rest ≠ signs (commaSeparated ((output :: outputs).map Output.pieces)) ++ more := by
    intro output outputs rest more hsame
    rw [List.map_cons, commaSeparated.eq_2, signs_append, List.append_assoc] at hsame
    exact output.start _ (hsame ▸ opens_chars List.mem_cons_self rest)
  cases one with
  | nil =>
      cases other with
      | nil => exact ⟨rfl, List.append_cancel_left h⟩
      | cons found others => exact absurd h (hstart found others rest more)
  | cons output outputs =>
      cases other with
      | nil => exact absurd h.symm (hstart output outputs more rest)
      | cons found others =>
          exact commaSeparated_read (by decide) Output.read
            (fun output more hopens => output.start more (hopens.mono (List.subset_cons_self _ _)))
            hrest hmore h

/-- A sort key is written as its column, its direction and, optionally, the place of its nulls. -/
theorem signs_sortKey (key : SortKey) (rest : List Sign) : signs key.pieces ++ rest =
    signs key.column.pieces ++ (chars (" " ++ key.direction.word) ++
      (optional " NULLS " (fun nulls => chars nulls.word) key.nulls ++ rest)) := by
  obtain ⟨column, direction, nulls⟩ := key
  rw [SortKey.pieces, signs_append, signs_cons, List.append_assoc, List.append_assoc]
  cases nulls with
  | none => rfl
  | some nulls =>
      simp only [signs_cons, signs_nil, Piece.signs, chars_append, optional, List.append_nil]

/-- It is told where words follow that are apart from the one for the place of nulls. -/
theorem SortKey.read {words : List String}
    (hwords : ∀ other ∈ words, WordsApart other " NULLS ") :
    ReadBefore words fun key : SortKey => signs key.pieces := by
  intro one other rest more hrest hmore h
  simp only [signs_sortKey] at h
  obtain ⟨hcolumn, h⟩ := ColumnRef.read h
  obtain ⟨hdirection, h⟩ := word_read (fun direction : Direction => " " ++ direction.word)
    (fun a b => by cases a <;> cases b <;> decide) h
  obtain ⟨hnulls, hends⟩ := optional_read ⟨by decide, hwords⟩
    (.of_any (word_read NullPlacement.word fun a b => by cases a <;> cases b <;> decide))
    hrest hmore h
  exact ⟨(SortKey.mk.injEq ..).mpr ⟨hcolumn, hdirection, hnulls⟩, hends⟩

/-! ### The clauses at the end of a statement -/

/-- What may stand behind a statement. -/
def statementEnds : List String :=
  [")"]

/-- What may stand behind the ordering of a statement. -/
def orderEnds : List String :=
  " LIMIT " :: " OFFSET " :: statementEnds

/-- What may stand behind the grouping of a statement. -/
def groupEnds : List String :=
  " ORDER BY " :: orderEnds

/-- What may stand behind the predicate of a statement. -/
def filterEnds : List String :=
  " GROUP BY " :: groupEnds

/-- The grouping is an optional part behind its words. -/
theorem signs_groups (columns : Option (List ColumnRef)) : signs (groupPieces columns) =
    optional " GROUP BY " (fun columns => signs (commaSeparated (columns.map ColumnRef.pieces)))
      columns := by
  cases columns <;> rfl

/-- It is told, with where it ends, from what may stand behind it. -/
theorem groups_read : ReadBefore groupEnds fun columns => signs (groupPieces columns) := by
  intro one other rest more hrest hmore h
  simp only [signs_groups] at h
  exact optional_read (by decide)
    (commaSeparated_read (by decide) (.of_any ColumnRef.read) (ColumnRef.not_opens (by decide)))
    hrest hmore h

/-- So is the ordering an optional part. -/
theorem signs_orders (keys : Option (List SortKey)) : signs (orderPieces keys) =
    optional " ORDER BY " (fun keys => signs (commaSeparated (keys.map SortKey.pieces))) keys := by
  cases keys <;> rfl

/-- No word begins where a sort key stands. -/
theorem SortKey.not_opens {words : List String} (hwords : "" ∉ words) (key : SortKey)
    (more : List Sign) : ¬ Opens words (signs key.pieces ++ more) := by
  rw [signs_sortKey]
  exact ColumnRef.not_opens hwords key.column _

/-- The ordering is told, with where it ends, from what may stand behind it. -/
theorem orders_read : ReadBefore orderEnds fun keys => signs (orderPieces keys) := by
  intro one other rest more hrest hmore h
  simp only [signs_orders] at h
  exact optional_read (by decide)
    (commaSeparated_read (by decide) (SortKey.read (by decide)) (SortKey.not_opens (by decide)))
    hrest hmore h

/-- The window, unless it has neither count nor offset. -/
def trimmedWindow (window : Option Window) : Option Window :=
  window.filter fun window => window.count.isSome || window.offset.isSome

/-- A window that has neither count nor offset is not written. -/
theorem windowPieces_trimmed (window : Option Window) :
    windowPieces (trimmedWindow window) = windowPieces window := by
  rcases window with _ | ⟨_ | count, _ | offset⟩ <;> rfl

/-- A window is written as two optional numbers. -/
theorem signs_window (window : Option Window) (rest : List Sign) :
    signs (windowPieces window) ++ rest = optional " LIMIT " numberSigns (window.bind Window.count) ++
      (optional " OFFSET " numberSigns (window.bind Window.offset) ++ rest) := by
  have hpart : ∀ (word : String) (n : Nat), signs [.fixed (word ++ toString n)] =
      optional word numberSigns (some n) := by
    intro word n
    rw [signs_cons, signs_nil, List.append_nil, Piece.signs, chars_append]
    rfl
  rcases window with _ | ⟨_ | count, _ | offset⟩
  · rfl
  · rfl
  · exact congrArg (· ++ rest) (hpart " OFFSET " offset)
  · exact congrArg (· ++ rest) (hpart " LIMIT " count)
  · rw [windowPieces, signs_append, List.append_assoc]
    exact congrArg₂ (· ++ ·) (hpart " LIMIT " count)
      (congrArg (· ++ rest) (hpart " OFFSET " offset))

/-- It comes back from the two numbers, if there is one of them. -/
theorem trimmedWindow_eq (window : Option Window) : trimmedWindow window =
    if (window.bind Window.count).isSome || (window.bind Window.offset).isSome then
      some ⟨window.bind Window.count, window.bind Window.offset⟩ else none := by
  rcases window with _ | ⟨_ | count, _ | offset⟩ <;> rfl

/-- A window that is written is told, with where it ends, by what may stand behind a statement. -/
theorem window_read {one other : Option Window} {rest more : List Sign}
    (hrest : Opens statementEnds rest) (hmore : Opens statementEnds more)
    (h : signs (windowPieces one) ++ rest = signs (windowPieces other) ++ more) :
    trimmedWindow one = trimmedWindow other ∧ rest = more := by
  rw [signs_window, signs_window] at h
  obtain ⟨hcount, h⟩ := optional_read (by decide) (number_read (by decide))
    (opens_optional hrest) (opens_optional hmore) h
  obtain ⟨hoffset, hends⟩ := optional_read (by decide) (number_read (by decide)) hrest hmore h
  rw [trimmedWindow_eq, trimmedWindow_eq, hcount, hoffset]
  exact ⟨rfl, hends⟩

/-- Behind the ordering stands a window, or what may stand behind the statement. -/
theorem opens_window {window : Option Window} {rest : List Sign} (h : Opens statementEnds rest) :
    Opens orderEnds (signs (windowPieces window) ++ rest) := by
  rw [signs_window]
  exact opens_optional (opens_optional h)

/-- Behind the grouping stands an ordering, or what may stand behind it. -/
theorem opens_orders {keys : Option (List SortKey)} {rest : List Sign} (h : Opens orderEnds rest) :
    Opens groupEnds (signs (orderPieces keys) ++ rest) := by
  rw [signs_orders]
  exact opens_optional h

/-- Behind the predicate stands a grouping, or what may stand behind it. -/
theorem opens_groups {columns : Option (List ColumnRef)} {rest : List Sign}
    (h : Opens groupEnds rest) : Opens filterEnds (signs (groupPieces columns) ++ rest) := by
  rw [signs_groups]
  exact opens_optional h

end NestedQuery
