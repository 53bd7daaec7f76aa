import NestedQuery.Engine.Find
import NestedQuery.Proofs.CompiledScope
import NestedQuery.Proofs.FilterMeaning
import NestedQuery.Proofs.Lowering

/-!
# Searches for a text

Three operators look for a text in a column: anywhere in it, at its start, or at
its end.  Signs of patterns that the text holds mean nothing to them.  With no
regard to case the lowered text is looked for in the lowered column.  This finds
what is found with regard to case, unless a capital sigma is in the way: how it
is lowered depends on whether it ends a word, and a text cut out of another may
end a word where the other goes on, or begin with what ends a word there.
-/

namespace NestedQuery

open Text (lowercase lowerAfter lowerPart LoweredAlone)

/-! ### The operators -/

/-- An operator that looks for a text. -/
inductive TextSearch where
  | contains
  | startsWith
  | endsWith
  deriving DecidableEq, Repr

namespace TextSearch

/-- The tests of the operator alone. -/
def tests (needle : String) (mode : Option MatchMode) : TextSearch → Tests
  | .contains => { contains := some needle, mode }
  | .startsWith => { startsWith := some needle, mode }
  | .endsWith => { endsWith := some needle, mode }

/-- The filter that asks for nothing else. -/
def filter (search : TextSearch) (key needle : String) (mode : Option MatchMode) : Filter :=
  .node [] [] [] [(key, .condition (.only (search.tests needle mode)))]

/-- Whether anything may stand before the text. -/
def before : TextSearch → Bool
  | .contains | .endsWith => true
  | .startsWith => false

/-- Whether anything may stand after the text. -/
def after : TextSearch → Bool
  | .contains | .startsWith => true
  | .endsWith => false

/-- What the operator says of a text: it has the other as a part, at its start or at its end. -/
def Finds (needle text : List Char) : TextSearch → Prop
  | .contains => needle <:+: text
  | .startsWith => needle <+: text
  | .endsWith => needle <:+ text

theorem placed_iff (search : TextSearch) (needle text : List Char) :
    Like.placed search.before search.after needle text = true ↔ search.Finds needle text := by
  cases search <;> exact decide_eq_true_iff

instance (search : TextSearch) (needle text : List Char) : Decidable (search.Finds needle text) :=
  decidable_of_iff _ (search.placed_iff needle text)

/-- A place where the operator may find a text, between what stands before and after it. -/
structure Places (search : TextSearch) (front needle back text : List Char) : Prop where
  parts : front ++ needle ++ back = text
  starts : search.before = false → front = []
  ends : search.after = false → back = []

/-- The operator finds a text if there is a place for it. -/
theorem finds_iff_places {search : TextSearch} {needle text : List Char} :
    search.Finds needle text ↔ ∃ front back, search.Places front needle back text := by
  constructor
  · intro h
    cases search with
    | contains =>
        obtain ⟨front, back, hparts⟩ := h
        exact ⟨front, back, hparts, by simp [before], by simp [after]⟩
    | startsWith =>
        obtain ⟨back, hparts⟩ := h
        exact ⟨[], back, hparts, fun _ => rfl, by simp [after]⟩
    | endsWith =>
        obtain ⟨front, hparts⟩ := h
        exact ⟨front, [], by simpa using hparts, by simp [before], fun _ => rfl⟩
  · rintro ⟨front, back, rfl, hfront, hback⟩
    cases search with
    | contains => exact ⟨front, back, rfl⟩
    | startsWith =>
        rw [hfront rfl]
        exact ⟨back, rfl⟩
    | endsWith =>
        rw [hback rfl, List.append_nil]
        exact ⟨front, rfl⟩

/-! ### Lowered texts -/

/-- At a place where a text is lowered as it is alone, it is found in lower case too. -/
theorem Places.finds_lowered {search : TextSearch} {front needle back text : List Char}
    (h : search.Places front needle back text) (halone : LoweredAlone front needle back) :
    search.Finds (lowerAfter [] needle) (lowerAfter [] text) := by
  refine finds_iff_places.mpr ⟨lowerPart [] front (needle ++ back),
    lowerAfter (needle.reverse ++ front.reverse) back, ?_, ?_, ?_⟩
  · rw [← h.parts, Text.lowerAfter_around, Text.loweredAlone_iff.mp halone]
  · intro hbefore
    rw [h.starts hbefore]
    rfl
  · intro hafter
    rw [h.ends hafter]
    rfl

/-- At the start or the end of a text, what is found in lower case is lowered there as it is
alone. -/
theorem Places.loweredAlone {search : TextSearch} (hside : search ≠ .contains)
    {front needle back text : List Char} (h : search.Places front needle back text)
    (hfinds : search.Finds (lowerAfter [] needle) (lowerAfter [] text)) :
    LoweredAlone front needle back := by
  have hlength : (lowerAfter [] needle).length = (lowerPart front.reverse needle back).length := by
    rw [← Text.lowerPart_nil]
    exact Text.length_lowerPart _ _ _ _ _
  rw [Text.loweredAlone_iff]
  rw [← h.parts, Text.lowerAfter_around] at hfinds
  cases search with
  | contains => exact absurd rfl hside
  | startsWith =>
      obtain ⟨rest, hrest⟩ := hfinds
      obtain rfl := h.starts rfl
      rw [lowerPart, List.nil_append] at hrest
      exact (List.append_inj hrest hlength).1.symm
  | endsWith =>
      obtain ⟨rest, hrest⟩ := hfinds
      obtain rfl := h.ends rfl
      rw [lowerAfter, List.append_nil] at hrest
      exact (List.append_inj' hrest hlength).2.symm

/-! ### Predicates -/

/-- On a column of texts the operator is compiled to the pattern of its text. -/
theorem predicate?_filter {schema : Schema} {name : String} {table : Table}
    (hknown : schema.table? name = some table) {key : String} {column : Column}
    (hcolumn : table.column? key = some column) (htext : column.type = .text)
    (search : TextSearch) (needle : String) (mode : Option MatchMode) (qualifier : String)
    (joined : JoinedTables) (n : Nat) :
    (schema.predicate? name qualifier (some (search.filter key needle mode)) joined n).1 =
      some (.like (.col qualifier column.name) (Like.pattern search.before search.after needle)
        (mode = some .insensitive)) := by
  simp only [Schema.predicate?, hknown, filter]
  rw [Filter.predicate?_entry, hcolumn]
  simp only [Operand.columnPredicate?, htext]
  cases search <;> rfl

theorem like_truth {db : Database} {bindings : Bindings} {target : Expr} {value : Value}
    (h : target.eval db bindings = .ok value) (pattern : String) (insensitive : Bool) :
    (Expr.like target pattern insensitive).truth db bindings =
      .ok (value.isLike pattern insensitive) := by
  rw [Expr.truth, Expr.eval, h]
  exact congrArg Except.ok (truth_truthValue _)

/-- With regard to case the predicate looks for the text as it is. -/
theorem isLike_exactly (search : TextSearch) (needle text : String) :
    (Value.text text).isLike (Like.pattern search.before search.after needle) false =
      some (Like.placed search.before search.after needle.toList text.toList) :=
  congrArg some (Like.isMatch_pattern text needle search.before search.after)

/-- With no regard to case it looks for the lowered text in the lowered text of the column. -/
theorem isLike_insensitive (search : TextSearch) (needle text : String) :
    (Value.text text).isLike (Like.pattern search.before search.after needle) true =
      some (Like.placed search.before search.after (lowercase needle).toList
        (lowercase text).toList) := by
  simp only [Value.isLike, if_true, Text.lowercase_pattern, Like.isMatch_pattern]

end TextSearch

section Searches

variable {schema : Schema} {name : String} {table : Table} {key : String} {column : Column}

/-- **Texts are looked for literally.**  On a column of texts each operator has a predicate.  With
regard to case it is true of a text exactly if that text has the needle as a part, at its start or
at its end, whatever signs of patterns the two hold, and it is false of every other text. -/
theorem search_is_literal (hknown : schema.table? name = some table)
    (hcolumn : table.column? key = some column) (htext : column.type = .text)
    (search : TextSearch) (needle : String) {mode : Option MatchMode}
    (hmode : mode ≠ some .insensitive) (qualifier : String) (joined : JoinedTables) (n : Nat) :
    ∃ condition,
      (schema.predicate? name qualifier (some (search.filter key needle mode)) joined n).1 =
        some condition ∧
      ∀ db bindings text, bindings.value ⟨qualifier, column.name⟩ = .ok (.text text) →
        (condition.truth db bindings = .ok (some true) ↔
          search.Finds needle.toList text.toList) ∧
        (condition.truth db bindings = .ok (some false) ↔
          ¬ search.Finds needle.toList text.toList) := by
  have hcompiled := search.predicate?_filter hknown hcolumn htext needle mode qualifier joined n
  rw [decide_eq_false hmode] at hcompiled
  refine ⟨_, hcompiled, fun db bindings text hvalue => ?_⟩
  have heval : (Expr.col qualifier column.name).eval db bindings = .ok (.text text) := by
    rw [Expr.col, Expr.eval, hvalue]
  rw [TextSearch.like_truth heval, search.isLike_exactly, ← search.placed_iff]
  cases Like.placed search.before search.after needle.toList text.toList <;> simp

/-- **Disregarding case only widens a search, but for capital sigmas.**  With no regard to case the
predicate is true of a text exactly if the operator finds the lowered needle in the lowered text.
Let the predicate be true with regard to case.  If the needle has no capital sigma, it is true with no
regard to case too; in general it is, if at some place of the needle in the text each capital sigma
of the needle ends a word of the text exactly if it ends one of the needle alone.  At the start or
the end of the text it is true only then. -/
theorem insensitive_search_widens (hknown : schema.table? name = some table)
    (hcolumn : table.column? key = some column) (htext : column.type = .text)
    (search : TextSearch) (needle : String) {mode : Option MatchMode}
    (hmode : mode ≠ some .insensitive) (qualifier : String) (joined : JoinedTables) (n : Nat) :
    ∃ exact insensitive,
      (schema.predicate? name qualifier (some (search.filter key needle mode)) joined n).1 =
        some exact ∧
      (schema.predicate? name qualifier (some (search.filter key needle (some .insensitive))) joined
        n).1 = some insensitive ∧
      ∀ db bindings text, bindings.value ⟨qualifier, column.name⟩ = .ok (.text text) →
        (insensitive.truth db bindings = .ok (some true) ↔
          search.Finds (lowercase needle).toList (lowercase text).toList) ∧
        (exact.truth db bindings = .ok (some true) →
          ('Σ' ∉ needle.toList → insensitive.truth db bindings = .ok (some true)) ∧
          ∀ front back, search.Places front needle.toList back text.toList →
            (LoweredAlone front needle.toList back →
              insensitive.truth db bindings = .ok (some true)) ∧
            (search ≠ .contains → insensitive.truth db bindings = .ok (some true) →
              LoweredAlone front needle.toList back)) := by
  have hexact := search.predicate?_filter hknown hcolumn htext needle mode qualifier joined n
  have hinsensitive :=
    search.predicate?_filter hknown hcolumn htext needle (some .insensitive) qualifier joined n
  rw [decide_eq_false hmode] at hexact
  rw [decide_eq_true rfl] at hinsensitive
  refine ⟨_, _, hexact, hinsensitive, fun db bindings text hvalue => ?_⟩
  have heval : (Expr.col qualifier column.name).eval db bindings = .ok (.text text) := by
    rw [Expr.col, Expr.eval, hvalue]
  rw [TextSearch.like_truth heval, TextSearch.like_truth heval, search.isLike_exactly,
    search.isLike_insensitive, Except.ok.injEq, Option.some.injEq, search.placed_iff,
    Except.ok.injEq, Option.some.injEq, search.placed_iff]
  rw [Text.toList_lowercase, Text.toList_lowercase]
  refine ⟨Iff.rfl, fun hfinds => ⟨fun hfree => ?_, fun front back hplace =>
    ⟨hplace.finds_lowered, fun hside => hplace.loweredAlone hside⟩⟩⟩
  obtain ⟨front, back, hplace⟩ := TextSearch.finds_iff_places.mp hfinds
  exact hplace.finds_lowered (Text.loweredAlone_of_not_mem hfree front back)

end Searches

/-- Words. -/
def wordTables : List TableDecl :=
  [{ name := "Word"
     columns := [{ name := "id", type := .integer, primary := true }, { name := "text" }] }]

/-- The text of a word is a column of texts. -/
theorem exists_word_column : ∃ table column,
    (Schema.ofDecls wordTables).table? "Word" = some table ∧ table.column? "text" = some column ∧
      column.type = .text ∧ column.name = "text" := by
  have hfacts : ((Schema.ofDecls wordTables).table? "Word").any (fun table =>
      (table.column? "text").any fun column => column.type == .text && column.name == "text") =
        true := by
    decide +kernel
  obtain ⟨table, htable, hcolumns⟩ := (Option.any_eq_true _ _).mp hfacts
  obtain ⟨column, hcolumn, hboth⟩ := (Option.any_eq_true _ _).mp hcolumns
  obtain ⟨htype, hname⟩ := Bool.and_eq_true_iff.mp hboth
  exact ⟨table, column, htable, hcolumn, beq_iff_eq.mp htype, beq_iff_eq.mp hname⟩

/-- A row of a word, known under the name of its table. -/
def wordBindings (text : String) : Bindings :=
  [("Word", some [("id", .integer 1), ("text", .text text)])]

/-- What starts with a number and a percent sign does so literally. -/
theorem search_is_literal_percent :
    (none : Option MatchMode) ≠ some .insensitive ∧
      ∃ table column, (Schema.ofDecls wordTables).table? "Word" = some table ∧
        table.column? "text" = some column ∧ column.type = .text ∧
        ∃ condition, ((Schema.ofDecls wordTables).predicate? "Word" "Word"
            (some (TextSearch.startsWith.filter "text" "50%" none)) [] 0).1 = some condition ∧
          condition.truth [] (wordBindings "50% off") = .ok (some true) ∧
          condition.truth [] (wordBindings "500") = .ok (some false) := by
  obtain ⟨table, column, htable, hcolumn, htext, hname⟩ := exists_word_column
  have hmode : (none : Option MatchMode) ≠ some .insensitive := by decide
  obtain ⟨condition, hcondition, htruth⟩ :=
    search_is_literal htable hcolumn htext .startsWith "50%" hmode "Word" [] 0
  rw [hname] at htruth
  refine ⟨hmode, table, column, htable, hcolumn, htext, condition, hcondition, ?_, ?_⟩
  · exact ((htruth [] (wordBindings "50% off") "50% off" rfl).1).mpr (by decide)
  · exact ((htruth [] (wordBindings "500") "500" rfl).2).mpr (by decide)

/-- A part of a word is found with no regard to case too, as its sigma ends neither the word nor the
part. -/
theorem insensitive_search_widens_cosmos :
    (none : Option MatchMode) ≠ some .insensitive ∧
      ∃ table column, (Schema.ofDecls wordTables).table? "Word" = some table ∧
        table.column? "text" = some column ∧ column.type = .text ∧
        ∃ exact insensitive,
          ((Schema.ofDecls wordTables).predicate? "Word" "Word"
            (some (TextSearch.contains.filter "text" "ΟΣΜ" none)) [] 0).1 = some exact ∧
          ((Schema.ofDecls wordTables).predicate? "Word" "Word"
            (some (TextSearch.contains.filter "text" "ΟΣΜ" (some .insensitive))) [] 0).1 =
              some insensitive ∧
          TextSearch.contains.Places ['Κ'] "ΟΣΜ".toList "ΟΣ".toList "ΚΟΣΜΟΣ".toList ∧
          LoweredAlone ['Κ'] "ΟΣΜ".toList "ΟΣ".toList ∧
          (exact.truth [] (wordBindings "ΚΟΣΜΟΣ") = .ok (some true) →
            insensitive.truth [] (wordBindings "ΚΟΣΜΟΣ") = .ok (some true)) := by
  obtain ⟨table, column, htable, hcolumn, htext, hname⟩ := exists_word_column
  have hmode : (none : Option MatchMode) ≠ some .insensitive := by decide
  have hplace : TextSearch.contains.Places ['Κ'] "ΟΣΜ".toList "ΟΣ".toList "ΚΟΣΜΟΣ".toList :=
    ⟨rfl, by decide, by decide⟩
  have halone : LoweredAlone ['Κ'] "ΟΣΜ".toList "ΟΣ".toList := by decide +kernel
  obtain ⟨exact, insensitive, hexact, hinsensitive, htruth⟩ :=
    insensitive_search_widens htable hcolumn htext .contains "ΟΣΜ" hmode "Word" [] 0
  rw [hname] at htruth
  obtain ⟨-, hwidens⟩ := htruth [] (wordBindings "ΚΟΣΜΟΣ") "ΚΟΣΜΟΣ" rfl
  exact ⟨hmode, table, column, htable, hcolumn, htext, exact, insensitive, hexact, hinsensitive,
    hplace, halone, fun htrue => ((hwidens htrue).2 _ _ hplace).1 halone⟩

/-- The start of a word is found with regard to case and lost with none, as its sigma ends the start
and not the word. -/
theorem word_start_lost :
    let engine : Engine := ⟨Schema.ofDecls wordTables, {}⟩
    let words : Database := [("Word", [[("id", .integer 1), ("text", .text "ΚΟΣΜΟΣ")]])]
    let found := fun mode => ((engine.findMany "Word"
      { filter := some (TextSearch.startsWith.filter "text" "ΚΟΣ" mode) }).hold
        Database.source words).result.toOption.map (List.map (·.scalar "id"))
    found none = some [.integer 1] ∧ found (some .insensitive) = some [] := by
  decide +kernel

end NestedQuery
