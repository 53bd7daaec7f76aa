import NestedQuery.Proofs.FilterMeaning

/-!
# Filters and their negations

A filter that is compiled to no predicate keeps every row, and so does its
negation, which is compiled to none either.  Of every other filter the negation
keeps no row that the filter keeps.  Whether a filter is compiled to a predicate
does not depend on rows, labels or what is joined around it: some part of it has
to constrain the rows.  An empty list of excluded values does not.
-/

namespace NestedQuery

/-! ### What constrains rows -/

/-- Some operator that compares in an order is there. -/
def Tests.hasOrdered (tests : Tests) : Bool :=
  tests.lt.isSome || tests.lte.isSome || tests.gt.isSome || tests.gte.isSome

/-- Some operator that looks for a text is there. -/
def Tests.hasTextual (tests : Tests) : Bool :=
  tests.contains.isSome || tests.startsWith.isSome || tests.endsWith.isSome

/-- Some operator constrains the values of a column: it applies to the type of the column, and is
not that a value is in no list at all. -/
def Tests.constrains (type : ColumnType) (tests : Tests) : Bool :=
  tests.isNull.isSome || tests.isNotNull.isSome || tests.equals.isSome ||
    (type.hasMembership && (tests.oneOf.isSome || tests.noneOf.any fun values => !values.isEmpty)) ||
    (type.hasRange && tests.hasOrdered) || (type = .text && tests.hasTextual)

/-- The condition constrains the values of a column, in its tests or in what must not hold. -/
def Condition.constrains (type : ColumnType) : Condition → Bool
  | .only tests => tests.constrains type
  | .butNot _ _ => true
  | .butNotWhen tests inner => tests.constrains type || inner.constrains type

/-- The operand constrains the values of a column. -/
def Operand.constrains (column : Column) : Operand → Bool
  | .literal _ => true
  | .condition operators => operators.constrains column.type
  | .related _ => false

mutual

/-- The filter constrains the rows of a table: an entry does, or a filter that must hold or must
not, or each of those of which one must hold. -/
def Filter.constrains (schema : Schema) : Filter → Table → JoinedTables → Bool
  | .node allOf anyOf noneOf entries, table, joined =>
    entriesConstrain schema entries table joined ||
      (filtersConstrain schema allOf table joined).any id ||
      (!anyOf.isEmpty && (filtersConstrain schema anyOf table joined).all id) ||
      (filtersConstrain schema noneOf table joined).any id

/-- Which of the filters constrain the rows of a table. -/
def filtersConstrain (schema : Schema) : List Filter → Table → JoinedTables → List Bool
  | [], _, _ => []
  | filter :: rest, table, joined =>
    filter.constrains schema table joined :: filtersConstrain schema rest table joined

/-- Some entry constrains the rows of a table. -/
def entriesConstrain (schema : Schema) : List (String × Operand) → Table → JoinedTables → Bool
  | [], _, _ => false
  | (key, operand) :: rest, table, joined =>
    (match table.column? key, table.relation? key with
      | some column, _ => operand.constrains column
      | none, some relation => relatedConstrains schema operand relation joined
      | none, none => false) || entriesConstrain schema rest table joined

/-- The entry on a relation constrains the rows: the filter on the joined rows does, or rows have
to exist. -/
def relatedConstrains (schema : Schema) : Operand → Relation → JoinedTables → Bool
  | .related inner, relation, joined =>
    match joined.lookup relation.name with
    | some under =>
      match schema.table? under.table with
      | some target => inner.constrains schema target under.nested
      | none => false
    | none => (schema.table? relation.target).isSome
  | _, _, _ => false

end

/-! ### What is compiled to a predicate -/

/-- A conjunction says something unless it has no parts. -/
theorem conjunction?_isSome (parts : List Expr) :
    (Expr.conjunction? parts).isSome = !parts.isEmpty := by
  cases parts <;> rfl

/-- Lists are empty together if each of them is. -/
theorem isEmpty_append {α : Type} (one other : List α) :
    (one ++ other).isEmpty = (one.isEmpty && other.isEmpty) := by
  cases one <;> rfl

/-- Whether there are tests of nulls or equality does not depend on the column. -/
theorem leading_isEmpty (tests : Tests) (target : Expr) : (tests.leading target).isEmpty =
    !(tests.isNull.isSome || tests.isNotNull.isSome || tests.equals.isSome) := by
  unfold Tests.leading
  cases tests.isNull <;> cases tests.isNotNull <;> cases tests.equals <;> rfl

/-- Of the other tests there are those that the type of the column has. -/
theorem trailing_isEmpty (tests : Tests) (type : ColumnType) (target : Expr) :
    (tests.trailing type target).isEmpty =
      !((type.hasMembership &&
          (tests.oneOf.isSome || tests.noneOf.any fun values => !values.isEmpty)) ||
        (type.hasRange && tests.hasOrdered) || (type = .text && tests.hasTextual)) := by
  have hone : (membership type target tests.oneOf false).isEmpty =
      !(type.hasMembership && tests.oneOf.isSome) := by
    rcases tests.oneOf with _ | _ | ⟨value, values⟩ <;> cases htype : type.hasMembership <;>
      simp [membership, htype]
  have hnone : (membership type target tests.noneOf true).isEmpty =
      !(type.hasMembership && tests.noneOf.any fun values => !values.isEmpty) := by
    rcases tests.noneOf with _ | _ | ⟨value, values⟩ <;> cases htype : type.hasMembership <;>
      simp [membership, htype]
  have hrange : ∀ op constant, (range type target op constant).isEmpty =
      !(type.hasRange && constant.isSome) := by
    intro op constant
    cases constant <;> cases htype : type.hasRange <;> simp [range, htype]
  have htext : ∀ insensitive before after needle,
      (textMatch type target insensitive before after needle).isEmpty =
        !(decide (type = .text) && needle.isSome) := by
    intro insensitive before after needle
    cases needle <;> by_cases htype : type = .text <;> simp [textMatch, htype]
  simp only [Tests.trailing, isEmpty_append, hone, hnone, hrange, htext, Tests.hasOrdered,
    Tests.hasTextual, Bool.and_or_distrib_left, Bool.not_or]
  ac_rfl

/-- A condition is compiled to a predicate exactly if it constrains its column. -/
theorem Condition.predicate?_isSome (type : ColumnType) (target : Expr) (condition : Condition) :
    (condition.predicate? type target).isSome = condition.constrains type := by
  have hparts : ∀ tests : Tests,
      (!((tests.leading target).isEmpty && (tests.trailing type target).isEmpty)) =
        tests.constrains type := by
    intro tests
    rw [leading_isEmpty, trailing_isEmpty, Bool.not_and, Bool.not_not, Bool.not_not,
      Tests.constrains]
    simp only [Bool.or_assoc]
  induction condition with
  | only tests =>
      rw [Condition.predicate?, conjunction?_isSome, isEmpty_append, hparts]
      rfl
  | butNot tests value =>
      rw [Condition.predicate?, conjunction?_isSome, isEmpty_append]
      simp [Condition.constrains]
  | butNotWhen tests inner ih =>
      rw [Condition.predicate?, conjunction?_isSome, isEmpty_append, isEmpty_append,
        Condition.constrains, ← hparts, ← ih]
      cases inner.predicate? type target <;> simp

/-- An operand is compiled to a predicate on a column exactly if it constrains the column. -/
theorem Operand.columnPredicate?_isSome (column : Column) (qualifier : String) (operand : Operand) :
    (operand.columnPredicate? column qualifier).isSome = operand.constrains column := by
  cases operand with
  | literal value => rfl
  | condition operators => exact Condition.predicate?_isSome _ _ operators
  | related filter => rfl

/-- The parts of a filter are compiled to a predicate exactly if one of them is. -/
theorem node_isSome (parts : List Expr) (every any excluded : List (Option Expr)) :
    (Expr.conjunction? (parts ++ (Expr.conjunction? (every.filterMap id)).toList ++
      someBranch any ++ (excluded.filterMap id).map Expr.not)).isSome =
        (!parts.isEmpty || every.any Option.isSome || (!any.isEmpty && any.all Option.isSome) ||
          excluded.any Option.isSome) := by
  have hsome : ∀ conditions : List (Option Expr),
      (conditions.filterMap id).isEmpty = !conditions.any Option.isSome := by
    intro conditions
    induction conditions with
    | nil => rfl
    | cons condition rest ih =>
        cases condition with
        | none => rw [List.filterMap_cons_none rfl, ih, List.any_cons]; rfl
        | some part => rfl
  have hevery : (Expr.conjunction? (every.filterMap id)).toList.isEmpty =
      !every.any Option.isSome := by
    rw [← hsome]
    cases every.filterMap id <;> rfl
  have hany : (someBranch any).isEmpty = !(!any.isEmpty && any.all Option.isSome) := by
    unfold someBranch
    split
    · next hall =>
        rw [hall, Bool.and_true, Bool.not_not]
        cases any with
        | nil => rfl
        | cons condition rest =>
            obtain ⟨first, rfl⟩ :=
              Option.isSome_iff_exists.mp (List.all_eq_true.mp hall _ List.mem_cons_self)
            rfl
    · next hall => simp [Bool.eq_false_iff.mpr hall]
  rw [conjunction?_isSome, isEmpty_append, isEmpty_append, isEmpty_append, hevery, hany,
    List.isEmpty_map, hsome]
  simp only [Bool.not_and, Bool.not_or, Bool.not_not]

mutual

/-- A filter is compiled to a predicate exactly if it constrains the rows.  Labels and their numbers
run through the compilation, but whether there is a predicate never depends on them. -/
theorem Filter.predicate?_isSome (schema : Schema) : ∀ (filter : Filter) (table : Table)
    (qualifier : String) (joined : JoinedTables) (n : Nat),
    (filter.predicate? schema table qualifier joined n).1.isSome =
      filter.constrains schema table joined
  | .node allOf anyOf noneOf entries, table, qualifier, joined, n => by
      have hany : ∀ conditions : List (Option Expr),
          conditions.any Option.isSome = (conditions.map Option.isSome).any id := by
        intro conditions
        rw [List.any_map]
        rfl
      have hall : ∀ conditions : List (Option Expr),
          conditions.all Option.isSome = (conditions.map Option.isSome).all id := by
        intro conditions
        rw [List.all_map]
        rfl
      have hempty : ∀ n, (filterPredicates schema anyOf table qualifier joined n).1.isEmpty =
          anyOf.isEmpty := by
        intro n
        cases anyOf <;> rw [filterPredicates] <;> rfl
      rw [Filter.predicate?, Filter.constrains, node_isSome, hempty, hany, hall, hany,
        entryPredicates_isSome schema entries, filterPredicates_isSome schema allOf,
        filterPredicates_isSome schema anyOf, filterPredicates_isSome schema noneOf]

/-- So it is of several filters, one by one. -/
theorem filterPredicates_isSome (schema : Schema) : ∀ (filters : List Filter) (table : Table)
    (qualifier : String) (joined : JoinedTables) (n : Nat),
    (filterPredicates schema filters table qualifier joined n).1.map Option.isSome =
      filtersConstrain schema filters table joined
  | [], table, qualifier, joined, n => by rw [filterPredicates, filtersConstrain, List.map_nil]
  | filter :: rest, table, qualifier, joined, n => by
      rw [filterPredicates, filtersConstrain, List.map_cons,
        Filter.predicate?_isSome schema filter, filterPredicates_isSome schema rest]

/-- The entries of a filter leave a predicate exactly if one of them constrains the rows. -/
theorem entryPredicates_isSome (schema : Schema) : ∀ (entries : List (String × Operand))
    (table : Table) (qualifier : String) (joined : JoinedTables) (n : Nat),
    (!(entryPredicates schema entries table qualifier joined n).1.isEmpty) =
      entriesConstrain schema entries table joined
  | [], table, qualifier, joined, n => by rw [entryPredicates, entriesConstrain]; rfl
  | (key, operand) :: rest, table, qualifier, joined, n => by
      have htoList : ∀ condition : Option Expr, condition.toList.isEmpty = !condition.isSome := by
        intro condition
        cases condition <;> rfl
      rw [entryPredicates, entriesConstrain]
      cases table.column? key with
      | some column =>
          rw [isEmpty_append, Bool.not_and, htoList, Bool.not_not,
            Operand.columnPredicate?_isSome, entryPredicates_isSome schema rest]
      | none =>
          cases table.relation? key with
          | some relation =>
              rw [isEmpty_append, Bool.not_and, htoList, Bool.not_not,
                relationPredicate?_isSome schema operand, entryPredicates_isSome schema rest]
          | none => exact entryPredicates_isSome schema rest table qualifier joined n

/-- The condition of a relation is compiled to a predicate exactly if it constrains the rows. -/
theorem relationPredicate?_isSome (schema : Schema) : ∀ (operand : Operand) (relation : Relation)
    (qualifier : String) (joined : JoinedTables) (n : Nat),
    (relationPredicate? schema operand relation qualifier joined n).1.isSome =
      relatedConstrains schema operand relation joined
  | .related inner, relation, qualifier, joined, n => by
      rw [relationPredicate?, relatedConstrains]
      cases joined.lookup relation.name with
      | some under =>
          dsimp only
          cases schema.table? under.table with
          | some target => exact Filter.predicate?_isSome schema inner target _ _ n
          | none => rfl
      | none =>
          dsimp only
          cases schema.table? relation.target <;> rfl
  | .literal _, _, _, _, _ => by
      rw [relationPredicate?, relatedConstrains] <;> simp
  | .condition _, _, _, _, _ => by
      rw [relationPredicate?, relatedConstrains] <;> simp

end

/-! ### Filters on columns -/

/-- Some operator is there. -/
def Tests.hasSome (tests : Tests) : Bool :=
  tests.isNull.isSome || tests.isNotNull.isSome || tests.equals.isSome || tests.oneOf.isSome ||
    tests.noneOf.isSome || tests.hasOrdered || tests.hasTextual

/-- The operators that are there apply to columns of the type. -/
def Tests.apply (type : ColumnType) (tests : Tests) : Bool :=
  (!(tests.oneOf.isSome || tests.noneOf.isSome) || type.hasMembership) &&
    (!tests.hasOrdered || type.hasRange) && (!tests.hasTextual || type = .text)

/-- The condition has operators that apply to columns of the type, and only such. -/
def Condition.applies (type : ColumnType) : Condition → Bool
  | .only tests => tests.hasSome && tests.apply type
  | .butNot tests _ => tests.apply type
  | .butNotWhen tests inner => tests.apply type && inner.applies type

/-- No list of excluded values is empty. -/
def Condition.excludesSome : Condition → Bool
  | .only tests | .butNot tests _ => tests.noneOf != some []
  | .butNotWhen tests inner => tests.noneOf != some [] && inner.excludesSome

/-- The operand is a value, or a condition that applies to the column and excludes some value where
it excludes a list. -/
def Operand.suits (column : Column) : Operand → Bool
  | .literal _ => true
  | .condition operators => operators.applies column.type && operators.excludesSome
  | .related _ => false

mutual

/-- The filter is not empty, its entries are on columns of the table and suit them, and so are the
filters in its lists. -/
def Filter.suits (table : Table) : Filter → Bool
  | .node allOf anyOf noneOf entries =>
    !(allOf.isEmpty && anyOf.isEmpty && noneOf.isEmpty && entries.isEmpty) &&
      (filtersSuit table allOf && filtersSuit table anyOf && filtersSuit table noneOf) &&
      entries.all fun entry => (table.column? entry.1).any entry.2.suits

/-- All of the filters are so. -/
def filtersSuit (table : Table) : List Filter → Bool
  | [] => true
  | filter :: rest => filter.suits table && filtersSuit table rest

end

/-- A condition that applies to the type and leaves out some values constrains the column. -/
theorem Condition.constrains_of_applies {type : ColumnType} {condition : Condition}
    (happlies : condition.applies type = true) (hsome : condition.excludesSome = true) :
    condition.constrains type = true := by
  induction condition with
  | only tests =>
      have hexcludes : tests.noneOf.isSome = true →
          (tests.noneOf.any fun values => !values.isEmpty) = true := by
        rw [Condition.excludesSome, bne_iff_ne] at hsome
        cases hnone : tests.noneOf with
        | none => exact fun h => h
        | some values =>
            intro _
            cases values with
            | nil => exact absurd hnone hsome
            | cons value values => rfl
      rw [Condition.applies, Tests.hasSome, Tests.apply] at happlies
      rw [Condition.constrains, Tests.constrains]
      grind
  | butNot tests value => rfl
  | butNotWhen tests inner ih =>
      rw [Condition.applies, Bool.and_eq_true] at happlies
      rw [Condition.excludesSome, Bool.and_eq_true] at hsome
      rw [Condition.constrains, ih happlies.2 hsome.2, Bool.or_true]

/-- So does an operand that suits the column. -/
theorem Operand.constrains_of_suits {column : Column} {operand : Operand}
    (h : operand.suits column = true) : operand.constrains column = true := by
  cases operand with
  | literal value => rfl
  | condition operators =>
      rw [Operand.suits, Bool.and_eq_true] at h
      exact Condition.constrains_of_applies h.1 h.2
  | related filter => cases h

/-- The first of several entries that suit columns constrains the rows. -/
theorem entriesConstrain_of_suit {schema : Schema} {table : Table} {joined : JoinedTables}
    {entries : List (String × Operand)} (hsome : entries ≠ [])
    (h : (entries.all fun entry => (table.column? entry.1).any entry.2.suits) = true) :
    entriesConstrain schema entries table joined = true := by
  cases entries with
  | nil => exact absurd rfl hsome
  | cons entry rest =>
      rw [List.all_cons, Bool.and_eq_true] at h
      rw [entriesConstrain]
      cases hcolumn : table.column? entry.1 with
      | none =>
          rw [hcolumn] at h
          cases h.1
      | some column =>
          rw [hcolumn] at h
          exact Bool.or_eq_true_iff.mpr (.inl (Operand.constrains_of_suits h.1))

mutual

/-- A filter that suits a table constrains its rows. -/
theorem Filter.constrains_of_suits (schema : Schema) (table : Table) (joined : JoinedTables) :
    ∀ filter : Filter, filter.suits table = true → filter.constrains schema table joined = true
  | .node allOf anyOf noneOf entries, h => by
      rw [Filter.suits, Bool.and_eq_true, Bool.and_eq_true, Bool.and_eq_true, Bool.and_eq_true] at h
      obtain ⟨⟨hsome, ⟨hallOf, hanyOf⟩, hnoneOf⟩, hentries⟩ := h
      have hany : ∀ filters : List Filter, filters ≠ [] →
          (filtersConstrain schema filters table joined).all id = true →
            (filtersConstrain schema filters table joined).any id = true := by
        intro filters hfilters hall
        cases filters with
        | nil => exact absurd rfl hfilters
        | cons filter rest =>
            rw [filtersConstrain, List.all_cons, Bool.and_eq_true] at hall
            rw [filtersConstrain, List.any_cons, hall.1, Bool.true_or]
      have hall := filtersConstrain_of_suit schema table joined allOf hallOf
      have hbranches := filtersConstrain_of_suit schema table joined anyOf hanyOf
      have hnone := filtersConstrain_of_suit schema table joined noneOf hnoneOf
      rw [Filter.constrains]
      by_cases hnoEntries : entries = []
      · by_cases hnoAll : allOf = []
        · by_cases hnoAny : anyOf = []
          · have hexcluded : noneOf ≠ [] := by
              rintro rfl
              rw [hnoEntries, hnoAll, hnoAny] at hsome
              cases hsome
            rw [hany noneOf hexcluded hnone, Bool.or_true]
          · have hnotEmpty : anyOf.isEmpty = false := List.isEmpty_eq_false_iff.mpr hnoAny
            rw [hbranches, hnotEmpty, Bool.not_false, Bool.and_true, Bool.or_true, Bool.true_or]
        · rw [hany allOf hnoAll hall, Bool.or_true, Bool.true_or, Bool.true_or]
      · rw [entriesConstrain_of_suit hnoEntries hentries, Bool.true_or, Bool.true_or,
          Bool.true_or]

/-- Filters that suit a table all constrain its rows. -/
theorem filtersConstrain_of_suit (schema : Schema) (table : Table) (joined : JoinedTables) :
    ∀ filters : List Filter, filtersSuit table filters = true →
      (filtersConstrain schema filters table joined).all id = true
  | [], _ => by rw [filtersConstrain]; rfl
  | filter :: rest, h => by
      rw [filtersSuit, Bool.and_eq_true] at h
      rw [filtersConstrain, List.all_cons, filtersConstrain_of_suit schema table joined rest h.2,
        Bool.and_true]
      exact Filter.constrains_of_suits schema table joined filter h.1

end

/-! ### Negation -/

/-- The filter that holds where the other does not. -/
def Filter.negated (filter : Filter) : Filter :=
  .node [] [] [filter] []

/-- The negation of a filter is compiled to the negation of its predicate, if it has one. -/
theorem Filter.predicate?_negated (schema : Schema) (filter : Filter) (table : Table)
    (qualifier : String) (joined : JoinedTables) (n : Nat) :
    (filter.negated.predicate? schema table qualifier joined n).1 =
      (filter.predicate? schema table qualifier joined n).1.map .not := by
  rw [Filter.negated, Filter.predicate?]
  simp only [entryPredicates, filterPredicates]
  cases (filter.predicate? schema table qualifier joined n).1 <;> rfl

/-- A predicate and its negation are not both true. -/
theorem truth_not_apart {db : Database} {condition : Expr} {bindings : Bindings}
    (h : condition.truth db bindings = .ok (some true)) :
    condition.not.truth db bindings ≠ .ok (some true) := by
  rw [Expr.truth] at h ⊢
  rw [Expr.eval]
  cases hvalue : condition.eval db bindings with
  | error error => simp [hvalue, bind, Except.bind] at h
  | ok value =>
      have htruth : value.truth = some true := by
        simpa [hvalue, bind, Except.bind, pure, Except.pure] using h
      simp [bind, Except.bind, pure, Except.pure, htruth, truth_truthValue]

/-- A filter and its negation both keep a row exactly if nothing in the filter constrains the
rows. -/
theorem keptBy_and_negated_iff {schema : Schema} {db : Database} {table : Table}
    {qualifier : String} {joined : JoinedTables} {n : Nat} {filter : Filter} {bindings : Bindings} :
    KeptBy db (filter.predicate? schema table qualifier joined n).1 bindings ∧
        KeptBy db (filter.negated.predicate? schema table qualifier joined n).1 bindings ↔
      filter.constrains schema table joined = false := by
  rw [← Filter.predicate?_isSome schema filter table qualifier joined n, Filter.predicate?_negated]
  cases hpredicate : (filter.predicate? schema table qualifier joined n).1 with
  | none => simp [KeptBy]
  | some condition =>
      simp only [Option.isSome_some, Bool.true_eq_false, iff_false]
      rintro ⟨hholds, hfails⟩
      exact truth_not_apart (hholds condition rfl) (hfails condition.not rfl)

/-- **Filters and their negations.**  Whatever is joined, a filter and its negation both keep a row
exactly if nothing in the filter constrains the rows, and then they keep every row.  So they never
both keep one of a filter that is built from values and conditions on columns of the table, each
with operators that apply to its column, and from lists of such filters, none of it empty, in
particular no list of excluded values. -/
theorem kept_with_negation_iff (schema : Schema) (db : Database) (table : Table)
    (qualifier : String) (joined : JoinedTables) (n : Nat) (filter : Filter) :
    let kept := fun (filter : Filter) (bindings : Bindings) =>
      KeptBy db (filter.predicate? schema table qualifier joined n).1 bindings
    (∀ bindings, kept filter bindings ∧ kept filter.negated bindings ↔
      filter.constrains schema table joined = false) ∧
    (filter.suits table = true →
      ∀ bindings, ¬ (kept filter bindings ∧ kept filter.negated bindings)) := by
  intro kept
  refine ⟨fun bindings => keptBy_and_negated_iff, fun hsuits bindings hboth => ?_⟩
  have hconstrains := Filter.constrains_of_suits schema table joined filter hsuits
  rw [keptBy_and_negated_iff.mp hboth] at hconstrains
  cases hconstrains

/-- The filter on names that are in no list, the list being given. -/
def excludingNames (names : List Value) : Filter :=
  .node [] [] [] [("name", .condition (.only { noneOf := some names }))]

/-- A list with a name in it excludes no author together with its negation. -/
theorem kept_with_negation_iff_authors :
    ∃ table, (Schema.ofDecls blogTables).table? "Author" = some table ∧
      (excludingNames [.text "Bob"]).suits table = true ∧ ∀ bindings,
        ¬ (KeptBy blogRows ((excludingNames [.text "Bob"]).predicate?
              (Schema.ofDecls blogTables) table "Author" [] 0).1 bindings ∧
          KeptBy blogRows ((excludingNames [.text "Bob"]).negated.predicate?
              (Schema.ofDecls blogTables) table "Author" [] 0).1 bindings) := by
  obtain ⟨table, htable, -⟩ := exists_blog_author
  have hsuits : ((Schema.ofDecls blogTables).table? "Author").all
      (excludingNames [.text "Bob"]).suits = true := by
    decide +kernel
  rw [htable] at hsuits
  exact ⟨table, htable, hsuits, (kept_with_negation_iff (Schema.ofDecls blogTables) blogRows table
    "Author" [] 0 (excludingNames [.text "Bob"])).2 hsuits⟩

/-- Not to be in the empty list is an operator that applies to names, but like its negation it is
compiled to no predicate, so both keep every author. -/
theorem empty_exclusion_kept_with_negation :
    ∃ table column, (Schema.ofDecls blogTables).table? "Author" = some table ∧
      table.column? "name" = some column ∧
      Condition.applies column.type (.only { noneOf := some [] }) = true ∧
      ∀ row ∈ blogRows.rows "Author",
        KeptBy blogRows ((excludingNames []).predicate?
            (Schema.ofDecls blogTables) table "Author" [] 0).1 [("Author", some row)] ∧
          KeptBy blogRows ((excludingNames []).negated.predicate?
            (Schema.ofDecls blogTables) table "Author" [] 0).1 [("Author", some row)] := by
  obtain ⟨table, htable, -⟩ := exists_blog_author
  have hcolumn : ((Schema.ofDecls blogTables).table? "Author").all (fun table =>
      (table.column? "name").any fun column =>
        Condition.applies column.type (.only { noneOf := some [] })) = true := by
    decide +kernel
  have hnothing : ((Schema.ofDecls blogTables).table? "Author").all (fun table =>
      !(excludingNames []).constrains (Schema.ofDecls blogTables) table []) = true := by
    decide +kernel
  rw [htable] at hcolumn hnothing
  obtain ⟨column, hname, happlies⟩ := (Option.any_eq_true _ _).mp hcolumn
  exact ⟨table, column, htable, hname, happlies, fun row _ =>
    keptBy_and_negated_iff.mpr ((Bool.not_eq_true' _).mp hnothing)⟩

end NestedQuery
