import NestedQuery.Plan.Layout
import NestedQuery.Proofs.Scope

/-!
# Compiled clauses are in scope

Filters, orderings and shapes are compiled apart from each other, each with a
qualifier that was chosen elsewhere.  Whatever they are, their clauses only
mention that qualifier, labels of joined tables, and labels that they introduce
themselves around what uses them.  The labels of joined tables are those of the
plan: a plan joins each table under a condition on its own label and on a label
that is already there.
-/

namespace NestedQuery

/-! ### Connected conditions -/

/-- A property of expressions that passes to negations and connections. -/
structure Expr.Inherited (holds : Expr → Prop) : Prop where
  not : ∀ {inner : Expr}, holds inner → holds inner.not
  connect : ∀ {left right : Expr} {op : Connective}, holds left → holds right →
    holds (.connect left op right)

/-- Connected by either connective, expressions keep a property that is inherited. -/
theorem Expr.Inherited.joinAll? {holds : Expr → Prop} (h : Expr.Inherited holds) {op : Connective}
    {parts : List Expr} (hparts : ∀ part ∈ parts, holds part) :
    ∀ whole ∈ (Expr.joinAll? (fun left right => .connect left op right) parts).toList,
      holds whole := by
  cases parts with
  | nil => simp [Expr.joinAll?]
  | cons first rest =>
      obtain ⟨hfirst, hrest⟩ := List.forall_mem_cons.mp hparts
      have hfold : holds (rest.foldl (fun left right => .connect left op right) first) := by
        clear hparts
        induction rest generalizing first with
        | nil => exact hfirst
        | cons next others ih =>
            obtain ⟨hnext, hothers⟩ := List.forall_mem_cons.mp hrest
            exact ih _ (h.connect hfirst hnext) hothers
      simpa [Expr.joinAll?] using hfold

/-- What passes to connections passes to a conjunction of parts. -/
theorem Expr.Inherited.conjunction? {holds : Expr → Prop} (h : Expr.Inherited holds)
    {parts : List Expr} (hparts : ∀ part ∈ parts, holds part) :
    ∀ whole ∈ (Expr.conjunction? parts).toList, holds whole :=
  h.joinAll? hparts

/-- The predicate of a filter keeps a property that the predicates of its parts have. -/
theorem Expr.Inherited.node {holds : Expr → Prop} (h : Expr.Inherited holds) {parts : List Expr}
    {every branches excluded : List (Option Expr)} (hparts : ∀ part ∈ parts, holds part)
    (hevery : ∀ condition ∈ every, ∀ part ∈ condition.toList, holds part)
    (hbranches : ∀ condition ∈ branches, ∀ part ∈ condition.toList, holds part)
    (hexcluded : ∀ condition ∈ excluded, ∀ part ∈ condition.toList, holds part) :
    ∀ whole ∈ (Expr.conjunction? (parts ++ (Expr.conjunction? (every.filterMap id)).toList ++
      someBranch branches ++ (excluded.filterMap id).map Expr.not)).toList, holds whole := by
  have hsome : ∀ {conditions : List (Option Expr)},
      (∀ condition ∈ conditions, ∀ part ∈ condition.toList, holds part) →
        ∀ part ∈ conditions.filterMap id, holds part := by
    intro conditions hall part hpart
    obtain ⟨condition, hcondition, heq⟩ := List.mem_filterMap.mp hpart
    exact hall condition hcondition part (by simp [← heq])
  apply h.conjunction?
  intro part hpart
  simp only [List.mem_append] at hpart
  rcases hpart with ((hpart | hpart) | hpart) | hpart
  · exact hparts part hpart
  · exact h.conjunction? (hsome hevery) part hpart
  · unfold someBranch at hpart
    split at hpart
    · exact h.joinAll? (hsome hbranches) part hpart
    · cases hpart
  · obtain ⟨inner, hinner, rfl⟩ := List.mem_map.mp hpart
    exact h.not (hsome hexcluded inner hinner)

/-- Being in scope passes to negations and connections. -/
theorem scoped_inherited (scope : List String) : Expr.Inherited (·.Scoped scope) where
  not := by
    intro inner hinner
    rwa [Expr.Scoped]
  connect := by
    intro left right op hleft hright
    rw [Expr.Scoped]
    exact ⟨hleft, hright⟩

/-- An optional expression is in scope if it is so as a list. -/
theorem filterScoped_iff {condition : Option Expr} {scope : List String} :
    filterScoped condition scope ↔ ∀ part ∈ condition.toList, part.Scoped scope := by
  cases condition <;> simp [filterScoped]

/-- A conjunction of expressions in scope is in scope. -/
theorem conjunction?_scoped {parts : List Expr} {scope : List String}
    (h : ∀ part ∈ parts, part.Scoped scope) : filterScoped (Expr.conjunction? parts) scope :=
  filterScoped_iff.mpr ((scoped_inherited scope).conjunction? h)

/-! ### Statements clause by clause -/

/-- The clauses of a statement, but for its joins, are in scope. -/
structure SelectOf.ClausesWithin (statement : Select) (scope : List String) : Prop where
  filter : filterScoped statement.filter scope
  groupBy : ∀ columns, statement.groupBy = some columns →
    ∀ column ∈ columns, column.qualifier ∈ scope
  orderBy : ∀ keys, statement.orderBy = some keys →
    ∀ key ∈ keys, key.column.qualifier ∈ scope

/-- A statement is well scoped if its joins are and its other clauses see all tables. -/
theorem selectScoped_iff {statement : Select} {outer : List String} :
    selectScoped statement outer ↔
      joinsScoped statement.joins [statement.qualifier] outer ∧
        statement.ClausesWithin (statement.scope ++ outer) := by
  rw [selectScoped]
  constructor
  · rintro ⟨hjoins, hfilter, hgroup, horder⟩
    exact ⟨hjoins, hfilter, hgroup, horder⟩
  · rintro ⟨hjoins, hfilter, hgroup, horder⟩
    exact ⟨hjoins, hfilter, hgroup, horder⟩

/-- A condition changes nothing but the filter of a statement. -/
theorem andWhere?_frame (statement : Select) (condition : Option Expr) :
    statement.andWhere? condition =
      { statement with filter := (statement.andWhere? condition).filter } := by
  cases condition <;> rfl

@[simp]
theorem scope_andWhere (statement : Select) (condition : Expr) :
    (statement.andWhere condition).scope = statement.scope := rfl

/-- A condition that may be absent leaves the scope of a statement. -/
@[simp]
theorem scope_andWhere? (statement : Select) (condition : Option Expr) :
    (statement.andWhere? condition).scope = statement.scope := by
  cases condition <;> rfl

@[simp]
theorem scope_labelled (table label : String) :
    ({ table, label := some label } : Select).scope = [label] := rfl

/-- A condition within the scope leaves the clauses of a statement within it. -/
theorem SelectOf.ClausesWithin.andWhere {statement : Select} {condition : Expr}
    {scope : List String} (h : statement.ClausesWithin scope)
    (hcondition : condition.Scoped scope) : (statement.andWhere condition).ClausesWithin scope := by
  refine ⟨?_, h.groupBy, h.orderBy⟩
  change filterScoped (some _) scope
  rw [filterScoped]
  have hfilter := h.filter
  cases hknown : statement.filter with
  | none => exact hcondition
  | some known =>
      rw [hknown, filterScoped] at hfilter
      simp only [Expr.and, Expr.Scoped]
      exact ⟨hfilter, hcondition⟩

/-- One more condition in scope keeps the clauses in scope. -/
theorem SelectOf.ClausesWithin.andWhere? {statement : Select} {condition : Option Expr}
    {scope : List String} (h : statement.ClausesWithin scope)
    (hcondition : filterScoped condition scope) :
    (statement.andWhere? condition).ClausesWithin scope := by
  cases condition with
  | none => exact h
  | some condition =>
      rw [filterScoped] at hcondition
      exact h.andWhere hcondition

/-- A condition in scope leaves a statement in scope. -/
theorem selectScoped_andWhere {statement : Select} {condition : Expr} {outer : List String}
    (h : selectScoped statement outer)
    (hcondition : condition.Scoped (statement.scope ++ outer)) :
    selectScoped (statement.andWhere condition) outer := by
  obtain ⟨hjoins, hclauses⟩ := selectScoped_iff.mp h
  exact selectScoped_iff.mpr ⟨hjoins, hclauses.andWhere hcondition⟩

/-- So does one that may be absent. -/
theorem selectScoped_andWhere? {statement : Select} {condition : Option Expr}
    {outer : List String} (h : selectScoped statement outer)
    (hcondition : filterScoped condition (statement.scope ++ outer)) :
    selectScoped (statement.andWhere? condition) outer := by
  cases condition with
  | none => exact h
  | some condition =>
      rw [filterScoped] at hcondition
      exact selectScoped_andWhere h hcondition

/-- A statement over one table without clauses is well scoped. -/
theorem selectScoped_plain (outputs : List Output) (table : String) (label : Option String)
    (window : Option Window) (outer : List String) :
    selectScoped { outputs, table, label, window } outer := by
  simp [selectScoped, joinsScoped, filterScoped]

/-! ### Filters -/

/-- A property of the tests of a column that is inherited from them. -/
structure Expr.OfTests (target : Expr) (holds : Expr → Prop) : Prop extends
    Expr.Inherited holds where
  literal : ∀ value, holds (.literal value)
  compare : ∀ op value, holds (.compare target op (.literal value))
  like : ∀ pattern insensitive, holds (.like target pattern insensitive)
  oneOf : ∀ values negated, holds (.oneOf target values negated)
  isNull : ∀ negated, holds (.isNull target negated)

namespace Expr.OfTests

variable {target : Expr} {holds : Expr → Prop} (h : Expr.OfTests target holds)
include h

/-- An equality with a value is such a test, or a test for null. -/
theorem equality (value : Value) (negated : Bool) : holds (equality target value negated) := by
  unfold NestedQuery.equality
  split
  · exact h.isNull negated
  · exact h.compare _ value

/-- The tests of a condition have the property. -/
theorem tests (tests : Tests) (type : ColumnType) :
    (∀ part ∈ tests.leading target, holds part) ∧
      ∀ part ∈ tests.trailing type target, holds part := by
  have hmembership : ∀ values negated, ∀ part ∈ membership type target values negated,
      holds part := by
    intro values negated part hpart
    have honeOf := fun values => h.oneOf values negated
    have hfalse := h.literal (.boolean false)
    unfold membership at hpart
    grind
  have hrange : ∀ op value, ∀ part ∈ range type target op value, holds part := by
    intro op value part hpart
    have hcompare := h.compare op
    unfold range at hpart
    grind
  have htext : ∀ insensitive before after needle,
      ∀ part ∈ textMatch type target insensitive before after needle, holds part := by
    intro insensitive before after needle part hpart
    have hlike := fun pattern => h.like pattern insensitive
    unfold textMatch at hpart
    grind
  constructor
  · intro part hpart
    simp only [Tests.leading, List.mem_append, Option.mem_toList, Option.map_eq_some_iff] at hpart
    rcases hpart with (⟨asked, -, rfl⟩ | ⟨asked, -, rfl⟩) | ⟨value, -, rfl⟩
    · exact h.isNull _
    · exact h.isNull _
    · exact h.equality value false
  · intro part hpart
    simp only [Tests.trailing, List.mem_append] at hpart
    rcases hpart with ((((((((hpart | hpart) | hpart) | hpart) | hpart) | hpart) | hpart) |
      hpart) | hpart)
    · exact hmembership _ _ part hpart
    · exact hmembership _ _ part hpart
    · exact hrange _ _ part hpart
    · exact hrange _ _ part hpart
    · exact hrange _ _ part hpart
    · exact hrange _ _ part hpart
    · exact htext _ _ _ _ part hpart
    · exact htext _ _ _ _ part hpart
    · exact htext _ _ _ _ part hpart

/-- The predicate of a condition has the property. -/
theorem predicate? (type : ColumnType) (condition : Condition) :
    ∀ whole ∈ (condition.predicate? type target).toList, holds whole := by
  induction condition with
  | only tests =>
      obtain ⟨hleading, htrailing⟩ := h.tests tests type
      apply h.conjunction?
      intro part hpart
      exact (List.mem_append.mp hpart).elim (hleading part) (htrailing part)
  | butNot tests value =>
      obtain ⟨hleading, htrailing⟩ := h.tests tests type
      apply h.conjunction?
      intro part hpart
      rcases List.mem_append.mp hpart with hpart | hpart
      · exact hleading part hpart
      · rcases List.mem_cons.mp hpart with rfl | hpart
        · exact h.equality value true
        · exact htrailing part hpart
  | butNotWhen tests inner ih =>
      obtain ⟨hleading, htrailing⟩ := h.tests tests type
      apply h.conjunction?
      intro part hpart
      rcases List.mem_append.mp hpart with hpart | hpart
      · rcases List.mem_append.mp hpart with hpart | hpart
        · exact hleading part hpart
        · simp only [Option.mem_toList, Option.map_eq_some_iff] at hpart
          obtain ⟨negated, hnegated, rfl⟩ := hpart
          exact h.not (ih negated (by simp [hnegated]))
      · exact htrailing part hpart

end Expr.OfTests

/-- The predicate of an entry on a column has the properties that tests of the column have. -/
theorem Operand.columnPredicate?_ofTests {column : Column} {qualifier : String}
    {holds : Expr → Prop} (h : Expr.OfTests (.col qualifier column.name) holds)
    (operand : Operand) :
    ∀ whole ∈ (operand.columnPredicate? column qualifier).toList, holds whole := by
  cases operand with
  | literal value =>
      intro whole hwhole
      cases Option.mem_toList.mp hwhole
      exact h.equality value false
  | condition operators => exact h.predicate? column.type operators
  | related filter =>
      intro whole hwhole
      cases Option.mem_toList.mp hwhole

/-- The tests of a column are in scope if the column is. -/
theorem scoped_ofTests {target : Expr} {scope : List String} (h : target.Scoped scope) :
    Expr.OfTests target (·.Scoped scope) where
  toInherited := scoped_inherited scope
  literal := by simp [Expr.Scoped]
  compare := by simp [Expr.Scoped, h]
  like := by simp [Expr.Scoped, h]
  oneOf := by simp [Expr.Scoped, h]
  isNull := by simp [Expr.Scoped, h]

/-- The predicate of an entry on a column is in scope if the qualifier of its table is. -/
theorem Operand.columnPredicate?_scoped (operand : Operand) (column : Column)
    {qualifier : String} {scope : List String} (h : qualifier ∈ scope) :
    filterScoped (operand.columnPredicate? column qualifier) scope := by
  apply filterScoped_iff.mpr
  apply Operand.columnPredicate?_ofTests
  apply scoped_ofTests
  rwa [Expr.col, Expr.Scoped]

/-- The existence of a related row is in scope if its owner is and, wherever the label of the
related rows is in scope, their predicate is. -/
theorem existence_scoped {relation : Relation} {qualifier target label : String}
    {predicate : Option Expr} {n : Nat} {scope : List String} (howner : qualifier ∈ scope)
    (hpredicate : ∀ inner, label ∈ inner → filterScoped predicate inner) :
    (existence relation qualifier target label predicate n).1.Scoped scope := by
  have hrows : ∀ outer, selectScoped
      (({ table := target, label := some label } : Select).andWhere? predicate) outer :=
    fun outer => selectScoped_andWhere? (selectScoped_plain [] target (some label) none outer)
      (hpredicate _ (by simp))
  have hequal : ∀ (left right : ColumnRef) (inner : List String), left.qualifier ∈ inner →
      right.qualifier ∈ inner → (columnsEqual left right).Scoped inner := by
    intro left right inner hleft hright
    simp only [columnsEqual, Expr.Scoped]
    exact ⟨hleft, hright⟩
  unfold existence
  cases relation.junction with
  | none =>
      simp only [Expr.Scoped]
      refine selectScoped_andWhere (hrows scope) (hequal _ _ _ ?_ ?_)
      · simp
      · exact List.mem_append_right _ howner
  | some junction =>
      simp only [Expr.Scoped]
      refine selectScoped_andWhere (selectScoped_andWhere
        (selectScoped_plain [] junction.table (some (subLabel junction.table (n + 1))) none scope)
        (hequal _ _ _ ?_ ?_)) ?_
      · simp
      · exact List.mem_append_right _ howner
      · rw [Expr.Scoped]
        refine selectScoped_andWhere (hrows _) (hequal _ _ _ ?_ ?_)
        · simp
        · simp

mutual

/-- The labels of a joined table and of those beneath it are in scope. -/
def JoinedTable.Within : JoinedTable → List String → Prop
  | ⟨_, label, nested⟩, scope => label ∈ scope ∧ tablesWithin nested scope

/-- The labels of all joined tables are in scope. -/
def tablesWithin : List (String × JoinedTable) → List String → Prop
  | [], _ => True
  | (_, table) :: rest, scope => table.Within scope ∧ tablesWithin rest scope

end

/-- A joined table is within a scope if its label and the tables beneath it are. -/
theorem JoinedTable.within_iff {under : JoinedTable} {scope : List String} :
    under.Within scope ↔ under.label ∈ scope ∧ tablesWithin under.nested scope := by
  obtain ⟨table, label, nested⟩ := under
  rw [JoinedTable.Within]

/-- A joined table that is found by name is one of them. -/
theorem within_of_lookup {joined : JoinedTables} {scope : List String} {name : String}
    {under : JoinedTable} (h : tablesWithin joined scope) (hlookup : joined.lookup name = some under) :
    under.Within scope := by
  induction joined with
  | nil => cases hlookup
  | cons entry rest ih =>
      obtain ⟨known, table⟩ := entry
      rw [tablesWithin] at h
      rw [Dict.lookup_cons] at hlookup
      split at hlookup
      · cases hlookup
        exact h.1
      · exact ih h.2 hlookup

variable {schema : Schema}

mutual

/-- The predicate of a filter is in scope if the qualifier of its table and the labels of the joined
tables are.  The scope varies in the induction: inside an existence test the label of the related
rows joins it, and there the filter is compiled for that label. -/
theorem Filter.predicate?_scoped : ∀ (filter : Filter) (table : Table) (qualifier : String)
    (joined : JoinedTables) (n : Nat) {scope : List String}, qualifier ∈ scope →
      tablesWithin joined scope →
      filterScoped (filter.predicate? schema table qualifier joined n).1 scope
  | .node allOf anyOf noneOf entries, table, qualifier, joined, n, scope, hqualifier, hjoined => by
      have hentries := entryPredicates_scoped entries table qualifier joined n hqualifier hjoined
      have hall := fun n => filterPredicates_scoped allOf table qualifier joined n hqualifier hjoined
      have hany := fun n => filterPredicates_scoped anyOf table qualifier joined n hqualifier hjoined
      have hnone := fun n =>
        filterPredicates_scoped noneOf table qualifier joined n hqualifier hjoined
      rw [Filter.predicate?]
      exact filterScoped_iff.mpr ((scoped_inherited scope).node hentries
        (fun condition hcondition => filterScoped_iff.mp (hall _ condition hcondition))
        (fun condition hcondition => filterScoped_iff.mp (hany _ condition hcondition))
        fun condition hcondition => filterScoped_iff.mp (hnone _ condition hcondition))

/-- So is the predicate of each of several filters. -/
theorem filterPredicates_scoped : ∀ (filters : List Filter) (table : Table) (qualifier : String)
    (joined : JoinedTables) (n : Nat) {scope : List String}, qualifier ∈ scope →
      tablesWithin joined scope →
      ∀ condition ∈ (filterPredicates schema filters table qualifier joined n).1,
        filterScoped condition scope
  | [], _, _, _, _, _, _, _, condition, hcondition => by
      rw [filterPredicates] at hcondition
      cases hcondition
  | filter :: rest, table, qualifier, joined, n, scope, hqualifier, hjoined, condition, hcondition => by
      rw [filterPredicates] at hcondition
      rcases List.mem_cons.mp hcondition with rfl | hrest
      · exact Filter.predicate?_scoped filter table qualifier joined n hqualifier hjoined
      · exact filterPredicates_scoped rest table qualifier joined _ hqualifier hjoined condition hrest

/-- So is the predicate of each entry. -/
theorem entryPredicates_scoped : ∀ (entries : List (String × Operand)) (table : Table)
    (qualifier : String) (joined : JoinedTables) (n : Nat) {scope : List String},
      qualifier ∈ scope → tablesWithin joined scope →
      ∀ part ∈ (entryPredicates schema entries table qualifier joined n).1, part.Scoped scope
  | [], _, _, _, _, _, _, _, part, hpart => by
      rw [entryPredicates] at hpart
      cases hpart
  | (key, operand) :: rest, table, qualifier, joined, n, scope, hqualifier, hjoined, part, hpart => by
      have hrest := fun n =>
        entryPredicates_scoped rest table qualifier joined n hqualifier hjoined part
      rw [entryPredicates] at hpart
      rcases List.mem_append.mp hpart with hfirst | hmem
      · refine filterScoped_iff.mp ?_ part hfirst
        split
        · next column _ =>
            exact Operand.columnPredicate?_scoped operand column hqualifier
        · next relation _ _ =>
            exact relationPredicate?_scoped operand relation qualifier joined n hqualifier hjoined
        · rw [filterScoped]
          trivial
      · exact hrest _ hmem

/-- So is the predicate of an entry on a relation. -/
theorem relationPredicate?_scoped : ∀ (operand : Operand) (relation : Relation)
    (qualifier : String) (joined : JoinedTables) (n : Nat) {scope : List String},
      qualifier ∈ scope → tablesWithin joined scope →
      filterScoped (relationPredicate? schema operand relation qualifier joined n).1 scope
  | .related inner, relation, qualifier, joined, n, scope, hqualifier, hjoined => by
      rw [relationPredicate?]
      split
      · next under hunder =>
          obtain ⟨hlabel, hnested⟩ := JoinedTable.within_iff.mp (within_of_lookup hjoined hunder)
          split
          · exact Filter.predicate?_scoped inner _ _ _ _ hlabel hnested
          · rw [filterScoped]
            trivial
      · split
        · rw [filterScoped]
          refine existence_scoped hqualifier ?_
          intro around hlabel
          refine Filter.predicate?_scoped inner _ _ _ _ hlabel ?_
          rw [tablesWithin]
          trivial
        · rw [filterScoped]
          trivial
  | .literal value, relation, qualifier, joined, n, scope, hqualifier, hjoined => by
      rw [relationPredicate?, filterScoped]
      · trivial
      · simp
  | .condition operators, relation, qualifier, joined, n, scope, hqualifier, hjoined => by
      rw [relationPredicate?, filterScoped]
      · trivial
      · simp

end

/-- So is the predicate of an optional filter. -/
theorem predicate?_scoped {table qualifier : String} {filter : Option Filter}
    {joined : JoinedTables} {scope : List String} (hqualifier : qualifier ∈ scope)
    (hjoined : tablesWithin joined scope) (n : Nat) :
    filterScoped (schema.predicate? table qualifier filter joined n).1 scope := by
  unfold Schema.predicate?
  split
  · exact Filter.predicate?_scoped _ _ _ _ _ hqualifier hjoined
  · rw [filterScoped]
    trivial

/-! ### Filters of one entry -/

/-- The predicate of a filter of one entry. -/
theorem Filter.predicate?_entry (table : Table) (qualifier key : String) (operand : Operand)
    (joined : JoinedTables) (n : Nat) :
    (Filter.node [] [] [] [(key, operand)]).predicate? schema table qualifier joined n =
      match table.column? key, table.relation? key with
      | some column, _ => (operand.columnPredicate? column qualifier, n)
      | none, some relation => relationPredicate? schema operand relation qualifier joined n
      | none, none => (none, n) := by
  simp only [Filter.predicate?, entryPredicates, filterPredicates]
  cases table.column? key with
  | some column =>
      dsimp only
      cases operand.columnPredicate? column qualifier <;> rfl
  | none =>
      cases table.relation? key with
      | some relation =>
          dsimp only
          obtain ⟨found, used⟩ := relationPredicate? schema operand relation qualifier joined n
          cases found <;> rfl
      | none => rfl

/-- A column that a table has is found under its name. -/
theorem exists_column {table : Table} {name : String} (h : table.hasColumn name) :
    ∃ column, table.column? name = some column ∧ column.name = name := by
  obtain ⟨column, hfound⟩ := Option.isSome_iff_exists.mp
    (show (table.column? name).isSome by
      rw [Table.column?, List.find?_isSome]
      exact List.any_eq_true.mp h)
  refine ⟨column, hfound, ?_⟩
  rw [Table.column?] at hfound
  simpa using List.find?_some hfound

/-- A filter that only names a column with a value compares with it. -/
theorem Filter.predicate?_literal {table : Table} {column : String}
    (hcolumn : table.hasColumn column) (value : Value) (qualifier : String) (joined : JoinedTables)
    (n : Nat) :
    (Filter.node [] [] [] [(column, .literal value)]).predicate? schema table qualifier joined n =
      (some (equality (.col qualifier column) value false), n) := by
  obtain ⟨known, hfound, hname⟩ := exists_column hcolumn
  rw [Filter.predicate?_entry, hfound]
  dsimp only
  rw [Operand.columnPredicate?, hname]

/-- An entry under the name of a relation that is no column is compiled as the relation says. -/
theorem Schema.predicate?_related {name key : String} (hknown : schema.table? name = some table)
    (hfree : table.hasColumn key = false) {relation : Relation}
    (hrelation : table.relation? key = some relation) (operand : Operand) (qualifier : String)
    (joined : JoinedTables) (n : Nat) :
    schema.predicate? name qualifier (some (.node [] [] [] [(key, operand)])) joined n =
      relationPredicate? schema operand relation qualifier joined n := by
  have hcolumnless : table.column? key = none := by
    simpa [Table.column?, Table.hasColumn] using hfree
  simp only [Schema.predicate?, hknown]
  rw [Filter.predicate?_entry, hcolumnless, hrelation]

end NestedQuery
