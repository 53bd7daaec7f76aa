import NestedQuery.Proofs.FilterMeaning
import NestedQuery.Proofs.FoundRecords
import NestedQuery.Proofs.VisibleNames

/-!
# Labels keep sources apart

A statement makes up labels for the tables that it joins and for the statements
inside its filters, each from the name of a relation or table, a mark and a
number.  The two kinds of labels have different marks, a plan gives every join a
number of its own, and beneath a label the numbers of a filter go up; so labels
that are visible together are never equal, whatever tables and relations are
called.  The table of a statement goes by its own name, and nothing keeps that
from being one of the labels: then the table is read in place of what has the
label.
-/

namespace NestedQuery

variable {schema : Schema}

/-! ### Nestings of conditions -/

/-- All nestings inside the expression are of a kind. -/
def Expr.Nests (kind : List String → Prop) (expr : Expr) : Prop :=
  ∀ nesting ∈ expr.nestings, kind nesting

/-- What holds of the labels inside expressions passes to negations and connections. -/
theorem nests_inherited (kind : List String → Prop) : Expr.Inherited (·.Nests kind) where
  not := fun hinner => hinner
  connect := by
    intro left right op hleft hright nesting hnesting
    rw [Expr.nestings] at hnesting
    exact (List.mem_append.mp hnesting).elim (hleft nesting) (hright nesting)

/-- Tests of a column have no statements inside. -/
theorem nests_ofTests (qualifier column : String) (kind : List String → Prop) :
    Expr.OfTests (.col qualifier column) (·.Nests kind) where
  toInherited := nests_inherited kind
  literal := by simp [Expr.Nests, Expr.nestings]
  compare := by simp [Expr.Nests, Expr.nestings, Expr.col]
  like := by simp [Expr.Nests, Expr.nestings, Expr.col]
  oneOf := by simp [Expr.Nests, Expr.nestings, Expr.col]
  isNull := by simp [Expr.Nests, Expr.nestings, Expr.col]

/-- The labels inside an optional predicate are those inside the predicate. -/
theorem mem_filterNestings {filter : Option Expr} {nesting : List String} :
    nesting ∈ filterNestings filter ↔ ∃ part ∈ filter.toList, nesting ∈ part.nestings := by
  cases filter <;> simp [filterNestings]

/-- A condition that is added brings its nestings along. -/
theorem filterNestings_andWhere (statement : Select) (condition : Expr) :
    filterNestings (statement.andWhere condition).filter =
      filterNestings statement.filter ++ condition.nestings := by
  unfold SelectOf.andWhere
  cases statement.filter <;> rfl

/-- A condition more adds the labels inside it. -/
theorem filterNestings_andWhere? (statement : Select) (condition : Option Expr) :
    filterNestings (statement.andWhere? condition).filter =
      filterNestings statement.filter ++ filterNestings condition := by
  cases condition with
  | none => simp [SelectOf.andWhere?, filterNestings]
  | some condition => exact filterNestings_andWhere statement condition

/-- A condition more leaves the joins of a statement. -/
@[simp]
theorem joins_andWhere? (statement : Select) (condition : Option Expr) :
    (statement.andWhere? condition).joins = statement.joins := by
  cases condition <;> rfl

/-- It leaves the label, too. -/
@[simp]
theorem label_andWhere? (statement : Select) (condition : Option Expr) :
    (statement.andWhere? condition).label = statement.label := by
  cases condition <;> rfl

/-- A statement over one table has its qualifier around all nestings of its filter. -/
theorem selectNestings_one {statement : Select} (hjoins : statement.joins = []) :
    selectNestings statement = [statement.qualifier] ::
      (filterNestings statement.filter).map (· ++ [statement.qualifier]) := by
  obtain ⟨_, table, label, joins, filter, _, _, _⟩ := statement
  subst hjoins
  rfl

/-- A statement over one table under a label, as filters use it. -/
theorem selectNestings_rows (table label : String) (predicate : Option Expr) (condition : Expr) :
    selectNestings ((({ table, label := some label } : Select).andWhere? predicate).andWhere
      condition) =
        [label] :: (filterNestings predicate ++ condition.nestings).map (· ++ [label]) := by
  rw [selectNestings_one (by cases predicate <;> rfl), filterNestings_andWhere,
    filterNestings_andWhere?]
  cases predicate <;> rfl

/-- An equality of columns has no statements inside. -/
theorem columnsEqual_nestings (left right : ColumnRef) : (columnsEqual left right).nestings = [] :=
  rfl

/-! ### Labels of filters -/

/-- Labels of filters, none of them twice, with numbers above `low` and up to `high`. -/
structure Numbers (low high : Nat) (nesting : List String) : Prop where
  numbered : ∀ label ∈ nesting, ∃ base m, label = subLabel base m ∧ low < m ∧ m ≤ high
  nodup : nesting.Nodup

namespace Numbers

variable {low mid high : Nat} {nesting inner outer : List String}

/-- One label has the number after the one used last. -/
theorem single (base : String) (n : Nat) : Numbers n (n + 1) [subLabel base (n + 1)] := by
  refine ⟨?_, List.nodup_singleton _⟩
  intro label hlabel
  exact ⟨base, n + 1, List.mem_singleton.mp hlabel, by omega, by omega⟩

/-- Labels between two numbers lie between wider ones. -/
theorem mono (h : Numbers low high nesting) {least most : Nat} (hleast : least ≤ low)
    (hmost : high ≤ most) : Numbers least most nesting := by
  refine ⟨?_, h.nodup⟩
  intro label hlabel
  obtain ⟨base, m, heq, hlow, hhigh⟩ := h.numbered label hlabel
  exact ⟨base, m, heq, by omega, by omega⟩

/-- Labels with higher numbers than others are none of them. -/
theorem append (hinner : Numbers mid high inner) (houter : Numbers low mid outer)
    (hlow : low ≤ mid) (hhigh : mid ≤ high) : Numbers low high (inner ++ outer) := by
  constructor
  · intro label hlabel
    rcases List.mem_append.mp hlabel with hlabel | hlabel
    · exact (hinner.mono hlow (Nat.le_refl _)).numbered label hlabel
    · exact (houter.mono (Nat.le_refl _) hhigh).numbered label hlabel
  · apply hinner.nodup.append houter.nodup
    intro label hone hother
    obtain ⟨base, m, rfl, hm, -⟩ := hinner.numbered label hone
    obtain ⟨other, k, heq, -, hk⟩ := houter.numbered _ hother
    have hnumber := (subLabel_injective heq).1
    omega

/-- So they do in any order. -/
theorem perm (h : Numbers low high nesting) (hperm : nesting.Perm inner) : Numbers low high inner :=
  ⟨fun label hlabel => h.numbered label (hperm.mem_iff.mpr hlabel), hperm.nodup_iff.mp h.nodup⟩

end Numbers

/-- The existence of a related row, for which labels were used from `n` on. -/
theorem existence_nests {relation : Relation} {qualifier target base : String}
    {predicate : Option Expr} {n used : Nat} (hused : n + 1 ≤ used)
    (h : ∀ part ∈ predicate.toList, part.Nests (Numbers (n + 1) used)) :
    let found := existence relation qualifier target (subLabel base (n + 1)) predicate used
    found.1.Nests (Numbers n found.2) := by
  have hlabel : Numbers n used [subLabel base (n + 1)] :=
    (Numbers.single base n).mono (Nat.le_refl _) hused
  have hbeneath : ∀ nesting ∈ filterNestings predicate,
      Numbers n used (nesting ++ [subLabel base (n + 1)]) := by
    intro nesting hnesting
    obtain ⟨part, hpart, hmem⟩ := mem_filterNestings.mp hnesting
    exact (h part hpart nesting hmem).append (Numbers.single base n) (by omega) hused
  generalize subLabel base (n + 1) = label at hlabel hbeneath
  let rows : Select := ({ table := target, label := some label } : Select).andWhere? predicate
  have hrows : ∀ left right, ∀ nesting ∈ selectNestings (rows.andWhere (columnsEqual left right)),
      Numbers n used nesting := by
    intro left right nesting hnesting
    rw [selectNestings_rows, columnsEqual_nestings, List.append_nil] at hnesting
    rcases List.mem_cons.mp hnesting with rfl | hnesting
    · exact hlabel
    · obtain ⟨inner, hinner, rfl⟩ := List.mem_map.mp hnesting
      exact hbeneath inner hinner
  unfold existence
  cases relation.junction with
  | none => exact hrows _ _
  | some junction =>
      intro found nesting hnesting
      have hlink := Numbers.single junction.table used
      change nesting ∈ selectNestings ((({ table := junction.table, label := some _ } :
        Select).andWhere? (some _)).andWhere _) at hnesting
      rw [selectNestings_rows, filterNestings, columnsEqual_nestings, List.nil_append] at hnesting
      rcases List.mem_cons.mp hnesting with rfl | hnesting
      · exact hlink.mono (by omega) (Nat.le_refl _)
      · obtain ⟨inner, hinner, rfl⟩ := List.mem_map.mp hnesting
        have hinner := hrows _ _ inner hinner
        exact (hlink.append hinner (by omega) (by omega)).perm List.perm_append_comm

/-- So do the labels inside an expression. -/
theorem Expr.Nests.widen {expr : Expr} {low high least most : Nat}
    (h : expr.Nests (Numbers low high)) (hleast : least ≤ low) (hmost : high ≤ most) :
    expr.Nests (Numbers least most) :=
  fun nesting hnesting => (h nesting hnesting).mono hleast hmost

mutual

/-- The labels of the predicate of a filter have the numbers that were used for it.  The counter
runs through the parts of a filter, so every part uses numbers of its own; beneath a relation the
filter starts after the label of the related rows, which is around all it uses. -/
theorem Filter.predicate?_nests : ∀ (filter : Filter) (table : Table) (qualifier : String)
    (joined : JoinedTables) (n : Nat),
      let compiled := filter.predicate? schema table qualifier joined n
      ∀ part ∈ compiled.1.toList, part.Nests (Numbers n compiled.2)
  | .node allOf anyOf noneOf entries, table, qualifier, joined, n => by
      have hentries := entryPredicates_nests entries table qualifier joined n
      have hafter := entryPredicates_count schema entries table qualifier joined n
      rw [Filter.predicate?]
      dsimp only
      generalize entryPredicates schema entries table qualifier joined n = compiled at *
      have hall := filterPredicates_nests allOf table qualifier joined compiled.2
      have hafterAll := filterPredicates_count schema allOf table qualifier joined compiled.2
      generalize filterPredicates schema allOf table qualifier joined compiled.2 = every at *
      have hany := filterPredicates_nests anyOf table qualifier joined every.2
      have hafterAny := filterPredicates_count schema anyOf table qualifier joined every.2
      generalize filterPredicates schema anyOf table qualifier joined every.2 = branches at *
      have hnone := filterPredicates_nests noneOf table qualifier joined branches.2
      have hafterNone := filterPredicates_count schema noneOf table qualifier joined branches.2
      generalize filterPredicates schema noneOf table qualifier joined branches.2 = excluded at *
      refine (nests_inherited (Numbers n excluded.2)).node ?_ ?_ ?_ ?_
      · exact fun part hpart => (hentries part hpart).widen (by omega) (by omega)
      · exact fun condition hcondition part hpart =>
          (hall condition hcondition part hpart).widen (by omega) (by omega)
      · exact fun condition hcondition part hpart =>
          (hany condition hcondition part hpart).widen (by omega) (by omega)
      · exact fun condition hcondition part hpart =>
          (hnone condition hcondition part hpart).widen (by omega) (by omega)

/-- So have those of each of several filters. -/
theorem filterPredicates_nests : ∀ (filters : List Filter) (table : Table) (qualifier : String)
    (joined : JoinedTables) (n : Nat),
      let compiled := filterPredicates schema filters table qualifier joined n
      ∀ condition ∈ compiled.1, ∀ part ∈ condition.toList, part.Nests (Numbers n compiled.2)
  | [], _, _, _, n => by
      rw [filterPredicates]
      simp
  | filter :: rest, table, qualifier, joined, n => by
      have hfirst := Filter.predicate?_nests filter table qualifier joined n
      have hafter := Filter.predicate?_count schema filter table qualifier joined n
      rw [filterPredicates]
      dsimp only
      generalize filter.predicate? schema table qualifier joined n = first at *
      have hrest := filterPredicates_nests rest table qualifier joined first.2
      have hafterRest := filterPredicates_count schema rest table qualifier joined first.2
      refine List.forall_mem_cons.mpr ⟨?_, ?_⟩
      · exact fun part hpart => (hfirst part hpart).widen (Nat.le_refl n) hafterRest
      · exact fun condition hcondition part hpart =>
          (hrest condition hcondition part hpart).widen hafter (Nat.le_refl _)

/-- So have those of each entry. -/
theorem entryPredicates_nests : ∀ (entries : List (String × Operand)) (table : Table)
    (qualifier : String) (joined : JoinedTables) (n : Nat),
      let compiled := entryPredicates schema entries table qualifier joined n
      ∀ part ∈ compiled.1, part.Nests (Numbers n compiled.2)
  | [], _, _, _, n => by
      rw [entryPredicates]
      simp
  | (key, operand) :: rest, table, qualifier, joined, n => by
      have hcons : ∀ first : Option Expr × Nat, n ≤ first.2 →
          (∀ part ∈ first.1.toList, part.Nests (Numbers n first.2)) →
          let others := entryPredicates schema rest table qualifier joined first.2
          ∀ part ∈ first.1.toList ++ others.1, part.Nests (Numbers n others.2) := by
        intro first hafter hfirst others part hpart
        have hafterRest := entryPredicates_count schema rest table qualifier joined first.2
        rcases List.mem_append.mp hpart with hpart | hpart
        · exact (hfirst part hpart).widen (Nat.le_refl n) hafterRest
        · have hrest := entryPredicates_nests rest table qualifier joined first.2 part hpart
          exact hrest.widen hafter (Nat.le_refl _)
      rw [entryPredicates]
      apply hcons
      · split
        · exact Nat.le_refl n
        · exact relationPredicate?_count schema operand _ qualifier joined n
        · exact Nat.le_refl n
      · split
        · exact Operand.columnPredicate?_ofTests (nests_ofTests _ _ _) operand
        · exact relationPredicate?_nests operand _ qualifier joined n
        · simp

/-- So have those of an entry on a relation. -/
theorem relationPredicate?_nests : ∀ (operand : Operand) (relation : Relation)
    (qualifier : String) (joined : JoinedTables) (n : Nat),
      let compiled := relationPredicate? schema operand relation qualifier joined n
      ∀ part ∈ compiled.1.toList, part.Nests (Numbers n compiled.2)
  | .related inner, relation, qualifier, joined, n => by
      rw [relationPredicate?]
      split
      · next under _ =>
          split
          · exact Filter.predicate?_nests inner _ _ _ n
          · simp
      · split
        · next target _ =>
            have hinner := Filter.predicate?_nests inner target (subLabel relation.name (n + 1))
              [] (n + 1)
            have hafter := Filter.predicate?_count schema inner target
              (subLabel relation.name (n + 1)) [] (n + 1)
            intro compiled part hpart
            cases Option.mem_toList.mp hpart
            exact existence_nests hafter hinner
        · simp
  | .literal value, relation, qualifier, joined, n => by
      rw [relationPredicate?] <;> simp
  | .condition operators, relation, qualifier, joined, n => by
      rw [relationPredicate?] <;> simp

end

/-- Labels of filters, none of them twice. -/
def FilterLabels (nesting : List String) : Prop :=
  ∃ low high, Numbers low high nesting

/-- No labels are labels of filters. -/
theorem filterLabels_nil : FilterLabels [] :=
  ⟨0, 0, by simp, List.nodup_nil⟩

/-- The labels of the predicate of an optional filter. -/
theorem predicate?_nests (table qualifier : String) (filter : Option Filter)
    (joined : JoinedTables) (n : Nat) :
    ∀ part ∈ (schema.predicate? table qualifier filter joined n).1.toList,
      part.Nests FilterLabels := by
  intro part hpart nesting hnesting
  unfold Schema.predicate? at hpart
  split at hpart
  · next filter known _ =>
      exact ⟨n, _, Filter.predicate?_nests filter known qualifier joined n part hpart nesting
        hnesting⟩
  · cases hpart

mutual

/-- The labels of the predicates that joined relations bring along. -/
theorem Layout.clauses_nests : ∀ (layout : Layout) (n : Nat),
    ∀ part ∈ (layout.clauses schema n).1.predicates, part.Nests FilterLabels
  | ⟨_, _, _, _, _, _, _, _, relations, _⟩, n => by
      rw [Layout.clauses]
      exact branchClauses_nests relations n

/-- The labels inside the predicates of joined relations are labels of filters. -/
theorem branchClauses_nests : ∀ (branches : List (JoinedBranchOf Layout)) (n : Nat),
    ∀ part ∈ (branchClauses schema branches n).1.predicates, part.Nests FilterLabels
  | [], n => by simp [branchClauses]
  | ⟨_, _, branch, layout⟩ :: rest, n => by
      rw [branchClauses]
      simp only [BranchClauses.append, List.mem_append]
      rintro part ((hpart | hpart) | hpart)
      · exact predicate?_nests _ _ _ _ _ part hpart
      · exact Layout.clauses_nests layout _ part hpart
      · exact branchClauses_nests rest _ part hpart

end

/-! ### Labels of statements -/

/-- The names visible in the statement besides that of its own table: the labels of its joins and
of the statements inside its clauses. -/
def SelectOf.labels (statement : Select) : List String :=
  (selectNestings statement).flatMap (·.erase statement.qualifier)

/-- A label as joins and filters make them up: a name, a mark and a number. -/
def IsLabel (label : String) : Prop :=
  ∃ base n, label = base ++ "_" ++ toString n ∨ label = subLabel base n

/-- How a statement keeps its sources apart: its labels are made up, they never hide one another,
so that only its own table may share a name with one of them; and where it does not, every column
reference reads the one source of its qualifier. -/
structure SelectOf.NamesApart (statement : Select) : Prop where
  own : statement.qualifier = statement.table
  made : ∀ label ∈ statement.labels, IsLabel label
  labels_apart : ∀ nesting ∈ selectNestings statement, (nesting.erase statement.table).Nodup
  apart_iff : (∀ nesting ∈ selectNestings statement, nesting.Nodup) ↔
    statement.table ∉ statement.labels
  resolved : statement.table ∉ statement.labels → ∀ use ∈ statement.uses, use.Resolved

/-- The conditions of planned joins have no statements inside. -/
theorem joinNestings_clauses (joins : List PlannedJoin) (own : List String) :
    joinNestings (joins.map PlannedJoin.clause) own = [] := by
  induction joins generalizing own with
  | nil => rfl
  | cons join rest ih => exact ih (own ++ [join.label])

/-- Around every nesting of a planned statement are its table and the labels of its joins. -/
theorem nesting_cases {statement : Select} {planner : Planner} (hlabel : statement.label = none)
    (hjoins : statement.joins = planner.joins.map PlannedJoin.clause)
    (hfilter : ∀ part ∈ statement.filter.toList, part.Nests FilterLabels) :
    ∀ nesting ∈ selectNestings statement, ∃ inner, FilterLabels inner ∧
      nesting = inner ++ statement.table :: planner.joins.map (·.label) := by
  obtain ⟨_, table, label, joins, filter, _, _, _⟩ := statement
  subst hlabel hjoins
  intro nesting hnesting
  rw [selectNestings, joinNestings_clauses, List.map_map] at hnesting
  rcases List.mem_cons.mp hnesting with rfl | hnesting
  · exact ⟨[], filterLabels_nil, rfl⟩
  · obtain ⟨inner, hinner, rfl⟩ := List.mem_map.mp hnesting
    obtain ⟨part, hpart, hmem⟩ := mem_filterNestings.mp hinner
    exact ⟨inner, hfilter part hpart inner hmem, rfl⟩

/-- The labels of planned joins and those of filters around one another are all different. -/
theorem Planner.Numbered.labels_apart {planner : Planner} (h : planner.Numbered)
    {inner : List String} (hinner : FilterLabels inner) :
    (inner ++ planner.joins.map (·.label)).Nodup ∧
      ∀ label ∈ inner ++ planner.joins.map (·.label), IsLabel label := by
  obtain ⟨low, high, hnumbers⟩ := hinner
  have hjoin : ∀ label ∈ planner.joins.map (·.label), ∃ (name : String) (n : Nat),
      label = name ++ "_" ++ toString n := by
    intro label hlabel
    obtain ⟨join, hmem, rfl⟩ := List.mem_map.mp hlabel
    obtain ⟨name, n, -, heq⟩ := h.numbered join hmem
    exact ⟨name, n, heq⟩
  constructor
  · apply hnumbers.nodup.append h.nodup
    intro label hone hother
    obtain ⟨base, m, hsub, -⟩ := hnumbers.numbered label hone
    obtain ⟨name, n, rfl⟩ := hjoin label hother
    exact label_ne_subLabel name n base m hsub
  · intro label hlabel
    rcases List.mem_append.mp hlabel with hlabel | hlabel
    · obtain ⟨base, m, rfl, -⟩ := hnumbers.numbered label hlabel
      exact ⟨base, m, .inr rfl⟩
    · obtain ⟨name, n, rfl⟩ := hjoin label hlabel
      exact ⟨name, n, .inl rfl⟩

/-- A well-scoped statement with planned joins and compiled filters keeps its sources apart. -/
theorem namesApart_of {statement : Select} {planner : Planner} (hscoped : statement.WellScoped)
    (hlabel : statement.label = none)
    (hjoins : statement.joins = planner.joins.map PlannedJoin.clause)
    (hnumbered : planner.Numbered)
    (hfilter : ∀ part ∈ statement.filter.toList, part.Nests FilterLabels) :
    statement.NamesApart := by
  have hown : statement.qualifier = statement.table := by
    rw [SelectOf.qualifier, hlabel]
    rfl
  have hparts : ∀ nesting ∈ selectNestings statement, statement.table ∈ nesting ∧
      (nesting.erase statement.table).Nodup ∧
        ∀ label ∈ nesting.erase statement.table, IsLabel label := by
    intro nesting hnesting
    obtain ⟨inner, hinner, rfl⟩ := nesting_cases hlabel hjoins hfilter nesting hnesting
    obtain ⟨hnodup, hmade⟩ := hnumbered.labels_apart hinner
    have herase := (@List.perm_middle _ statement.table inner
      (planner.joins.map (·.label))).erase statement.table
    rw [List.erase_cons_head] at herase
    exact ⟨by simp, herase.nodup_iff.mpr hnodup,
      fun label hmem => hmade label (herase.mem_iff.mp hmem)⟩
  have hiff : (∀ nesting ∈ selectNestings statement, nesting.Nodup) ↔
      statement.table ∉ statement.labels := by
    rw [SelectOf.labels, hown]
    simp only [List.mem_flatMap, not_exists, not_and]
    apply forall₂_congr
    intro nesting hnesting
    obtain ⟨hmem, hnodup, -⟩ := hparts nesting hnesting
    rw [(List.perm_cons_erase hmem).nodup_iff, List.nodup_cons]
    exact and_iff_left hnodup
  refine ⟨hown, ?_, fun nesting hnesting => (hparts nesting hnesting).2.1, hiff,
    fun hfree => hscoped.resolved (hiff.mpr hfree)⟩
  intro label hmem
  rw [SelectOf.labels, hown] at hmem
  obtain ⟨nesting, hnesting, hlisted⟩ := List.mem_flatMap.mp hmem
  exact (hparts nesting hnesting).2.2 label hlisted

/-- A table whose name does not end in a digit shares it with no label. -/
theorem SelectOf.NamesApart.free_of_last {statement : Select} (h : statement.NamesApart) {c : Char}
    (hlast : statement.table.toList.getLast? = some c) (hdigit : c.isDigit = false) :
    statement.table ∉ statement.labels := by
  intro hlabel
  obtain ⟨base, n, hjoin | hsub⟩ := h.made _ hlabel
  · obtain ⟨d, hd, hisDigit⟩ := getLast?_number (base ++ "_").toList n
    rw [hjoin, String.toList_append, hd] at hlast
    cases hlast
    simp [hdigit] at hisDigit
  · exact ne_subLabel hlast hdigit base n hsub

/-! ### The statements of requests -/

/-- A statement over one table with compiled filters keeps its sources apart. -/
theorem namesApart_of_one_table {statement : Select} (hscoped : statement.WellScoped)
    (hlabel : statement.label = none) (hjoins : statement.joins = [])
    (hfilter : ∀ part ∈ statement.filter.toList, part.Nests FilterLabels) :
    statement.NamesApart :=
  @namesApart_of statement {} hscoped hlabel hjoins ⟨fun _ hjoin => (nomatch hjoin), List.nodup_nil⟩
    hfilter

/-- Filters are joined by further conditions. -/
theorem nests_andWhere? {kind : List String → Prop} {statement : Select} {condition : Option Expr}
    (hfilter : ∀ part ∈ statement.filter.toList, part.Nests kind)
    (hcondition : ∀ part ∈ condition.toList, part.Nests kind) :
    ∀ part ∈ (statement.andWhere? condition).filter.toList, part.Nests kind := by
  intro part hpart nesting hnesting
  have hmem : nesting ∈ filterNestings (statement.andWhere? condition).filter :=
    mem_filterNestings.mpr ⟨part, hpart, hnesting⟩
  rw [filterNestings_andWhere?, List.mem_append, mem_filterNestings, mem_filterNestings] at hmem
  rcases hmem with ⟨known, hknown, hmem⟩ | ⟨added, hadded, hmem⟩
  · exact hfilter known hknown nesting hmem
  · exact hcondition added hadded nesting hmem

/-- A condition on keys has no labels. -/
theorem keyedBy_nests (table column : String) (keys : List Value) :
    ∀ part ∈ (some (keyedBy table column keys)).toList, part.Nests FilterLabels := by
  intro part hpart
  cases Option.mem_toList.mp hpart
  exact (nests_ofTests _ _ _).oneOf keys false

/-- The names of a statement that links a batch are apart. -/
theorem linkStatement_namesApart (junction : Junction) (keys : List Value) :
    (linkStatement junction keys).NamesApart :=
  namesApart_of_one_table (linkStatement_wellScoped junction keys) rfl rfl (keyedBy_nests _ _ keys)

/-- So are those of a statement that counts. -/
theorem countStatement_namesApart (engine : Engine) (table : String) (filter : Option Filter) :
    (engine.countStatement table filter).NamesApart := by
  have hscoped := countStatement_wellScoped engine table filter
  have hfilter := @predicate?_nests engine.schema table table filter [] 0
  unfold Engine.countStatement at hscoped ⊢
  exact namesApart_of_one_table hscoped (label_andWhere? _ _) (joins_andWhere? _ _)
    (nests_andWhere? (by simp) hfilter)

/-- So are those of a statement for related rows. -/
theorem relatedStatement_namesApart (target : Table) (branch : Branch) (link : String)
    (keys : List Value) : (relatedStatement schema target branch link keys).NamesApart := by
  have hscoped := @relatedStatement_wellScoped schema target branch link keys
  have hfilter := @predicate?_nests schema target.name target.name branch.filter [] 0
  unfold relatedStatement at hscoped ⊢
  generalize schema.sortKeys target.name target.name branch.orderBy [] = order at hscoped ⊢
  cases order <;>
    exact namesApart_of_one_table hscoped (label_andWhere? _ _) (joins_andWhere? _ _)
      (nests_andWhere? (keyedBy_nests _ _ keys) hfilter)

/-- The labels in the clauses of a base statement are those of its filter. -/
theorem baseStatement_nests (engine : Engine) (table : Table) (args : FindArgs)
    (paging : Paging) (joined : JoinedTables) (paged : Bool) :
    ∀ part ∈ (engine.baseStatement table args paging joined paged).filter.toList,
      part.Nests FilterLabels := by
  have hfilter := @predicate?_nests engine.schema table.name table.name args.filter joined 0
  have hcursor : ∀ part ∈ (args.cursor.bind
      (table.cursorPredicate? · paging.backwards)).toList, part.Nests FilterLabels := by
    cases args.cursor with
    | none => simp
    | some cursor =>
        apply (nests_inherited FilterLabels).conjunction?
        intro part hpart
        obtain ⟨⟨column, value⟩, -, rfl⟩ := List.mem_map.mp hpart
        exact (nests_ofTests _ _ _).compare _ value
  exact nests_andWhere? (nests_andWhere? (by simp) hfilter) hcursor

/-- So are those of the base statement of a request that loads separately. -/
theorem separateStatement_namesApart (engine : Engine) (table : Table) (args : FindArgs)
    (paging : Paging) (columns : List String) :
    SelectOf.NamesApart { engine.baseStatement table args paging [] true with
      outputs := plainOutputs table.name columns } := by
  obtain ⟨hjoins, -, -, hlabel⟩ := baseStatement_frame engine table args paging [] true
  exact namesApart_of_one_table (separateStatement_wellScoped engine table args paging columns)
    hlabel hjoins (baseStatement_nests engine table args paging [] true)

/-- So are those of a joined statement, if its joins are numbered and it is in scope. -/
theorem joinedStatement_namesApart (engine : Engine) (table : Table) (args : FindArgs)
    (paging : Paging) {layout : Layout} {planner : Planner} (hnumbered : planner.Numbered)
    (hscoped : (engine.joinedStatement table args paging layout planner).WellScoped) :
    (engine.joinedStatement table args paging layout planner).NamesApart := by
  have hbase := baseStatement_nests engine table args paging layout.joinedTables !layout.fansOut
  have hclauses := @Layout.clauses_nests engine.schema layout 0
  obtain ⟨-, -, -, hlabel⟩ :=
    baseStatement_frame engine table args paging layout.joinedTables !layout.fansOut
  rw [joinedStatement_frame] at hscoped ⊢
  exact namesApart_of hscoped hlabel rfl hnumbered
    (nests_andWhere? hbase ((nests_inherited FilterLabels).conjunction? hclauses))

/-! ### Requests -/

/-- Whoever answers, a dialogue that asks statements that fit has only such statements in its
log. -/
theorem Load.Asks.log_fits {α σ : Type} {fits : Select → Prop} {load : Load α}
    (h : load.Asks fits) (source : Source σ) (state : σ) :
    ∀ statement ∈ (load.hold source state).log, fits statement := by
  induction load generalizing state with
  | done result => simp [Load.hold]
  | fail error => exact h.elim
  | ask statement next ih =>
      rw [Load.hold]
      split
      · next rows after _ =>
          exact List.forall_mem_cons.mpr ⟨h.1, ih rows (h.2 rows) after⟩
      · exact List.forall_mem_singleton.mpr h.1

/-- What is made of the result of a dialogue does not change its log. -/
theorem Load.log_map {α β σ : Type} (load : Load α) (make : α → β) (source : Source σ)
    (state : σ) : ((load >>= fun result => pure (make result)).hold source state).log =
      (load.hold source state).log := by
  induction load generalizing state with
  | done result => rfl
  | fail error => rfl
  | ask statement next ih =>
      change ((Load.ask statement fun rows => next rows >>= fun result => pure (make result)).hold
        source state).log = _
      rw [Load.hold, Load.hold]
      split
      · next rows after _ => exact congrArg (statement :: ·) (ih rows after)
      · rfl

/-- Finding records of a known table asks statements that keep their sources apart. -/
theorem findMany_namesApart {engine : Engine} (h : engine.schema.Consistent) {table : String}
    {known : Table} (hknown : engine.schema.table? table = some known) (args : FindArgs) :
    (engine.findMany table args).Asks SelectOf.NamesApart :=
  findMany_asks_of hknown args
    (joinedStatement_namesApart engine known args _ (Shape.layout_numbered _ _ _)
      (plannedStatement_wellScoped h hknown args _ _ _))
    (separateStatement_namesApart engine known args _)
    ⟨relatedStatement_namesApart, linkStatement_namesApart⟩

/-- Counting asks the counting statement alone. -/
theorem countWhere_log {σ : Type} (engine : Engine) (table : String) (filter : Option Filter)
    (source : Source σ) (state : σ) :
    ∀ statement ∈ ((engine.countWhere table filter).hold source state).log,
      statement = engine.countStatement table filter := by
  unfold Engine.countWhere
  split
  · simp [Load.hold]
  · simp only [Load.query, bind, Load.bind, Load.hold]
    split
    · split <;> simp [Load.hold, pure]
    · simp

/-- The statements in the log of a dialogue keep their sources apart. -/
def Outcome.NamesApart {σ α : Type} (outcome : Outcome σ α) : Prop :=
  ∀ statement ∈ outcome.log, statement.NamesApart

/-- **Labels and names.**  Over a schema that can come about, under all settings, with any arguments
and whoever answers, every statement that one of the five requests asks keeps its sources apart: the
labels that it makes up are different wherever they are visible together, so its sources can only be
confused where a made-up label is the name of its table; and where none is, every column reference
reads the one source that its qualifier names. -/
theorem requests_names_apart {schema : Schema} (h : schema.Reachable) (settings : Settings)
    {σ : Type} (source : Source σ) (state : σ) (table : String) (find : FindArgs)
    (unique : UniqueArgs) (counted : CountArgs) (filter : Filter) :
    let engine : Engine := { schema, settings }
    ((engine.findMany table find).hold source state).NamesApart ∧
      ((engine.findFirst table find).hold source state).NamesApart ∧
      ((engine.findUnique table unique).hold source state).NamesApart ∧
      ((engine.count table counted).hold source state).NamesApart ∧
      ((engine.anyWhere table filter).hold source state).NamesApart := by
  intro engine
  have hmany : ∀ args, ((engine.findMany table args).hold source state).NamesApart := by
    intro args
    cases hknown : schema.table? table with
    | none =>
        have hfail : engine.findMany table args = .fail (.unknownTable table) := by
          rw [Engine.findMany, show engine.schema.table? table = none from hknown]
        simp [Outcome.NamesApart, hfail, Load.hold]
    | some known => exact (findMany_namesApart h.consistent hknown args).log_fits source state
  have hfirst : ∀ args, ((engine.findFirst table args).hold source state).NamesApart := by
    intro args statement hstatement
    rw [Engine.findFirst, Load.log_map] at hstatement
    exact hmany _ statement hstatement
  have hcount : ∀ condition,
      ((engine.countWhere table condition).hold source state).NamesApart := by
    intro condition statement hstatement
    rw [countWhere_log engine table condition source state statement hstatement]
    exact countStatement_namesApart engine table condition
  refine ⟨hmany find, hfirst find, hfirst unique.toFind, hcount counted.filter, ?_⟩
  intro statement hstatement
  rw [Engine.anyWhere, Load.log_map] at hstatement
  exact hcount (some filter) statement hstatement

/-- Authors with their posts, as far as the posts are by an author called Ann. -/
def postsOfAnn : FindArgs :=
  { filter := some (.node [] [] [] [("posts", .related (.node [] [] [] [("author", .related
      (.node [] [] [] [("name", .literal (.text "Ann"))]))]))])
    included := some [("posts", .flag true)] }

/-- Of the blog, the labels of posts and of their authors share no name with a table. -/
theorem requests_names_apart_blog :
    let asked := ((Engine.findMany ⟨Schema.ofDecls blogTables, {}⟩ "Author" postsOfAnn).hold
      Database.source blogRows).log
    asked.map (fun statement => (statement.table, selectNestings statement)) =
        [("Author", [["Author", "posts_1"], ["author_sq1", "Author", "posts_1"]])] ∧
      ∀ statement ∈ asked, ∀ use ∈ statement.uses, use.Resolved := by
  intro asked
  have hasked : asked.map (fun statement => (statement.table, selectNestings statement)) =
      [("Author", [["Author", "posts_1"], ["author_sq1", "Author", "posts_1"]])] := by
    decide +kernel
  refine ⟨hasked, ?_⟩
  intro statement hstatement
  have hapart := (requests_names_apart reachable_blog {} Database.source blogRows "Author"
    postsOfAnn { filter := .empty } {} .empty).1 statement hstatement
  have hmem := List.mem_map_of_mem (f := fun statement : Select =>
    (statement.table, selectNestings statement)) hstatement
  rw [hasked, List.mem_singleton, Prod.mk.injEq] at hmem
  have hlast : statement.table.toList.getLast? = some 'r' := by
    rw [hmem.1]
    decide
  exact hapart.resolved (hapart.free_of_last hlast (by decide))

/-- Writers, and a table that is called like the label of their first join. -/
def numberedTables : List TableDecl :=
  [{ name := "Author"
     columns := [{ name := "id", type := .integer, primary := true }, { name := "name" }] },
   { name := "author_1"
     columns := [{ name := "id", type := .integer, primary := true },
       { name := "authorId", type := .integer, references := some ⟨"Author", "id"⟩ }] }]

def numberedRows : Database :=
  [("Author", [[("id", .integer 2), ("name", .text "Bob")]]),
   ("author_1", [[("authorId", .integer 2), ("id", .integer 1)]])]

/-- The table hides the label, so the joined author is read from the row of the table; loaded
separately it is the right one. -/
theorem table_hides_label :
    let asked := fun strategy => (Engine.findMany ⟨Schema.ofDecls numberedTables, {}⟩ "author_1"
      { included := some [("author", .flag true)], strategy := some strategy }).hold
        Database.source numberedRows
    let authors := fun strategy => (asked strategy).result.toOption.map
      (List.map fun record => (record.lookup "author").map fun node =>
        node.records.map fun author => (author.scalar "id", author.scalar "name"))
    (asked .join).log.map selectNestings = [[["author_1", "author_1"]]] ∧
      authors .join = some [some [(.integer 1, .null)]] ∧
      authors .query = some [some [(.integer 2, .text "Bob")]] := by
  exact ⟨by decide +kernel, by decide +kernel, by decide +kernel⟩

end NestedQuery
