import NestedQuery.Proofs.JoinedFilters

/-!
# Filters that joined rows settle

A base row is kept beside joined rows if one choice of them satisfies its filter,
and without joins if every filter on a relation finds a row of its own.  Both
keep the same rows when the filters on joined relations are put forward and not
denied, fail where there is no row, and do not meet in a relation with several
rows.  The induction is on the filter: each of its parts finds a choice, and the
choices of the parts go together.
-/

namespace NestedQuery

variable {schema : Schema} {db : Database}

/-! ### Trees at a row -/

/-- In agreement with a part that begins with a join, its label has the row found there and the
others the rows beneath. -/
theorem rowAt_of_agreeOn {top : String} {found : Option Row} {labels : List String}
    {choice beneath : Bindings} (h : AgreeOn (top :: labels) choice ((top, found) :: beneath))
    (hnew : top ∉ labels) : choice.rowAt top = found.getD [] ∧
      ∀ label ∈ labels, choice.rowAt label = beneath.rowAt label := by
  constructor
  · rw [Bindings.rowAt, h top List.mem_cons_self, Dict.lookup_cons, if_pos rfl]
    rfl
  · intro label hlabel
    have hne : label ≠ top := fun heq => hnew (heq ▸ hlabel)
    rw [Bindings.rowAt, h label (List.mem_cons_of_mem _ hlabel), Dict.lookup_cons, if_neg hne]
    rfl

/-- A row of a known table, or no row, at which a tree of joins stands. -/
structure StandsAt (schema : Schema) (db : Database) (table : Table) (joined : JoinedTables)
    (row : Row) : Prop where
  known : schema.table? table.name = some table
  row : row ∈ db.rows table.name ∨ row = []
  steps : ∀ step ∈ tableSteps table.name joined, step.Known schema
  labels : ((tableSteps table.name joined).map (·.label)).Nodup

section Standing

variable {table : Table} {joined : JoinedTables} {row : Row} (h : StandsAt schema db table joined row)
  {key : String} {under : JoinedTable} (hunder : joined.lookup key = some under)

include h hunder

/-- The steps of a joined relation are its join and those beneath it, under labels of their own. -/
theorem StandsAt.step : ∃ step : JoinStep, step.table = table.name ∧ step.name = key ∧
    step.target = under.table ∧ step.Known schema ∧
    (under.steps table.name key).map (·.label) =
      under.label :: (tableSteps under.table under.nested).map (·.label) ∧
    under.label ∉ (tableSteps under.table under.nested).map (·.label) ∧
    ∀ beneath ∈ tableSteps under.table under.nested, beneath ∈ tableSteps table.name joined := by
  have hsublist := @steps_sublist table.name key under joined hunder
  have hnodup := h.labels.sublist (hsublist.map (·.label))
  have hsteps := h.steps
  obtain ⟨target, label, nested⟩ := under
  rw [JoinedTable.steps] at hsublist
  rw [JoinedTable.steps, List.map_cons] at hnodup ⊢
  exact ⟨_, rfl, rfl, rfl, hsteps _ (hsublist.subset List.mem_cons_self), rfl,
    (List.nodup_cons.mp hnodup).1,
    fun beneath hbeneath => hsublist.subset (List.mem_cons_of_mem _ hbeneath)⟩

/-- A relation is joined to its target. -/
theorem StandsAt.target_eq {relation : Relation} (hrelation : table.relation? key = some relation) :
    under.table = relation.target := by
  obtain ⟨step, htable, hname, htarget, ⟨found, hfound, hstep⟩, -⟩ := h.step hunder
  rw [htable, hname, Schema.relation?, h.known, Option.bind_some, hrelation] at hfound
  cases hfound
  rw [← htarget, hstep]

/-- Beneath a joined relation a tree stands at each row that is found for it. -/
theorem StandsAt.beneath (hschema : schema.Consistent) {target : Table}
    (htarget : schema.table? under.table = some target) {found : Option Row}
    (hfound : found ∈ orNone (schema.joinedRows db table.name key row)) :
    StandsAt schema db target under.nested (found.getD []) := by
  obtain ⟨step, htable, hname, hstep, hknown, hlabels, hnew, hbeneath⟩ := h.step hunder
  have hself : target.name = under.table := hschema.table_name htarget
  constructor
  case known => rw [hself, htarget]
  case row =>
    rw [hself, ← hstep]
    rw [← htable, ← hname] at hfound
    exact found_mem hknown hfound
  case steps =>
    rw [hself]
    exact fun beneath hmem => h.steps beneath (hbeneath beneath hmem)
  case labels =>
    have hpart := h.labels.sublist ((@steps_sublist table.name key under joined hunder).map (·.label))
    rw [hlabels] at hpart
    rw [hself]
    exact (List.nodup_cons.mp hpart).2

/-- Of a choice, the row of a joined relation and the choice beneath it. -/
theorem StandsAt.choice_beneath {choice : Bindings}
    (hchoice : choice ∈ tableChoices schema db table.name joined row) :
    ∃ found ∈ orNone (schema.joinedRows db table.name key row),
      choice.rowAt under.label = found.getD [] ∧
      ∃ beneath ∈ tableChoices schema db under.table under.nested (found.getD []),
        ∀ label ∈ (tableSteps under.table under.nested).map (·.label),
          choice.rowAt label = beneath.rowAt label := by
  obtain ⟨-, -, -, -, -, hlabels, hnew, -⟩ := h.step hunder
  obtain ⟨part, hpart, hagree⟩ := part_of_choice h.labels hunder hchoice
  rw [hlabels] at hagree
  obtain ⟨target, top, nested⟩ := under
  rw [JoinedTable.choices] at hpart
  obtain ⟨found, hfound, hmem⟩ := List.mem_flatMap.mp hpart
  obtain ⟨beneath, hbeneath, rfl⟩ := List.mem_map.mp hmem
  obtain ⟨htop, hothers⟩ := rowAt_of_agreeOn hagree hnew
  exact ⟨found, hfound, htop, beneath, hbeneath, hothers⟩

/-- A row that is found for a joined relation, and a choice beneath it, are part of a choice. -/
theorem StandsAt.exists_choice {found : Option Row}
    (hfound : found ∈ orNone (schema.joinedRows db table.name key row)) {beneath : Bindings}
    (hbeneath : beneath ∈ tableChoices schema db under.table under.nested (found.getD [])) :
    ∃ choice ∈ tableChoices schema db table.name joined row,
      choice.rowAt under.label = found.getD [] ∧
      ∀ label ∈ (tableSteps under.table under.nested).map (·.label),
        choice.rowAt label = beneath.rowAt label := by
  obtain ⟨-, -, -, -, -, hlabels, hnew, -⟩ := h.step hunder
  obtain ⟨target, top, nested⟩ := under
  have hpart : (top, found) :: beneath ∈
      JoinedTable.choices schema db table.name key ⟨target, top, nested⟩ row := by
    rw [JoinedTable.choices]
    exact List.mem_flatMap.mpr ⟨found, hfound, List.mem_map_of_mem hbeneath⟩
  obtain ⟨choice, hchoice, hagree⟩ := choice_of_part hpart h.labels hunder
  rw [hlabels] at hagree
  exact ⟨choice, hchoice, rowAt_of_agreeOn hagree hnew⟩

end Standing

/-! ### Separable filters -/

/-- The filters that a filter conjoins, apart from those that it denies: its entries one by one,
those that must all hold, and its alternatives together. -/
def Filter.conjuncts : Filter → List Filter
  | .node allOf anyOf _ entries =>
    entries.map (fun entry => .node [] [] [] [entry]) ++ allOf ++ [.node [] anyOf [] []]

mutual

/-- No filter on a joined relation is denied, none of them holds of nulls alone or goes through a
junction table, and two conjuncts speak about one join only if it finds one row at most. -/
def Filter.Separable (schema : Schema) (db : Database) : Filter → Table → JoinedTables → Prop
  | .node allOf anyOf noneOf entries, table, joined =>
    entriesSeparable schema db entries table joined ∧
      filtersSeparable schema db allOf table joined ∧
      filtersSeparable schema db anyOf table joined ∧
      filtersAvoid (joined.map (·.1)) noneOf ∧
      ((Filter.node allOf anyOf noneOf entries).conjuncts.map (·.labels joined)).Pairwise
        (MeetSingly schema db (tableSteps table.name joined))

def filtersSeparable (schema : Schema) (db : Database) : List Filter → Table → JoinedTables → Prop
  | [], _, _ => True
  | filter :: rest, table, joined =>
    filter.Separable schema db table joined ∧ filtersSeparable schema db rest table joined

def entriesSeparable (schema : Schema) (db : Database) : List (String × Operand) → Table →
    JoinedTables → Prop
  | [], _, _ => True
  | (key, operand) :: rest, table, joined =>
    operand.Separable schema db key table joined ∧ entriesSeparable schema db rest table joined

def Operand.Separable (schema : Schema) (db : Database) : Operand → String → Table →
    JoinedTables → Prop
  | .related inner, key, table, joined =>
    match joined.lookup key, table.relation? key with
    | some under, some relation =>
      relation.junction = none ∧
        match schema.table? under.table with
        | some target => keeps (inner.reading schema db target []) = false ∧
            inner.Separable schema db target under.nested
        | none => True
    | _, _ => True
  | .literal _, _, _, _ => True
  | .condition _, _, _, _ => True

end

mutual

instance decideSeparable : ∀ (filter : Filter) (table : Table) (joined : JoinedTables),
    Decidable (filter.Separable schema db table joined)
  | .node allOf anyOf noneOf entries, table, joined =>
    have := decideEntriesSeparable entries table joined
    have := decideFiltersSeparable allOf table joined
    have := decideFiltersSeparable anyOf table joined
    inferInstanceAs (Decidable (entriesSeparable schema db entries table joined ∧
      filtersSeparable schema db allOf table joined ∧
      filtersSeparable schema db anyOf table joined ∧
      filtersAvoid (joined.map (·.1)) noneOf ∧
      ((Filter.node allOf anyOf noneOf entries).conjuncts.map (·.labels joined)).Pairwise
        (MeetSingly schema db (tableSteps table.name joined))))

instance decideFiltersSeparable : ∀ (filters : List Filter) (table : Table) (joined : JoinedTables),
    Decidable (filtersSeparable schema db filters table joined)
  | [], _, _ => isTrue trivial
  | filter :: rest, table, joined =>
    have := decideSeparable filter table joined
    have := decideFiltersSeparable rest table joined
    inferInstanceAs (Decidable (filter.Separable schema db table joined ∧
      filtersSeparable schema db rest table joined))

instance decideEntriesSeparable : ∀ (entries : List (String × Operand)) (table : Table)
    (joined : JoinedTables), Decidable (entriesSeparable schema db entries table joined)
  | [], _, _ => isTrue trivial
  | (key, operand) :: rest, table, joined =>
    have := decideOperandSeparable operand key table joined
    have := decideEntriesSeparable rest table joined
    inferInstanceAs (Decidable (operand.Separable schema db key table joined ∧
      entriesSeparable schema db rest table joined))

instance decideOperandSeparable : ∀ (operand : Operand) (key : String) (table : Table)
    (joined : JoinedTables), Decidable (operand.Separable schema db key table joined)
  | .related inner, key, table, joined =>
    match hunder : joined.lookup key, hrelation : table.relation? key with
    | some under, some relation =>
      match htarget : schema.table? under.table with
      | some target =>
        have := decideSeparable inner target under.nested
        decidable_of_iff (relation.junction = none ∧
            keeps (inner.reading schema db target []) = false ∧
            inner.Separable schema db target under.nested)
          (by rw [Operand.Separable, hunder, hrelation]; dsimp only; rw [htarget])
      | none => decidable_of_iff (relation.junction = none)
          (by rw [Operand.Separable, hunder, hrelation]; dsimp only; rw [htarget, and_true])
    | some _, none => isTrue (by rw [Operand.Separable, hunder, hrelation]; trivial)
    | none, _ => isTrue (by rw [Operand.Separable, hunder]; trivial)
  | .literal _, _, _, _ => isTrue trivial
  | .condition _, _, _, _ => isTrue trivial

end

theorem filtersSeparable_iff {filters : List Filter} {table : Table} {joined : JoinedTables} :
    filtersSeparable schema db filters table joined ↔
      ∀ filter ∈ filters, filter.Separable schema db table joined := by
  induction filters with
  | nil => simp [filtersSeparable]
  | cons filter rest ih => rw [filtersSeparable, ih, List.forall_mem_cons]

theorem entriesSeparable_iff {entries : List (String × Operand)} {table : Table}
    {joined : JoinedTables} : entriesSeparable schema db entries table joined ↔
      ∀ entry ∈ entries, entry.2.Separable schema db entry.1 table joined := by
  induction entries with
  | nil => simp [entriesSeparable]
  | cons entry rest ih =>
      obtain ⟨key, operand⟩ := entry
      rw [entriesSeparable, ih, List.forall_mem_cons]

/-! ### Conjuncts together -/

section Conjuncts

variable {allOf anyOf noneOf : List Filter} {entries : List (String × Operand)}

theorem forall_conjuncts {holds : Filter → Prop} :
    (∀ part ∈ (Filter.node allOf anyOf noneOf entries).conjuncts, holds part) ↔
      (∀ entry ∈ entries, holds (.node [] [] [] [entry])) ∧ (∀ filter ∈ allOf, holds filter) ∧
        holds (.node [] anyOf [] []) := by
  rw [Filter.conjuncts, List.forall_mem_append, List.forall_mem_append, List.forall_mem_map,
    List.forall_mem_singleton, and_assoc]

/-- A filter keeps a row if its conjuncts do and what it denies is refuted. -/
theorem keeps_conjuncts (table : Table) (row : Row) :
    keeps ((Filter.node allOf anyOf noneOf entries).reading schema db table row) = true ↔
      (∀ part ∈ (Filter.node allOf anyOf noneOf entries).conjuncts,
        keeps (part.reading schema db table row) = true) ∧
      ∀ filter ∈ noneOf, refutes (filter.reading schema db table row) = true := by
  rw [forall_conjuncts]
  simp only [keeps_reading_iff, List.mem_singleton, forall_eq, List.not_mem_nil, false_imp_iff,
    implies_true, true_or, and_true, true_and, and_assoc]

/-- So it does beside joined rows. -/
theorem keeps_conjuncts_joined (table : Table) (row : Row) (joined : JoinedTables)
    (around : Bindings) :
    keeps ((Filter.node allOf anyOf noneOf entries).joinedReading schema db table row joined
        around) = true ↔
      (∀ part ∈ (Filter.node allOf anyOf noneOf entries).conjuncts,
        keeps (part.joinedReading schema db table row joined around) = true) ∧
      ∀ filter ∈ noneOf,
        refutes (filter.joinedReading schema db table row joined around) = true := by
  rw [forall_conjuncts]
  simp only [keeps_joinedReading_iff, List.mem_singleton, forall_eq, List.not_mem_nil,
    false_imp_iff, implies_true, true_or, and_true, true_and, and_assoc]

end Conjuncts

section Settling

variable (hschema : schema.Consistent)

include hschema

/-- Where each of several filters is kept by some choice, and they speak about common joins only if
these find one row at most, one choice keeps them all. -/
theorem StandsAt.exists_common {table : Table} {joined : JoinedTables} {row : Row}
    (h : StandsAt schema db table joined row) {filters : List Filter}
    (hmeet : (filters.map (·.labels joined)).Pairwise
      (MeetSingly schema db (tableSteps table.name joined)))
    (heach : ∀ filter ∈ filters, ∃ choice ∈ tableChoices schema db table.name joined row,
      keeps (filter.joinedReading schema db table row joined choice) = true) :
    ∃ choice ∈ tableChoices schema db table.name joined row, ∀ filter ∈ filters,
      keeps (filter.joinedReading schema db table row joined choice) = true := by
  induction filters with
  | nil =>
      obtain ⟨choice, hchoice⟩ := @exists_tableChoice schema db table.name joined row
      exact ⟨choice, hchoice, fun filter hfilter => nomatch hfilter⟩
  | cons first rest ih =>
      rw [List.map_cons, List.pairwise_cons] at hmeet
      obtain ⟨hfirst, hrest⟩ := List.forall_mem_cons.mp heach
      obtain ⟨one, hone, hkeepsOne⟩ := hfirst
      obtain ⟨other, hother, hkeepsOther⟩ := ih hmeet.2 hrest
      have hclosed := fun filter : Filter => closed_labels filter table.name joined h.labels
      have hmeetAll : MeetSingly schema db (tableSteps table.name joined) (first.labels joined)
          (rest.flatMap (·.labels joined)) := by
        intro step hstep hmarked hothers
        obtain ⟨filter, hfilter, hlabel⟩ := List.mem_flatMap.mp hothers
        exact hmeet.1 _ (List.mem_map_of_mem hfilter) step hstep hmarked hlabel
      obtain ⟨choice, hchoice, hagree, hagreeRest⟩ := exists_merged h.row h.steps (hclosed first)
        (closed_flatMap fun filter _ => hclosed filter) hmeetAll hone hother
      have hsame : ∀ (filter : Filter) (around : Bindings), (∀ label ∈ filter.labels joined,
          choice.lookup label = around.lookup label) →
          filter.joinedReading schema db table row joined choice =
            filter.joinedReading schema db table row joined around :=
        fun filter around hlookup => joinedReading_agree hschema filter h.known
          fun label hlabel => by rw [Bindings.rowAt, Bindings.rowAt, hlookup label hlabel]
      refine ⟨choice, hchoice, List.forall_mem_cons.mpr ⟨?_, fun filter hfilter => ?_⟩⟩
      · rw [hsame first one fun label hlabel =>
          hagree label (labels_subset first table.name joined hlabel) hlabel]
        exact hkeepsOne
      · rw [hsame filter other fun label hlabel => hagreeRest label
          (labels_subset filter table.name joined hlabel)
          (List.mem_flatMap.mpr ⟨filter, hfilter, hlabel⟩)]
        exact hkeepsOther filter hfilter

/-- A linked row that a filter keeps is what a filter on the relation asks for. -/
theorem keeps_relatedReading_iff {relation : Relation} (hdirect : relation.junction = none)
    {target : Table} (htarget : schema.table? relation.target = some target) (inner : Filter)
    (row : Row) :
    keeps (relatedReading schema db (.related inner) relation row) = true ↔
      ∃ other ∈ relation.direct.linked db row,
        keeps (inner.reading schema db target other) = true := by
  rw [relatedReading, htarget, Option.map_some, hschema.table_name htarget]
  have hlinked : relation.direct.linked db row =
      (db.rows relation.target).filter fun other => relation.links db row other := by
    unfold Relation.linked Relation.links
    rw [hdirect]
    rfl
  rw [hlinked]
  simp [keeps, and_assoc]

omit hschema in
/-- What does not look at a choice holds beside some choice if it holds. -/
theorem exists_choice_iff (table : String) (joined : JoinedTables) (row : Row) (holds : Prop) :
    (∃ choice ∈ tableChoices schema db table joined row, holds) ↔ holds := by
  obtain ⟨choice, hchoice⟩ := @exists_tableChoice schema db table joined row
  exact ⟨fun ⟨_, _, h⟩ => h, fun h => ⟨choice, hchoice, h⟩⟩

omit hschema in
/-- One of several alternatives holds beside some choice if one of them does so by itself. -/
theorem exists_choice_any_iff {table : String} {joined : JoinedTables} {row : Row}
    {filters : List Filter} {kept : Filter → Prop} {keptBeside : Filter → Bindings → Prop}
    (h : ∀ filter ∈ filters,
      ((∃ choice ∈ tableChoices schema db table joined row, keptBeside filter choice) ↔
        kept filter)) :
    (∃ choice ∈ tableChoices schema db table joined row,
        filters = [] ∨ ∃ filter ∈ filters, keptBeside filter choice) ↔
      (filters = [] ∨ ∃ filter ∈ filters, kept filter) := by
  constructor
  · rintro ⟨choice, hchoice, hnil | ⟨filter, hfilter, hkept⟩⟩
    · exact Or.inl hnil
    · exact Or.inr ⟨filter, hfilter, (h filter hfilter).mp ⟨choice, hchoice, hkept⟩⟩
  · rintro (hnil | ⟨filter, hfilter, hkept⟩)
    · obtain ⟨choice, hchoice⟩ := @exists_tableChoice schema db table joined row
      exact ⟨choice, hchoice, Or.inl hnil⟩
    · obtain ⟨choice, hchoice, hbeside⟩ := (h filter hfilter).mpr hkept
      exact ⟨choice, hchoice, Or.inr ⟨filter, hfilter, hbeside⟩⟩

/-- The filter holds beside some choice exactly if it holds without joins, wherever a tree stands
in which it is separable. -/
def Settled (schema : Schema) (db : Database) (filter : Filter) : Prop :=
  ∀ {table : Table} {joined : JoinedTables} {row : Row}, StandsAt schema db table joined row →
    filter.Separable schema db table joined →
    ((∃ choice ∈ tableChoices schema db table.name joined row,
        keeps (filter.joinedReading schema db table row joined choice) = true) ↔
      keeps (filter.reading schema db table row) = true)

section Entries

variable {table : Table} {joined : JoinedTables} {row : Row} (h : StandsAt schema db table joined row)
  {key : String}

include h

/-- A settled filter on a joined relation settles what is asked of the relation. -/
theorem StandsAt.joined_settled {under : JoinedTable} (hunder : joined.lookup key = some under)
    {relation : Relation} (hrelation : table.relation? key = some relation)
    (hdirect : relation.junction = none) {target : Table}
    (htarget : schema.table? under.table = some target) {inner : Filter}
    (hinner : Settled schema db inner)
    (hseparable : inner.Separable schema db target under.nested)
    (hnulls : keeps (inner.reading schema db target []) = false) :
    (∃ choice ∈ tableChoices schema db table.name joined row,
        keeps (inner.joinedReading schema db target (choice.rowAt under.label) under.nested
          choice) = true) ↔
      keeps (relatedReading schema db (.related inner) relation row) = true := by
  have hself : target.name = under.table := hschema.table_name htarget
  have hrows : schema.joinedRows db table.name key row = relation.direct.linked db row := by
    rw [Schema.joinedRows, Schema.relation?, h.known, Option.bind_some, hrelation]
  have hsame : ∀ {choice beneath : Bindings} {other : Row},
      (∀ label ∈ (tableSteps under.table under.nested).map (·.label),
        choice.rowAt label = beneath.rowAt label) →
      inner.joinedReading schema db target other under.nested choice =
        inner.joinedReading schema db target other under.nested beneath :=
    fun hagree => joinedReading_agree hschema inner htarget
      fun label hlabel => hagree label (labels_subset inner under.table under.nested hlabel)
  rw [keeps_relatedReading_iff hschema hdirect (h.target_eq hunder hrelation ▸ htarget)]
  constructor
  · rintro ⟨choice, hchoice, hkeeps⟩
    obtain ⟨found, hfound, hrow, beneath, hbeneath, hagree⟩ := h.choice_beneath hunder hchoice
    rw [hrow, hsame hagree] at hkeeps
    have hstands := h.beneath hunder hschema htarget hfound
    have hholds := (hinner hstands hseparable).mp ⟨beneath, hself ▸ hbeneath, hkeeps⟩
    rcases mem_orNone hfound with ⟨rfl, -⟩ | ⟨other, hother, rfl⟩
    · exact absurd hholds (by rw [Option.getD_none, hnulls]; exact Bool.false_ne_true)
    · exact ⟨other, hrows ▸ hother, hholds⟩
  · rintro ⟨other, hother, hholds⟩
    have hfound : some other ∈ orNone (schema.joinedRows db table.name key row) := by
      rw [hrows]
      exact some_mem_orNone hother
    have hstands := h.beneath hunder hschema htarget hfound
    obtain ⟨beneath, hbeneath, hkeeps⟩ := (hinner hstands hseparable).mpr hholds
    obtain ⟨choice, hchoice, hrow, hagree⟩ := h.exists_choice hunder hfound (hself ▸ hbeneath)
    refine ⟨choice, hchoice, ?_⟩
    rw [hrow, hsame hagree]
    exact hkeeps

/-- What is asked of a relation holds beside some choice exactly if it holds without joins. -/
theorem StandsAt.related_settled {operand : Operand} {relation : Relation}
    (hrelation : table.relation? key = some relation)
    (hseparable : operand.Separable schema db key table joined)
    (hinner : ∀ inner, operand = .related inner → Settled schema db inner) :
    (∃ choice ∈ tableChoices schema db table.name joined row,
        keeps (joinedRelatedReading schema db operand relation row joined choice) = true) ↔
      keeps (relatedReading schema db operand relation row) = true := by
  have hname := hschema.relation_name h.known hrelation
  have hunjoined : (∀ inner, operand = .related inner → joined.lookup relation.name = none) →
      ((∃ choice ∈ tableChoices schema db table.name joined row,
          keeps (joinedRelatedReading schema db operand relation row joined choice) = true) ↔
        keeps (relatedReading schema db operand relation row) = true) := by
    intro hnone
    simp only [joinedRelatedReading_unjoined hnone]
    exact exists_choice_iff _ _ _ _
  cases hunder : joined.lookup key with
  | none => exact hunjoined fun _ _ => hname ▸ hunder
  | some under =>
      cases operand with
      | literal value => exact hunjoined fun inner h => nomatch h
      | condition operators => exact hunjoined fun inner h => nomatch h
      | related inner =>
          rw [Operand.Separable, hunder, hrelation] at hseparable
          obtain ⟨hdirect, hseparable⟩ := hseparable
          simp only [joinedRelatedReading, hname, hunder]
          cases htarget : schema.table? under.table with
          | none =>
              simp only [Option.bind_none]
              rw [relatedReading, ← h.target_eq hunder hrelation, htarget]
              exact exists_choice_iff _ _ _ _
          | some target =>
              rw [htarget] at hseparable
              simp only [Option.bind_some]
              exact h.joined_settled hschema hunder hrelation hdirect htarget
                (hinner inner rfl) hseparable.2 hseparable.1

/-- So it is with an entry. -/
theorem StandsAt.entry_settled {operand : Operand}
    (hseparable : operand.Separable schema db key table joined)
    (hinner : ∀ inner, operand = .related inner → Settled schema db inner) :
    (∃ choice ∈ tableChoices schema db table.name joined row,
        keeps (operand.entryReading table row key fun relation =>
          joinedRelatedReading schema db operand relation row joined choice) = true) ↔
      keeps (operand.entryReading table row key fun relation =>
        relatedReading schema db operand relation row) = true := by
  unfold Operand.entryReading
  cases table.column? key with
  | some column =>
      dsimp only
      exact exists_choice_iff _ _ _ _
  | none =>
      cases hrelation : table.relation? key with
      | none =>
          dsimp only
          exact exists_choice_iff _ _ _ _
      | some relation => exact h.related_settled hschema hrelation hseparable hinner

end Entries

/-- **Joined rows settle separable filters.**  A separable filter keeps a row without joins exactly
if it keeps it beside some choice of joined rows. -/
theorem settled (filter : Filter) : Settled schema db filter := by
  induction filter using Filter.induct with
  | node allOf anyOf noneOf entries hall hany hnone hentries =>
      intro table joined row h hseparable
      rw [Filter.Separable] at hseparable
      obtain ⟨hentriesSeparable, hallSeparable, hanySeparable, havoid, hmeet⟩ := hseparable
      have hexcluded : ∀ filter ∈ noneOf, ∀ around,
          filter.joinedReading schema db table row joined around =
            filter.reading schema db table row :=
        fun filter hfilter around => joinedReading_unjoined hschema h.known
          (fun name hname => Dict.lookup_eq_none_iff.mpr hname) row around filter
          (filtersAvoid_iff.mp havoid filter hfilter)
      have hparts : ∀ part ∈ (Filter.node allOf anyOf noneOf entries).conjuncts,
          ((∃ choice ∈ tableChoices schema db table.name joined row,
              keeps (part.joinedReading schema db table row joined choice) = true) ↔
            keeps (part.reading schema db table row) = true) := by
        refine forall_conjuncts.mpr ⟨?_, ?_, ?_⟩
        · intro entry hentry
          have hsettled := h.entry_settled hschema
            (entriesSeparable_iff.mp hentriesSeparable entry hentry) (hentries entry hentry)
          simpa only [keeps_reading_iff, keeps_joinedReading_iff, List.mem_singleton, forall_eq,
            List.not_mem_nil, false_imp_iff, implies_true, true_or, and_true, true_and]
            using hsettled
        · exact fun filter hfilter => hall filter hfilter h
            (filtersSeparable_iff.mp hallSeparable filter hfilter)
        · simp only [keeps_reading_iff, keeps_joinedReading_iff, List.not_mem_nil, false_imp_iff,
            implies_true, and_true, true_and]
          exact exists_choice_any_iff fun filter hfilter => hany filter hfilter h
            (filtersSeparable_iff.mp hanySeparable filter hfilter)
      rw [keeps_conjuncts]
      simp only [keeps_conjuncts_joined]
      constructor
      · rintro ⟨choice, hchoice, hkept, hrefuted⟩
        refine ⟨fun part hpart => (hparts part hpart).mp ⟨choice, hchoice, hkept part hpart⟩, ?_⟩
        exact fun filter hfilter => hexcluded filter hfilter choice ▸ hrefuted filter hfilter
      · rintro ⟨hkept, hrefuted⟩
        obtain ⟨choice, hchoice, hkeeps⟩ := h.exists_common hschema hmeet
          fun part hpart => (hparts part hpart).mpr (hkept part hpart)
        refine ⟨choice, hchoice, hkeeps, fun filter hfilter => ?_⟩
        rw [hexcluded filter hfilter choice]
        exact hrefuted filter hfilter

end Settling

end NestedQuery
