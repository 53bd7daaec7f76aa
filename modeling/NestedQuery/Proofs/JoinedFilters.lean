import NestedQuery.Proofs.JoinedChoices

/-!
# What filters say of joined rows

A filter keeps a row if its parts do, with and without joins.  Beside joined rows
it speaks about the labels of some joins, with each of them about those above it,
and what it says depends on the rows under these labels alone.  A filter that
leaves the joined relations alone says what it says without joins.
-/

namespace NestedQuery

variable {schema : Schema} {db : Database}

/-! ### Parts of a filter -/

/-- What holds of a filter as soon as it holds of the filters in its lists and entries holds of all
filters. -/
theorem Filter.induct {holds : Filter → Prop}
    (node : ∀ allOf anyOf noneOf entries, (∀ filter ∈ allOf, holds filter) →
      (∀ filter ∈ anyOf, holds filter) → (∀ filter ∈ noneOf, holds filter) →
      (∀ entry ∈ entries, ∀ inner, entry.2 = Operand.related inner → holds inner) →
      holds (.node allOf anyOf noneOf entries)) (filter : Filter) : holds filter := by
  refine @Filter.rec holds (fun operand => ∀ inner, operand = .related inner → holds inner)
    (fun filters => ∀ filter ∈ filters, holds filter)
    (fun entries => ∀ entry ∈ entries, ∀ inner, entry.2 = .related inner → holds inner)
    (fun entry => ∀ inner, entry.2 = .related inner → holds inner)
    ?_ ?_ ?_ ?_ ?_ ?_ ?_ ?_ ?_ filter
  case refine_1 => exact fun allOf anyOf noneOf entries => node allOf anyOf noneOf entries
  case refine_2 => exact fun value inner h => nomatch h
  case refine_3 => exact fun operators inner h => nomatch h
  case refine_4 => exact fun filter hfilter inner h => Operand.related.inj h ▸ hfilter
  case refine_5 => exact fun filter h => nomatch h
  case refine_6 => exact fun first rest hfirst hrest => List.forall_mem_cons.mpr ⟨hfirst, hrest⟩
  case refine_7 => exact fun entry h => nomatch h
  case refine_8 => exact fun first rest hfirst hrest => List.forall_mem_cons.mpr ⟨hfirst, hrest⟩
  case refine_9 => exact fun key operand hoperand => hoperand

/-- What an entry says of a row, by what it says of a relation. -/
def Operand.entryReading (table : Table) (row : Row) (key : String) (operand : Operand)
    (related : Relation → Option (Option Bool)) : Option (Option Bool) :=
  match table.column? key, table.relation? key with
  | some column, _ => operand.columnReading column row
  | none, some relation => related relation
  | none, none => none

/-- Filters are read one by one. -/
theorem filterReadings_eq_map (filters : List Filter) (table : Table) (row : Row) :
    filterReadings schema db filters table row =
      filters.map (·.reading schema db table row) := by
  induction filters with
  | nil => rw [filterReadings, List.map_nil]
  | cons filter rest ih => rw [filterReadings, ih, List.map_cons]

/-- So are the entries of a filter. -/
theorem entryReadings_eq_flatMap (entries : List (String × Operand)) (table : Table) (row : Row) :
    entryReadings schema db entries table row = entries.flatMap fun entry =>
      (entry.2.entryReading table row entry.1 fun relation =>
        relatedReading schema db entry.2 relation row).toList := by
  induction entries with
  | nil => rw [entryReadings, List.flatMap_nil]
  | cons entry rest ih =>
      rw [entryReadings, ih, List.flatMap_cons]
      rfl

/-- Beside joined rows filters are read one by one as well. -/
theorem joinedReadings_eq_map (filters : List Filter) (table : Table) (row : Row)
    (joined : JoinedTables) (around : Bindings) :
    joinedReadings schema db filters table row joined around =
      filters.map (·.joinedReading schema db table row joined around) := by
  induction filters with
  | nil => rw [joinedReadings, List.map_nil]
  | cons filter rest ih => rw [joinedReadings, ih, List.map_cons]

/-- So are the entries of a filter there. -/
theorem joinedEntryReadings_eq_flatMap (entries : List (String × Operand)) (table : Table)
    (row : Row) (joined : JoinedTables) (around : Bindings) :
    joinedEntryReadings schema db entries table row joined around = entries.flatMap fun entry =>
      (entry.2.entryReading table row entry.1 fun relation =>
        joinedRelatedReading schema db entry.2 relation row joined around).toList := by
  induction entries with
  | nil => rw [joinedEntryReadings, List.flatMap_nil]
  | cons entry rest ih =>
      rw [joinedEntryReadings, ih, List.flatMap_cons]
      rfl

section Keeping

variable (allOf anyOf noneOf : List Filter) (entries : List (String × Operand)) (table : Table)
  (row : Row)

/-- When a filter keeps a row. -/
theorem keeps_reading_iff :
    keeps ((Filter.node allOf anyOf noneOf entries).reading schema db table row) = true ↔
      (∀ entry ∈ entries, keeps (entry.2.entryReading table row entry.1 fun relation =>
        relatedReading schema db entry.2 relation row) = true) ∧
      (∀ filter ∈ allOf, keeps (filter.reading schema db table row) = true) ∧
      (anyOf = [] ∨ ∃ filter ∈ anyOf, keeps (filter.reading schema db table row) = true) ∧
      ∀ filter ∈ noneOf, refutes (filter.reading schema db table row) = true := by
  rw [Filter.reading, keeps_node, filterReadings_eq_map, filterReadings_eq_map,
    filterReadings_eq_map, entryReadings_eq_flatMap]
  simp [List.all_flatMap, ← keeps_eq_all, and_assoc]

/-- When it keeps a row beside joined rows. -/
theorem keeps_joinedReading_iff (joined : JoinedTables) (around : Bindings) :
    keeps ((Filter.node allOf anyOf noneOf entries).joinedReading schema db table row joined
        around) = true ↔
      (∀ entry ∈ entries, keeps (entry.2.entryReading table row entry.1 fun relation =>
        joinedRelatedReading schema db entry.2 relation row joined around) = true) ∧
      (∀ filter ∈ allOf, keeps (filter.joinedReading schema db table row joined around) = true) ∧
      (anyOf = [] ∨
        ∃ filter ∈ anyOf, keeps (filter.joinedReading schema db table row joined around) = true) ∧
      ∀ filter ∈ noneOf, refutes (filter.joinedReading schema db table row joined around) = true := by
  rw [Filter.joinedReading, keeps_node, joinedReadings_eq_map, joinedReadings_eq_map,
    joinedReadings_eq_map, joinedEntryReadings_eq_flatMap]
  simp [List.all_flatMap, ← keeps_eq_all, and_assoc]

end Keeping

/-! ### The joins that a filter speaks about -/

mutual

/-- The labels of the joins that a filter speaks about. -/
def Filter.labels : Filter → JoinedTables → List String
  | .node allOf anyOf noneOf entries, joined =>
    entryLabels entries joined ++ filterLabels allOf joined ++ filterLabels anyOf joined ++
      filterLabels noneOf joined

def filterLabels : List Filter → JoinedTables → List String
  | [], _ => []
  | filter :: rest, joined => filter.labels joined ++ filterLabels rest joined

def entryLabels : List (String × Operand) → JoinedTables → List String
  | [], _ => []
  | (key, operand) :: rest, joined => operand.labels key joined ++ entryLabels rest joined

def Operand.labels : Operand → String → JoinedTables → List String
  | .related inner, key, joined =>
    match joined.lookup key with
    | some under => under.label :: inner.labels under.nested
    | none => []
  | .literal _, _, _ => []
  | .condition _, _, _ => []

end

/-- The labels that filters reach are those of each. -/
theorem filterLabels_eq_flatMap (filters : List Filter) (joined : JoinedTables) :
    filterLabels filters joined = filters.flatMap (·.labels joined) := by
  induction filters with
  | nil => rw [filterLabels, List.flatMap_nil]
  | cons filter rest ih => rw [filterLabels, ih, List.flatMap_cons]

/-- So are those that entries reach. -/
theorem entryLabels_eq_flatMap (entries : List (String × Operand)) (joined : JoinedTables) :
    entryLabels entries joined = entries.flatMap fun entry => entry.2.labels entry.1 joined := by
  induction entries with
  | nil => rw [entryLabels, List.flatMap_nil]
  | cons entry rest ih =>
      obtain ⟨key, operand⟩ := entry
      rw [entryLabels, ih, List.flatMap_cons]

/-- What holds of the labels of every part of a filter holds of all its labels. -/
theorem mem_labels {allOf anyOf noneOf : List Filter} {entries : List (String × Operand)}
    {joined : JoinedTables} {label : String} :
    label ∈ (Filter.node allOf anyOf noneOf entries).labels joined ↔
      (∃ entry ∈ entries, label ∈ entry.2.labels entry.1 joined) ∨
        ∃ filter ∈ allOf ++ anyOf ++ noneOf, label ∈ filter.labels joined := by
  rw [Filter.labels, entryLabels_eq_flatMap, filterLabels_eq_flatMap, filterLabels_eq_flatMap,
    filterLabels_eq_flatMap, List.append_assoc, List.append_assoc, ← List.flatMap_append,
    ← List.flatMap_append, ← List.append_assoc allOf, List.mem_append, List.mem_flatMap,
    List.mem_flatMap]

/-- A condition of a joined relation reaches the label of the relation, and what its filter reaches
beneath. -/
theorem Operand.mem_labels {operand : Operand} {key : String} {joined : JoinedTables}
    {label : String} : label ∈ operand.labels key joined ↔
      ∃ inner under, operand = .related inner ∧ joined.lookup key = some under ∧
        (label = under.label ∨ label ∈ inner.labels under.nested) := by
  cases operand with
  | related inner =>
      rw [Operand.labels]
      cases joined.lookup key <;> simp
  | literal value => simp [Operand.labels]
  | condition operators => simp [Operand.labels]

/-- A filter speaks about joins of the tree. -/
theorem labels_subset (filter : Filter) : ∀ (table : String) (joined : JoinedTables),
    filter.labels joined ⊆ (tableSteps table joined).map (·.label) := by
  induction filter using Filter.induct with
  | node allOf anyOf noneOf entries hall hany hnone hentries =>
      intro table joined label hlabel
      rcases mem_labels.mp hlabel with ⟨entry, hentry, hmem⟩ | ⟨filter, hfilter, hmem⟩
      · obtain ⟨inner, ⟨target, _, nested⟩, hinner, hunder, hlabel⟩ := Operand.mem_labels.mp hmem
        refine ((steps_sublist hunder).map _).subset ?_
        rw [JoinedTable.steps, List.map_cons]
        rcases hlabel with rfl | hnested
        · exact List.mem_cons_self
        · exact List.mem_cons_of_mem _ (hentries entry hentry inner hinner target nested hnested)
      · have hlists := List.forall_mem_append.mpr ⟨List.forall_mem_append.mpr ⟨hall, hany⟩, hnone⟩
        exact hlists filter hfilter table joined hmem

mutual

/-- What is beneath a step belongs to the same joined table. -/
theorem JoinedTable.beneath_subset {table name : String} : ∀ {under : JoinedTable},
    ∀ step ∈ under.steps table name, step.beneath ⊆ (under.steps table name).map (·.label)
  | ⟨target, label, nested⟩, step, hstep => by
      rw [JoinedTable.steps] at hstep ⊢
      rw [List.map_cons]
      rcases List.mem_cons.mp hstep with rfl | hnested
      · exact List.subset_cons_self _ _
      · exact List.Subset.trans (tableSteps_beneath_subset step hnested) (List.subset_cons_self _ _)

/-- What stands beneath a join of the tree is in the tree. -/
theorem tableSteps_beneath_subset {table : String} : ∀ {joined : List (String × JoinedTable)},
    ∀ step ∈ tableSteps table joined, step.beneath ⊆ (tableSteps table joined).map (·.label)
  | [], step, hstep => by
      rw [tableSteps] at hstep
      cases hstep
  | (name, under) :: rest, step, hstep => by
      rw [tableSteps] at hstep ⊢
      rw [List.map_append]
      rcases List.mem_append.mp hstep with hfirst | hrest
      · exact List.Subset.trans (JoinedTable.beneath_subset step hfirst)
          (List.subset_append_left _ _)
      · exact List.Subset.trans (tableSteps_beneath_subset step hrest)
          (List.subset_append_right _ _)

end

/-- The steps of joined tables are those of each. -/
theorem tableSteps_append (table : String) (before after : List (String × JoinedTable)) :
    tableSteps table (before ++ after) = tableSteps table before ++ tableSteps table after := by
  induction before with
  | nil => rw [tableSteps, List.nil_append, List.nil_append]
  | cons first rest ih =>
      obtain ⟨name, under⟩ := first
      rw [List.cons_append, tableSteps, tableSteps, ih, List.append_assoc]

/-- With a join, labels that are closed beneath it are closed in the whole tree.  The labels beneath
a step are in its own part of the tree, and this one is in that of the join. -/
theorem closed_cons {table key : String} {joined : JoinedTables} {under : JoinedTable}
    {marked : List String} (hnodup : ((tableSteps table joined).map (·.label)).Nodup)
    (hunder : joined.lookup key = some under)
    (hmarked : marked ⊆ (tableSteps under.table under.nested).map (·.label))
    (h : Closed (tableSteps under.table under.nested) marked) :
    Closed (tableSteps table joined) (under.label :: marked) := by
  obtain ⟨target, top, nested⟩ := under
  obtain ⟨before, after, rfl, -⟩ := List.lookup_eq_some_iff.mp hunder
  have hsteps : tableSteps table (before ++ (key, ⟨target, top, nested⟩) :: after) =
      tableSteps table before ++ (JoinedTable.steps table key ⟨target, top, nested⟩ ++
        tableSteps table after) := by
    rw [tableSteps_append, tableSteps]
  rw [hsteps, List.map_append, List.map_append] at hnodup
  rw [hsteps]
  obtain ⟨-, hrest, hbefore⟩ := List.nodup_append'.mp hnodup
  obtain ⟨hown, -, hafter⟩ := List.nodup_append'.mp hrest
  intro step hstep label hbeneath hlabel
  have hmem : label ∈ (JoinedTable.steps table key ⟨target, top, nested⟩).map (·.label) := by
    rw [JoinedTable.steps, List.map_cons]
    exact List.cons_subset_cons _ hmarked hlabel
  rcases List.mem_append.mp hstep with hstep | hstep
  · exact absurd (List.mem_append_left _ hmem)
      (fun hlate => hbefore (tableSteps_beneath_subset step hstep hbeneath) hlate)
  · rcases List.mem_append.mp hstep with hstep | hstep
    · rw [JoinedTable.steps] at hstep hown
      rcases List.mem_cons.mp hstep with rfl | hnested
      · exact List.mem_cons_self
      · rw [List.map_cons, List.nodup_cons] at hown
        have hdeep := tableSteps_beneath_subset step hnested hbeneath
        have hne : label ≠ top := fun heq => hown.1 (heq ▸ hdeep)
        exact List.mem_cons_of_mem _
          (h step hnested label hbeneath ((List.mem_cons.mp hlabel).resolve_left hne))
    · exact absurd (tableSteps_beneath_subset step hstep hbeneath) (fun hlate => hafter hmem hlate)

/-- The labels that a condition reaches are closed, if those of its filter are. -/
theorem Operand.closed_labels {operand : Operand} {key table : String} {joined : JoinedTables}
    (h : ∀ inner, operand = .related inner → ∀ (target : String) (nested : JoinedTables),
      ((tableSteps target nested).map (·.label)).Nodup →
      Closed (tableSteps target nested) (inner.labels nested))
    (hnodup : ((tableSteps table joined).map (·.label)).Nodup) :
    Closed (tableSteps table joined) (operand.labels key joined) := by
  intro step hstep label hbeneath hlabel
  obtain ⟨inner, under, rfl, hunder, hmem⟩ := Operand.mem_labels.mp hlabel
  have hnested : ((tableSteps under.table under.nested).map (·.label)).Nodup := by
    have hpart := hnodup.sublist ((steps_sublist hunder).map (·.label))
    obtain ⟨target, top, nested⟩ := under
    rw [JoinedTable.steps, List.map_cons] at hpart
    exact (List.nodup_cons.mp hpart).2
  have hclosed := closed_cons hnodup hunder (labels_subset inner under.table under.nested)
    (h inner rfl under.table under.nested hnested) step hstep label hbeneath (List.mem_cons.mpr hmem)
  exact Operand.mem_labels.mpr ⟨inner, under, rfl, hunder, List.mem_cons.mp hclosed⟩

/-- With every join that a filter speaks about it speaks about the joins above. -/
theorem closed_labels (filter : Filter) : ∀ (table : String) (joined : JoinedTables),
    ((tableSteps table joined).map (·.label)).Nodup →
    Closed (tableSteps table joined) (filter.labels joined) := by
  induction filter using Filter.induct with
  | node allOf anyOf noneOf entries hall hany hnone hentries =>
      intro table joined hnodup step hstep label hbeneath hlabel
      rcases mem_labels.mp hlabel with ⟨entry, hentry, hmem⟩ | ⟨filter, hfilter, hmem⟩
      · refine mem_labels.mpr (Or.inl ⟨entry, hentry, ?_⟩)
        exact Operand.closed_labels (hentries entry hentry) hnodup step hstep label hbeneath hmem
      · have hlists := List.forall_mem_append.mpr ⟨List.forall_mem_append.mpr ⟨hall, hany⟩, hnone⟩
        exact mem_labels.mpr
          (Or.inr ⟨filter, hfilter, hlists filter hfilter table joined hnodup step hstep label
            hbeneath hmem⟩)

/-- Labels that are closed one by one are closed together. -/
theorem closed_flatMap {α : Type} {steps : List JoinStep} {items : List α}
    {labels : α → List String} (h : ∀ item ∈ items, Closed steps (labels item)) :
    Closed steps (items.flatMap labels) := by
  intro step hstep label hbeneath hlabel
  obtain ⟨item, hitem, hmem⟩ := List.mem_flatMap.mp hlabel
  exact List.mem_flatMap.mpr ⟨item, hitem, h item hitem step hstep label hbeneath hmem⟩

/-! ### What a filter depends on -/

/-- What an entry says depends on what it says of its own relation. -/
theorem Operand.entryReading_congr {table : Table} {row : Row} {key : String} {operand : Operand}
    {related others : Relation → Option (Option Bool)}
    (h : ∀ relation, table.relation? key = some relation → related relation = others relation) :
    operand.entryReading table row key related = operand.entryReading table row key others := by
  unfold Operand.entryReading
  cases table.column? key with
  | some column => rfl
  | none =>
      cases hrelation : table.relation? key with
      | none => rfl
      | some relation => exact h relation hrelation

/-- The reading of a filter depends on the readings of its parts. -/
theorem joinedReading_congr {allOf anyOf noneOf : List Filter}
    {entries : List (String × Operand)} {table : Table} {row : Row} {joined other : JoinedTables}
    {around beside : Bindings}
    (hlists : ∀ filter ∈ allOf ++ anyOf ++ noneOf,
      filter.joinedReading schema db table row joined around =
        filter.joinedReading schema db table row other beside)
    (hentries : ∀ entry ∈ entries, ∀ relation, table.relation? entry.1 = some relation →
      joinedRelatedReading schema db entry.2 relation row joined around =
        joinedRelatedReading schema db entry.2 relation row other beside) :
    (Filter.node allOf anyOf noneOf entries).joinedReading schema db table row joined around =
      (Filter.node allOf anyOf noneOf entries).joinedReading schema db table row other beside := by
  obtain ⟨hsome, hnone⟩ := List.forall_mem_append.mp hlists
  obtain ⟨hall, hany⟩ := List.forall_mem_append.mp hsome
  have hread : joinedEntryReadings schema db entries table row joined around =
      joinedEntryReadings schema db entries table row other beside := by
    rw [joinedEntryReadings_eq_flatMap, joinedEntryReadings_eq_flatMap]
    exact List.flatMap_congr fun entry hentry =>
      congrArg Option.toList (Operand.entryReading_congr (hentries entry hentry))
  rw [Filter.joinedReading, Filter.joinedReading, hread]
  simp only [joinedReadings_eq_map, List.map_congr_left hall, List.map_congr_left hany,
    List.map_congr_left hnone]

/-- A filter on a relation that is not joined is asked as without joins. -/
theorem joinedRelatedReading_unjoined {operand : Operand} {relation : Relation}
    {joined : JoinedTables}
    (h : ∀ inner, operand = .related inner → joined.lookup relation.name = none) (row : Row)
    (around : Bindings) :
    joinedRelatedReading schema db operand relation row joined around =
      relatedReading schema db operand relation row := by
  cases operand with
  | related inner => rw [joinedRelatedReading, h inner rfl]
  | literal value =>
      rw [relatedReading]
      · rfl
      · simp
  | condition operators =>
      rw [relatedReading]
      · rfl
      · simp

section Names

variable (hschema : schema.Consistent)

include hschema

/-- What a filter says depends on the rows under the labels that it speaks about. -/
theorem joinedReading_agree (filter : Filter) : ∀ {known : String} {table : Table},
    schema.table? known = some table → ∀ {row : Row} {joined : JoinedTables}
      {around beside : Bindings},
    (∀ label ∈ filter.labels joined, around.rowAt label = beside.rowAt label) →
    filter.joinedReading schema db table row joined around =
      filter.joinedReading schema db table row joined beside := by
  induction filter using Filter.induct with
  | node allOf anyOf noneOf entries hall hany hnone hentries =>
      intro known table hknown row joined around beside hagree
      have hlists := List.forall_mem_append.mpr ⟨List.forall_mem_append.mpr ⟨hall, hany⟩, hnone⟩
      refine joinedReading_congr (fun filter hfilter => hlists filter hfilter hknown
        fun label hlabel => hagree label (mem_labels.mpr (Or.inr ⟨filter, hfilter, hlabel⟩))) ?_
      rintro ⟨key, operand⟩ hentry relation hrelation
      cases operand with
      | literal value => rfl
      | condition operators => rfl
      | related inner =>
          rw [joinedRelatedReading, joinedRelatedReading, hschema.relation_name hknown hrelation]
          cases hunder : joined.lookup key with
          | none => rfl
          | some under =>
              have hlabels : ∀ label, label = under.label ∨ label ∈ inner.labels under.nested →
                  around.rowAt label = beside.rowAt label :=
                fun label hlabel => hagree label (mem_labels.mpr (Or.inl ⟨_, hentry,
                  Operand.mem_labels.mpr ⟨inner, under, rfl, hunder, hlabel⟩⟩))
              dsimp only
              rw [hlabels under.label (Or.inl rfl)]
              cases htarget : schema.table? under.table with
              | none => rfl
              | some target =>
                  exact hentries _ hentry inner rfl htarget
                    fun label hlabel => hlabels label (Or.inr hlabel)

/-- A filter that avoids what is joined says what it says without joins. -/
theorem joinedReading_unjoined {known : String} {table : Table}
    (hknown : schema.table? known = some table) {joined : JoinedTables} {names : List String}
    (hjoined : ∀ name, name ∉ names → joined.lookup name = none) (row : Row) (around : Bindings)
    (filter : Filter) : filter.Avoids names →
      filter.joinedReading schema db table row joined around =
        filter.reading schema db table row := by
  induction filter using Filter.induct with
  | node allOf anyOf noneOf entries hall hany hnone hentries =>
      intro h
      rw [Filter.Avoids] at h
      obtain ⟨hkeys, hallAvoid, hanyAvoid, hnoneAvoid⟩ := h
      have hsame : ∀ {filters : List Filter}, filtersAvoid names filters →
          (∀ filter ∈ filters, filter.Avoids names →
            filter.joinedReading schema db table row joined around =
              filter.reading schema db table row) →
          joinedReadings schema db filters table row joined around =
            filterReadings schema db filters table row := by
        intro filters havoid hfilters
        rw [joinedReadings_eq_map, filterReadings_eq_map]
        exact List.map_congr_left fun filter hfilter =>
          hfilters filter hfilter (filtersAvoid_iff.mp havoid filter hfilter)
      have hread : joinedEntryReadings schema db entries table row joined around =
          entryReadings schema db entries table row := by
        rw [joinedEntryReadings_eq_flatMap, entryReadings_eq_flatMap]
        refine List.flatMap_congr fun entry hentry => congrArg Option.toList ?_
        refine Operand.entryReading_congr fun relation hrelation => ?_
        have hunder : joined.lookup relation.name = none := by
          rw [hschema.relation_name hknown hrelation]
          exact hjoined entry.1 (hkeys entry hentry)
        exact joinedRelatedReading_unjoined (fun _ _ => hunder) row around
      rw [Filter.joinedReading, Filter.reading, hread, hsame hallAvoid hall,
        hsame hanyAvoid hany, hsame hnoneAvoid hnone]

end Names

end NestedQuery
