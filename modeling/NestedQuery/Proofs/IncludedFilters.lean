import NestedQuery.Proofs.CursorPages
import NestedQuery.Proofs.Reachability
import NestedQuery.Proofs.SeparableFilters

/-!
# Filters beside included relations

A request that includes relations joins them, and its filter then speaks about
the joined rows: a base row is found if one choice of joined rows satisfies the
filter.  A count joins nothing, so that each filter on a relation asks for a
linked row of its own.  Where joined rows settle the filter, a request finds as
many records as it counts.
-/

namespace NestedQuery

variable {schema : Schema} {db : Database} {engine : Engine}

/-! ### Kept rows -/

/-- A predicate keeps the rows that are kept by what it means. -/
theorem passes_eq_keeps {predicate : Option Expr} {reading : Option (Option Bool)}
    {bindings : Bindings} (h : Option.Rel (Means db bindings) predicate reading) :
    db.passes predicate bindings = keeps reading := by
  cases h with
  | none => rfl
  | some hmeans =>
      rw [Database.passes, accepts_of_ok (Expr.truth_ok hmeans), truth_truthValue, keeps,
        beq_eq_decide]

/-- Whether a filter keeps a row beside some choice of joined rows. -/
def Filter.keepsBeside (schema : Schema) (db : Database) (filter : Filter) (table : Table)
    (joined : JoinedTables) (row : Row) : Bool :=
  (tableChoices schema db table.name joined row).any fun choice =>
    keeps (filter.joinedReading schema db table row joined choice)

/-- A separable filter keeps a row beside joined rows exactly if it keeps it without joins. -/
theorem keepsBeside_eq (hschema : schema.Consistent) {table : Table} {joined : JoinedTables}
    {row : Row} (h : StandsAt schema db table joined row) {filter : Filter}
    (hseparable : filter.Separable schema db table joined) :
    filter.keepsBeside schema db table joined row = keeps (filter.reading schema db table row) := by
  rw [Bool.eq_iff_iff, Filter.keepsBeside, List.any_eq_true]
  exact settled hschema filter h hseparable

/-! ### Joins beside a base table -/

/-- A tree of joins beside the rows of a known table.  Its labels are a scope: they are distinct,
they are not the name of the table, and predicates do not make up labels like them. -/
structure JoinedBeside (schema : Schema) (table : Table) (joined : JoinedTables)
    (scope : List String) : Prop where
  known : schema.table? table.name = some table
  within : tablesWithin joined (table.name :: scope)
  labels : (tableSteps table.name joined).map (·.label) = scope
  steps : ∀ step ∈ tableSteps table.name joined, step.Known schema
  nodup : (table.name :: scope).Nodup
  foreign : ∀ label ∈ table.name :: scope, ∀ base n, label ≠ subLabel base n

namespace JoinedBeside

variable {table : Table} {joined : JoinedTables} {scope : List String}
  (h : JoinedBeside schema table joined scope)

include h

/-- The tree stands at every row of the table. -/
theorem standsAt {row : Row} (hrow : row ∈ db.rows table.name) :
    StandsAt schema db table joined row :=
  ⟨h.known, Or.inl hrow, h.steps, h.labels ▸ (List.nodup_cons.mp h.nodup).2⟩

/-- The predicate of a filter keeps a row with a choice of joined rows exactly if the filter keeps
it beside them. -/
theorem passes_beside (hschema : schema.Consistent) (filter : Filter) {row : Row}
    {choice : Bindings} (hchoice : choice ∈ tableChoices schema db table.name joined row) :
    db.passes (schema.predicate? table.name table.name (some filter) joined 0).1
        ((table.name, some row) :: choice) =
      keeps (filter.joinedReading schema db table row joined choice) := by
  have hnames : Dict.names ((table.name, some row) :: choice) = table.name :: scope := by
    rw [← h.labels, ← names_tableChoice hchoice]
    rfl
  have hrow : ((table.name, some row) :: choice).lookup table.name = some (some row) := by
    rw [Dict.lookup_cons, if_pos rfl]
  have hmeans : Option.Rel (Means db ((table.name, some row) :: choice))
      (filter.predicate? schema table table.name joined 0).1
      (filter.joinedReading schema db table row joined ((table.name, some row) :: choice)) :=
    Filter.predicate?_joined filter table table.name 0 (reads_of_some hrow)
      (fun base m _ => h.foreign table.name List.mem_cons_self base m)
      ⟨h.within, hnames ▸ List.Subset.refl _, h.foreign⟩
  have hsame : filter.joinedReading schema db table row joined ((table.name, some row) :: choice) =
      filter.joinedReading schema db table row joined choice := by
    refine joinedReading_agree hschema filter h.known fun label hlabel => ?_
    have hmem := h.labels ▸ labels_subset filter table.name joined hlabel
    have hne : label ≠ table.name := fun heq => (List.nodup_cons.mp h.nodup).1 (heq ▸ hmem)
    rw [Bindings.rowAt, Bindings.rowAt, Dict.lookup_cons, if_neg hne]
  unfold Schema.predicate?
  rw [h.known]
  dsimp only
  rw [passes_eq_keeps hmeans, hsame]

end JoinedBeside

/-- The joins of a plan are a tree beside the base table, under labels that predicates do not make
up; the table must not have the name of such a label, or of a label of predicates. -/
theorem Shape.joinedBeside (hschema : schema.Consistent) {table : Table}
    (hknown : schema.table? table.name = some table) {shape : Shape}
    (hproper : shape.Proper schema table.name) (hown : ∀ base n, table.name ≠ subLabel base n)
    (hlabels : ∀ join ∈ (shape.layout schema table.name []).2.joins, join.label ≠ table.name) :
    JoinedBeside schema table (shape.layout schema table.name []).1.joinedTables
      ((shape.layout schema table.name []).2.joins.map (·.label)) := by
  obtain ⟨hjoins, hnodup⟩ := @Shape.layout_joins schema shape table.name []
  obtain ⟨hsteps, hknownSteps⟩ := (Shape.layout_planned hschema hproper []).steps
  have hwithin := (@Shape.layout_within schema shape table.name []).2.joinedTables
  have hnumbered := (@Shape.layout_numbered schema shape table.name []).numbered
  constructor
  case known => exact hknown
  case within => exact hwithin
  case labels => rw [hsteps, hjoins]
  case steps => exact hknownSteps
  case nodup =>
    refine List.nodup_cons.mpr ⟨fun hmem => ?_, hnodup⟩
    obtain ⟨join, hjoin, hlabel⟩ := List.mem_map.mp hmem
    exact hlabels join hjoin hlabel
  case foreign =>
    refine List.forall_mem_cons.mpr ⟨hown, List.forall_mem_map.mpr fun join hjoin base n => ?_⟩
    obtain ⟨name, number, -, hlabel⟩ := hnumbered join hjoin
    rw [hlabel]
    exact label_ne_subLabel name number base n

/-! ### Joined rows -/

/-- The request asks for all records that a filter keeps, in no order. -/
structure FindArgs.AllOf (args : FindArgs) (filter : Filter) : Prop where
  whole : args.Whole
  filter : args.filter = some filter
  unordered : args.orderBy = none

section Joined

variable {table : Table} {args : FindArgs} {filter : Filter} {shape : Shape} {layout : Layout}
  {planner : Planner} (hplanned : shape.Planned engine.schema table.name layout)
  (hplain : shape.Throughout engine.schema (fun _ branch _ => branch.WithoutClauses) table.name)
  (hqualifier : layout.qualifier = table.name)
  (hjoins : planner.joins = layout.joins engine.schema)
  (hbeside : JoinedBeside engine.schema table layout.joinedTables (planner.joins.map (·.label)))

include hplanned hplain hqualifier hjoins hbeside

/-- The joins extend a base row by the choices of joined rows. -/
theorem tuples_eq : planner.tuples db table.name = (db.rows table.name).flatMap fun row =>
    (tableChoices engine.schema db table.name layout.joinedTables row).map
      ((table.name, some row) :: ·) := by
  have hleft : shape.Throughout engine.schema LeftBranch table.name :=
    hplain.mono fun _ _ _ hclauses => hclauses.joinKind
  unfold Planner.tuples
  rw [hjoins]
  exact List.flatMap_congr fun row _ =>
    hplanned.extensions_base hleft hqualifier (hjoins ▸ hbeside.nodup) row

variable (hschema : engine.schema.Consistent) (hmost : engine.settings.maxTake = none)
  (hargs : args.AllOf filter) (hwithin : layout.Within (planner.scope table.name))

include hschema hmost hargs hwithin

/-- The joined statement selects the base rows that the filter keeps beside joined rows, each with
the choices beside which it is kept. -/
theorem joinedTuples_eq : engine.joinedTuples db table args (engine.paging args) layout planner =
    ((db.rows table.name).filter
      (filter.keepsBeside engine.schema db table layout.joinedTables)).flatMap fun row =>
        ((tableChoices engine.schema db table.name layout.joinedTables row).filter fun choice =>
          keeps (filter.joinedReading engine.schema db table row layout.joinedTables choice)).map
            ((table.name, some row) :: ·) := by
  have hclauses := hplanned.clauses_none hplain 0
  have hunordered : (engine.joinedStatement table args (engine.paging args) layout planner).orderBy =
      none := by
    rw [joinedStatement_frame, hclauses, hargs.whole.paging hmost]
    simp [Engine.baseOrder, Schema.sortKeys, hargs.unordered, hargs.whole.cursor, orderClause]
  have hpasses : ∀ row ∈ db.rows table.name,
      ∀ choice ∈ tableChoices engine.schema db table.name layout.joinedTables row,
      db.passes (engine.joinedStatement table args (engine.paging args) layout planner).filter
          ((table.name, some row) :: choice) =
        keeps (filter.joinedReading engine.schema db table row layout.joinedTables choice) := by
    intro row hrow choice hchoice
    have htuple : (table.name, some row) :: choice ∈ planner.tuples db table.name := by
      rw [tuples_eq hplanned hplain hqualifier hjoins hbeside]
      exact List.mem_flatMap.mpr ⟨row, hrow, List.mem_map_of_mem hchoice⟩
    rw [passes_joinedStatement hwithin htuple, hargs.filter,
      hbeside.passes_beside hschema filter hchoice, hclauses, hargs.whole.cursor]
    simp [Database.passes, Expr.conjunction?, Expr.joinAll?]
  unfold Engine.joinedTuples
  dsimp only
  rw [hunordered, inOrder, tuples_eq hplanned hplain hqualifier hjoins hbeside, List.filter_flatMap,
    flatMap_filter]
  refine List.flatMap_congr fun row hrow => ?_
  have hkept : List.filter (db.passes (engine.joinedStatement table args (engine.paging args) layout
      planner).filter ∘ ((table.name, some row) :: ·))
        (tableChoices engine.schema db table.name layout.joinedTables row) =
      (tableChoices engine.schema db table.name layout.joinedTables row).filter fun choice =>
        keeps (filter.joinedReading engine.schema db table row layout.joinedTables choice) :=
    List.filter_congr fun choice hchoice => hpasses row hrow choice hchoice
  rw [List.filter_map, hkept]
  split
  · rfl
  · next hnone =>
      rw [Bool.not_eq_true, Filter.keepsBeside, List.any_eq_false] at hnone
      rw [List.filter_eq_nil_iff.mpr hnone, List.map_nil]

/-- Folded they are a record for each of these base rows, with its values. -/
theorem foldedRecords_shows (hbegins : layout.Begins engine.schema table.name)
    (hapart : ApartBy layout.key (db.rows table.name)) :
    List.Forall₂ (fun row record => ∀ field ∈ layout.fields, record.scalar field = row.value field)
      ((db.rows table.name).filter
        (filter.keepsBeside engine.schema db table layout.joinedTables))
      (engine.foldedRecords db table args (engine.paging args) layout planner) := by
  let block := fun row : Row => ((tableChoices engine.schema db table.name layout.joinedTables
    row).filter fun choice => keeps (filter.joinedReading engine.schema db table row
      layout.joinedTables choice)).map fun choice => (table.name, some row) :: choice
  have hsome : ∀ row ∈ (db.rows table.name).filter
      (filter.keepsBeside engine.schema db table layout.joinedTables), block row ≠ [] := by
    intro row hrow
    obtain ⟨choice, hchoice, hkeeps⟩ := List.any_eq_true.mp (List.mem_filter.mp hrow).2
    exact List.ne_nil_of_mem (List.mem_map_of_mem (List.mem_filter.mpr ⟨hchoice, hkeeps⟩))
  have hblock : ∀ row, ∀ tuple ∈ block row, ∃ more, tuple = (table.name, some row) :: more := by
    intro row tuple htuple
    obtain ⟨choice, -, rfl⟩ := List.mem_map.mp htuple
    exact ⟨choice, rfl⟩
  rw [hargs.whole.foldedRecords hmost,
    joinedTuples_eq hplanned hplain hqualifier hjoins hbeside hschema hmost hargs hwithin,
    hbegins.assemble_blocks hapart List.filter_sublist hsome fun row _ => hblock row]
  refine List.forall₂_map_right_iff.mpr (List.forall₂_same.mpr fun row hrow field hfield => ?_)
  exact hbegins.scalar_block (hsome row hrow) (hblock row) hfield

end Joined

/-! ### Rows without joins -/

section Alone

variable {table : Table} (hknown : engine.schema.table? table.name = some table)
  (hown : ∀ base n, table.name ≠ subLabel base n)

include hknown hown

/-- Without joins the predicate of a filter keeps the base rows that the filter keeps. -/
theorem passes_alone (filter : Filter) (row : Row) :
    db.passes (engine.schema.predicate? table.name table.name (some filter) [] 0).1
      [(table.name, some row)] = keeps (filter.reading engine.schema db table row) := by
  have hrow : ([(table.name, some row)] : Bindings).lookup table.name = some (some row) := by
    rw [Dict.lookup_cons, if_pos rfl]
  have hmeans : Option.Rel (Means db [(table.name, some row)])
      (filter.predicate? engine.schema table table.name [] 0).1
      (filter.reading engine.schema db table row) :=
    Filter.predicate?_means filter table table.name 0 (reads_of_some hrow)
      fun base n _ => hown base n
  unfold Schema.predicate?
  rw [hknown]
  exact passes_eq_keeps hmeans

/-- The base rows that a request shows are those that its filter keeps. -/
theorem shownRows_eq {args : FindArgs} {filter : Filter} (hmost : engine.settings.maxTake = none)
    (hargs : args.AllOf filter) : engine.shownRows db table args (engine.paging args) =
      (db.rows table.name).filter fun row => keeps (filter.reading engine.schema db table row) := by
  have hpasses : ∀ row, db.passes
      (engine.baseStatement table args (engine.paging args) [] true).filter [(table.name, some row)] =
        keeps (filter.reading engine.schema db table row) := by
    intro row
    rw [passes_baseStatement List.mem_cons_self (noTables_within _) (List.Subset.refl _),
      hargs.filter, passes_alone hknown hown, hargs.whole.cursor]
    exact Bool.and_true _
  have hframe : (engine.baseStatement table args (engine.paging args) [] true).window = none ∧
      (engine.baseStatement table args (engine.paging args) [] true).orderBy = none := by
    rw [hargs.whole.paging hmost]
    simp [Engine.baseStatement, Engine.baseOrder, Schema.sortKeys, hargs.unordered,
      hargs.whole.cursor, orderClause]
  unfold Engine.shownRows
  dsimp only
  rw [hframe.1, hframe.2, selected_eq]
  exact List.filter_congr fun row _ => hpasses row

/-- A request counts the base rows that its filter keeps. -/
theorem count_result (filter : Filter) :
    ((engine.count table.name { filter := some filter }).hold Database.source db).result =
      .ok ((db.rows table.name).filter fun row =>
        keeps (filter.reading engine.schema db table row)).length := by
  unfold Engine.count
  rw [countWhere_hold_rows engine hknown (selectRows_count table.name (some filter)),
    List.length_map]
  refine congrArg (fun rows => Except.ok (List.length rows)) (List.filter_congr fun row _ => ?_)
  exact passes_alone hknown hown filter row

end Alone

/-! ### Found records -/

/-- Where nothing is joined a filter keeps a row beside joined rows if it keeps the row. -/
theorem keepsBeside_nil (hschema : schema.Consistent) {table : Table}
    (hknown : schema.table? table.name = some table) (filter : Filter) (row : Row) :
    filter.keepsBeside schema db table [] row = keeps (filter.reading schema db table row) := by
  have havoids : filter.Avoids [] := by
    induction filter using Filter.induct with
    | node allOf anyOf noneOf entries hall hany hnone hentries =>
        rw [Filter.Avoids]
        exact ⟨fun _ _ => List.not_mem_nil, filtersAvoid_iff.mpr hall, filtersAvoid_iff.mpr hany,
          filtersAvoid_iff.mpr hnone⟩
  rw [Filter.keepsBeside, tableChoices, List.any_cons, List.any_nil, Bool.or_false,
    joinedReading_unjoined hschema hknown (fun _ _ => rfl) row [] filter havoids]

/-- A plan without joins joins no table. -/
theorem joinedTables_eq_nil {shape : Shape} {table : String} {layout : Layout}
    (hplanned : shape.Planned schema table layout) (hnone : layout.joins schema = []) :
    layout.joinedTables = [] := by
  have hlabels := hplanned.steps.1
  rw [hnone] at hlabels
  cases htables : layout.joinedTables with
  | nil => rfl
  | cons first rest =>
      obtain ⟨name, target, label, nested⟩ := first
      rw [htables, tableSteps, JoinedTable.steps] at hlabels
      cases hlabels

/-- The included relations bring no clauses along.  The table has no name like a label of predicates
or of a join. -/
structure PlainlyJoined (schema : Schema) (table : String) (shape : Shape) : Prop where
  plain : shape.Throughout schema (fun _ branch _ => branch.WithoutClauses) table
  own : ∀ base n, table ≠ subLabel base n
  labels : ∀ join ∈ (shape.layout schema table []).2.joins, join.label ≠ table

section Found

variable {table : Table} {args : FindArgs} {filter : Filter} {shape : Shape}
  (hschema : engine.schema.Consistent) (hdb : db.Valid)
  (hknown : engine.schema.table? table.name = some table)
  (hproper : shape.Proper engine.schema table.name)
  (hincluded : PlainlyJoined engine.schema table.name shape)
  (hargs : args.AllOf filter) (hmost : engine.settings.maxTake = none)

include hincluded in
/-- Nothing is sorted, so nothing is compared. -/
theorem PlainlyJoined.sortsAlone (hschema : engine.schema.Consistent) :
    shape.Throughout engine.schema (SortsAlone engine.schema db) table.name := by
  have hunsorted := hincluded.plain.mono fun _ branch _ (hclauses : branch.WithoutClauses) =>
    show branch.orderBy.isNone = true by rw [hclauses.orderBy, Option.isNone_none]
  exact (sortsByOrdered_of_unsorted hunsorted).mono fun _ _ _ hsorts => hsorts.alone hschema

include hschema hdb hproper hincluded hargs hmost

include hknown in
/-- By a joined statement a request finds a record for each base row that its filter keeps beside
joined rows, with its values. -/
theorem findJoined_shows {layout : Layout} {planner : Planner}
    (hplan : shape.layout engine.schema table.name [] = (layout, planner))
    (hapart : ApartBy (engine.schema.usableKey table.name) (db.rows table.name)) :
    (engine.findJoined table args (engine.paging args) layout planner).Gives db.run fun records =>
      List.Forall₂ (fun row record => ∀ field ∈ shape.fields, record.scalar field = row.value field)
        ((db.rows table.name).filter
          (filter.keepsBeside engine.schema db table layout.joinedTables)) records := by
  have hbegins := Shape.layout_begins hschema hproper []
  have hplanned := Shape.layout_planned hschema hproper []
  have hjoins := (@Shape.layout_joins engine.schema shape table.name []).1
  have hbeside := Shape.joinedBeside hschema hknown hproper hincluded.own hincluded.labels
  have hwithin := (@Shape.layout_within engine.schema shape table.name []).2
  rw [hplan] at hbegins hplanned hjoins hbeside hwithin
  have hrowwise : ∀ join ∈ planner.joins, Rowwise join.clause := by
    intro join hjoin
    rw [hjoins] at hjoin
    obtain ⟨⟨-, branch, hclauses, hkind⟩, -⟩ := hplanned.mem_joins hincluded.plain join hjoin
    exact Or.inl (hkind.trans hclauses.joinKind)
  have hkey : ApartBy layout.key (db.rows table.name) := hbegins.key_eq ▸ hapart
  intro records hrecords
  rw [findJoined_loaded hschema hdb hproper (hincluded.sortsAlone hschema) (engine.paging args) hplan
    hrowwise hkey hargs.whole.distinct records hrecords]
  refine List.forall₂_map_right_iff.mpr (List.Forall₂.imp ?_ (foldedRecords_shows hplanned
    hincluded.plain hbegins.qualifier_eq hjoins hbeside hschema hmost hargs hwithin hbegins hkey))
  intro row record hshows field hfield
  rw [scalar_strip_loaded hplanned hproper record hfield]
  exact hshows field (hplanned.fields_eq ▸ hfield)

include hknown in
/-- By separate statements it finds a record for each base row that its filter keeps. -/
theorem findSeparately_shows :
    (engine.findSeparately table args (engine.paging args) shape).Gives db.run fun records =>
      List.Forall₂ (fun row record => ∀ field ∈ shape.fields, record.scalar field = row.value field)
        ((db.rows table.name).filter fun row => keeps (filter.reading engine.schema db table row))
        records := by
  intro records hrecords
  rw [findSeparately_loaded hschema hdb hproper (hincluded.sortsAlone hschema) hknown
    (engine.paging args) hargs.whole.distinct records hrecords,
    shownRows_eq hknown hincluded.own hmost hargs]
  refine List.forall₂_map_right_iff.mpr (List.forall₂_same.mpr fun row _ field hfield => ?_)
  exact scalar_shown_loaded hproper row _ hfield

end Found

/-- Without selection and omission all columns of a table are shown. -/
theorem fields_of_included {table : Table} (hknown : schema.table? table.name = some table)
    (included : Option Choices) : (schema.shape table.name none included none).fields =
      table.columnNames := by
  unfold Schema.shape
  rw [hknown]
  exact List.filter_eq_self.mpr fun _ _ => rfl

/-- **Filters beside included relations.**  Take a table whose rows are told apart by their keys, a
filter, and included relations that bring no clauses along, under settings without a greatest page.
By the join strategy the request finds one record for each base row that the filter keeps beside
some choice of its joined rows, with the values of the row.  A count counts the rows that the filter
keeps without joins.  If joined rows settle the filter, these are the same rows, so that as many
records are found as are counted. -/
theorem included_find_and_count {schema : Schema} (h : schema.Reachable) {settings : Settings}
    (hmost : settings.maxTake = none) {db : Database} (hdb : db.Valid) {table : Table}
    (hknown : schema.table? table.name = some table) (hkeyed : schema.usableKey table.name ≠ [])
    (hapart : ApartBy (schema.usableKey table.name) (db.rows table.name)) (filter : Filter)
    (included : Option Choices)
    (hincluded : PlainlyJoined schema table.name (schema.shape table.name none included none)) :
    let engine : Engine := ⟨schema, settings⟩
    let args : FindArgs := { filter := some filter, included, strategy := some .join }
    let find := ((engine.findMany table.name args).hold Database.source db).result
    let count := ((engine.count table.name { filter := some filter }).hold Database.source db).result
    let joined := ((schema.shape table.name none included none).layout schema table.name
      []).1.joinedTables
    ∃ records, find = .ok records ∧
      List.Forall₂
        (fun row record => ∀ column ∈ table.columnNames, record.scalar column = row.value column)
        ((db.rows table.name).filter (filter.keepsBeside schema db table joined)) records ∧
      count = .ok ((db.rows table.name).filter fun row =>
        keeps (filter.reading schema db table row)).length ∧
      (filter.Separable schema db table joined →
        (∀ row ∈ db.rows table.name, filter.keepsBeside schema db table joined row =
          keeps (filter.reading schema db table row)) ∧ count = .ok records.length) := by
  intro engine args find count joined
  let shape := schema.shape table.name none included none
  have hschema : engine.schema.Consistent := h.consistent
  have hproper : shape.Proper engine.schema table.name := schema.shape_proper table.name none included none
  have hargs : args.AllOf filter := ⟨⟨rfl, rfl, rfl, rfl⟩, rfl, rfl⟩
  have hfields : shape.fields = table.columnNames := fields_of_included hknown included
  have hsome : shape.fields ≠ [] := by
    obtain ⟨column, hcolumn⟩ := List.exists_mem_of_ne_nil _ hkeyed
    have hhas := hasColumn_of_usableKey hcolumn
    rw [Schema.hasColumn, hknown, Option.any_some, Table.hasColumn, List.any_eq_true] at hhas
    obtain ⟨known, hmem, -⟩ := hhas
    rw [hfields]
    exact List.ne_nil_of_mem (List.mem_map_of_mem hmem)
  have hgives : (engine.findMany table.name args).Gives db.run fun records =>
      List.Forall₂ (fun row record => ∀ field ∈ shape.fields, record.scalar field = row.value field)
        ((db.rows table.name).filter (filter.keepsBeside schema db table joined)) records := by
    have hforwards : (engine.paging args).backwards = false := by
      rw [hargs.whole.paging hmost]
    have hcolumns : table.distinctColumns none = [] := rfl
    unfold Engine.findMany
    rw [show engine.schema.table? table.name = some table from hknown]
    dsimp only
    rw [show args.distinct = none from rfl, hcolumns]
    split
    · exact gives_forwards (findJoined_shows hschema hdb hknown hproper hincluded hargs hmost rfl
        hapart) hforwards
    · next hnone =>
        have hempty : (shape.layout schema table.name []).2.joins = [] := by
          by_contra hsomeJoin
          exact hnone ⟨rfl, by simpa using hsomeJoin⟩
        have htables : joined = [] := joinedTables_eq_nil (Shape.layout_planned hschema hproper [])
          ((Shape.layout_joins shape table.name []).1 ▸ hempty)
        have hkeeps : filter.keepsBeside schema db table [] =
            fun row => keeps (filter.reading schema db table row) :=
          funext (keepsBeside_nil hschema hknown filter)
        rw [htables, hkeeps]
        exact gives_forwards (findSeparately_shows hschema hdb hknown hproper hincluded hargs hmost)
          hforwards
  have hcount := @count_result db engine table hknown hincluded.own filter
  obtain ⟨records, hrecords⟩ := ((findMany_asks hschema hknown args).hold_ok
    fun statement hscoped => hscoped.run_ok db).1
  have hshows := hgives records ((Load.hold_result _ db).symm.trans hrecords)
  refine ⟨records, hrecords, hfields ▸ hshows, hcount, fun hseparable => ?_⟩
  have hbeside := Shape.joinedBeside hschema hknown hproper hincluded.own hincluded.labels
  have hsame : ∀ row ∈ db.rows table.name, filter.keepsBeside schema db table joined row =
      keeps (filter.reading schema db table row) :=
    fun row hrow => keepsBeside_eq hschema (hbeside.standsAt hrow) hseparable
  refine ⟨hsame, ?_⟩
  rw [← hshows.length_eq, List.filter_congr hsame]
  exact hcount

/-- Of the blog, just the author of a post about keys is found with posts, and one author is
counted. -/
theorem included_find_and_count_blog :
    let engine : Engine := ⟨Schema.ofDecls blogTables, {}⟩
    let filter : Filter :=
      .node [] [] [] [("posts", .related (.node [] [] [] [("title", .literal (.text "Keys"))]))]
    let args : FindArgs :=
      { filter := some filter, included := some [("posts", .flag true)], strategy := some .join }
    ∃ records, ((engine.findMany "Author" args).hold Database.source blogRows).result = .ok records ∧
      records.map (·.scalar "name") = [.text "Ann"] ∧
      ((engine.count "Author" { filter := some filter }).hold Database.source blogRows).result =
        .ok records.length := by
  intro engine filter args
  obtain ⟨known, hknown, hname⟩ := exists_blog_author
  have hvalid : blogRows.Valid := Database.valid_of_entries (by decide +kernel)
  have hincluded : PlainlyJoined (Schema.ofDecls blogTables) known.name
      ((Schema.ofDecls blogTables).shape known.name none args.included none) := by
    rw [hname]
    constructor
    case plain => decide +kernel
    case own =>
      have hlast : ("Author" : String).toList.getLast? = some 'r' := by decide
      exact ne_subLabel hlast (by decide)
    case labels => decide +kernel
  obtain ⟨records, hfind, hshows, -, hcount⟩ := @included_find_and_count (Schema.ofDecls blogTables)
    reachable_blog {} rfl blogRows hvalid known (hname ▸ hknown) (by rw [hname]; decide +kernel)
    (by rw [hname]; decide +kernel) filter args.included hincluded
  rw [hname] at hfind hshows hcount
  let joined := (((Schema.ofDecls blogTables).shape "Author" none args.included none).layout
    (Schema.ofDecls blogTables) "Author" []).1.joinedTables
  have htable : ((Schema.ofDecls blogTables).table? "Author").all (fun table =>
      decide (filter.Separable (Schema.ofDecls blogTables) blogRows table joined ∧
        "name" ∈ table.columnNames ∧ ((blogRows.rows "Author").filter
          (filter.keepsBeside (Schema.ofDecls blogTables) blogRows table joined)).map
            (·.value "name") = [.text "Ann"])) = true := by decide +kernel
  rw [hknown, Option.all_some, decide_eq_true_eq] at htable
  obtain ⟨hseparable, hcolumn, hnames⟩ := htable
  refine ⟨records, hfind, ?_, (hcount hseparable).2⟩
  have hvalues : List.Forall₂ (fun row record => row.value "name" = record.scalar "name")
      ((blogRows.rows "Author").filter
        (filter.keepsBeside (Schema.ofDecls blogTables) blogRows known joined)) records :=
    hshows.imp fun row record hrecord => (hrecord "name" hcolumn).symm
  rw [← hnames]
  have hmapped := List.forall₂_map_right_iff.mpr (List.forall₂_map_left_iff.mpr hvalues)
  rw [List.forall₂_eq_eq_eq] at hmapped
  exact hmapped.symm

/-- A request may find more or fewer records than it counts: where what is asked of a joined
relation is denied, holds of nulls, or is asked of several rows; where a table has the name of a
label; and where keys have the same text. -/
theorem included_counts_differ :
    let outcome := fun (decls : List TableDecl) (db : Database) (table relation : String)
        (filter : Filter) =>
      let engine : Engine := ⟨Schema.ofDecls decls, {}⟩
      let args : FindArgs :=
        { filter := some filter, included := some [(relation, .flag true)], strategy := some .join }
      (decide ((db.rows table).map fun row => (engine.schema.usableKey table).map row.value).Nodup,
        ((engine.findMany table args).hold Database.source db).result.toOption.map List.length,
        ((engine.count table { filter := some filter }).hold Database.source db).result.toOption)
    let titled := fun title : Value =>
      Filter.node [] [] [] [("posts", .related (.node [] [] [] [("title", .literal title)]))]
    let renamed := fun author : String =>
      outcome
        [{ name := author
           columns := [{ name := "id", type := .integer, primary := true }] },
         { name := "Post"
           columns := [{ name := "id", type := .integer, primary := true }, { name := "title" },
             { name := "authorId", type := .integer, references := some ⟨author, "id"⟩ }] }]
        [(author, blogRows.rows "Author"), ("Post", blogRows.rows "Post")] author "posts"
        (titled (.text "Keys"))
    outcome blogTables blogRows "Author" "posts" (.node [] [] [titled (.text "Sorts")] []) =
        (true, some 1, some 2) ∧
      outcome blogTables blogRows "Author" "posts" (titled .null) = (true, some 1, some 0) ∧
      outcome blogTables blogRows "Author" "posts"
          (.node [titled (.text "Joins"), titled (.text "Keys")] [] [] []) =
        (true, some 0, some 1) ∧
      renamed "posts_1" = (true, some 0, some 1) ∧
      renamed "posts_sq1" = (true, some 1, some 0) ∧
      outcome
          [{ name := "Pair", columns := [{ name := "a" }, { name := "b" }], primaryKey := ["a", "b"] },
           { name := "Note"
             columns := [{ name := "id", type := .integer, primary := true },
               { name := "pair", references := some ⟨"Pair", "a"⟩ }] }]
          [("Pair", [[("a", .text "x"), ("b", .text "y\x1fs:z")],
            [("a", .text "x\x1fs:y"), ("b", .text "z")]])]
          "Pair" "notes" (.node [] [] [] []) =
        (true, some 1, some 2) := by
  decide +kernel

end NestedQuery
