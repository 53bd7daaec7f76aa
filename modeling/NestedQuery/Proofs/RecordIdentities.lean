import NestedQuery.Proofs.JoinedChoices
import NestedQuery.Proofs.RecordWindows
import NestedQuery.Proofs.RelatedCounts
import NestedQuery.Proofs.SortableRequests

/-!
# As many records as identities

Joined rows do not say which of them belong to one record.  Folding goes by
identities: the values of the primary key, or those of all columns that are
carried along if the table has no usable key.  Rows of one identity make one
record, beneath which stands what is joined to any of them, and a joined row of
nulls makes none.  So a joined statement yields as many records as there are
identities, on the base table as in each joined relation.
-/

namespace NestedQuery

variable {schema : Schema} {db : Database} {engine : Engine}

/-! ### Identities -/

/-- The texts that tell apart the records that rows of a table make, each once. -/
def Layout.identities (layout : Layout) (rows : List Row) : List String :=
  ((rows.filter layout.isPresent).map layout.rowKey).dedup

/-- Rows of which the same ones make records have the same identities. -/
theorem Layout.identities_perm {layout : Layout} {rows others : List Row}
    (h : ∀ row, layout.isPresent row = true → (row ∈ rows ↔ row ∈ others)) :
    (layout.identities rows).Perm (layout.identities others) := by
  refine (List.perm_ext_iff_of_nodup (List.nodup_dedup _) (List.nodup_dedup _)).mpr fun text => ?_
  simp only [List.mem_dedup, List.mem_map, List.mem_filter]
  exact exists_congr fun row => and_congr_left fun _ => and_congr_left fun hpresent => h row hpresent

/-- Of all base rows the identities are the keys. -/
theorem Layout.identities_base {layout : Layout} (hbase : layout.isBase = true) (rows : List Row) :
    layout.identities rows = (rows.map layout.rowKey).dedup := by
  have hpresent : ∀ row ∈ rows, layout.isPresent row = true := by
    intro row _
    rw [Layout.isPresent, hbase, Bool.true_or]
  rw [Layout.identities, List.filter_eq_self.mpr hpresent]

/-- The first items of each key have all keys, each once. -/
theorem firstOfEach_keys_perm {α : Type} (key : α → String) (items : List α) :
    ((firstOfEach key [] items).map key).Perm (items.map key).dedup := by
  refine (List.perm_ext_iff_of_nodup (firstOfEach_keys [] items).1 (List.nodup_dedup _)).mpr
    fun text => ?_
  rw [List.mem_dedup, List.mem_map, List.mem_map]
  constructor
  · exact fun ⟨first, hfirst, hkey⟩ => ⟨first, (firstOfEach_sublist _ _ _).subset hfirst, hkey⟩
  · rintro ⟨item, hitem, rfl⟩
    exact (exists_firstOfEach key [] hitem).resolve_left List.not_mem_nil

theorem length_groupsOf {α : Type} (key : α → String) (items : List α) :
    (groupsOf key items).length = (items.map key).dedup.length := by
  rw [groupsOf, List.length_map, ← List.length_map key, (firstOfEach_keys_perm key items).length_eq]

/-- A table of a layout makes as many records of joined rows as its rows have identities. -/
theorem Layout.Shows.assemble_length {layout part : Layout} (h : layout.Shows part)
    (tuples : List Bindings) : (part.assemble (tuples.map layout.yield)).length =
      (part.identities (tuples.map (·.rowOf part.qualifier))).length := by
  rw [h.assemble_yield, List.length_map, length_groupsOf, Layout.identities, List.filter_map,
    List.map_map]
  rfl

/-- The rows are told apart: each of them makes a record, and no two have the same key. -/
structure Layout.TellsApart (layout : Layout) (rows : List Row) : Prop where
  present : ∀ row ∈ rows, layout.isPresent row = true
  apart : (rows.map layout.rowKey).Nodup

instance (layout : Layout) (rows : List Row) : Decidable (layout.TellsApart rows) :=
  decidable_of_iff ((∀ row ∈ rows, layout.isPresent row = true) ∧ (rows.map layout.rowKey).Nodup)
    ⟨fun ⟨present, apart⟩ => ⟨present, apart⟩, fun h => ⟨h.present, h.apart⟩⟩

/-- They have as many identities as they are. -/
theorem Layout.TellsApart.length_identities {layout : Layout} {rows : List Row}
    (h : layout.TellsApart rows) : (layout.identities rows).length = rows.length := by
  rw [Layout.identities, List.filter_eq_self.mpr h.present, List.dedup_eq_self.mpr h.apart,
    List.length_map]

/-- Of rows that are told apart only one has the key of one of them. -/
theorem Layout.TellsApart.filter_rowKey {layout : Layout} {rows : List Row}
    (h : layout.TellsApart rows) {row : Row} (hrow : row ∈ rows) :
    (rows.filter fun other => layout.rowKey other == layout.rowKey row) = [row] := by
  have hblocks := @filter_blocks _ _ layout.rowKey rows layout.rowKey (fun other => [other])
    (fun other _ one hone => congrArg _ (List.mem_singleton.mp hone)) h.apart row hrow
  rwa [List.flatMap_singleton'] at hblocks

/-! ### Statements without columns -/

/-- A layout whose tables carry no column tells none of its rows apart. -/
theorem Layout.Named.bare {layout : Layout} (h : layout.Named) (hnone : layout.projection = []) :
    layout.columns = [] ∧ layout.identity = [] := by
  obtain ⟨hlength, hidentity⟩ := h.level
  obtain ⟨_, _, _, _, columns, outputs, key, _, _, _⟩ := layout
  rw [Layout.projection] at hnone
  have hzip := List.map_eq_nil_iff.mp (List.append_eq_nil_iff.mp hnone).1
  have hcolumns : columns = [] := by
    have := congrArg List.length hzip
    rw [List.length_zip] at this
    refine List.length_eq_zero_iff.mp ?_
    dsimp only at hlength
    simp only [List.length_nil] at this
    omega
  subst hcolumns
  have houtputs : outputs = [] := List.length_eq_zero_iff.mp hlength
  refine ⟨rfl, hidentity.trans ?_⟩
  dsimp only
  rw [houtputs, outputsOf]
  simp

/-- A joined table without columns has no match. -/
theorem Layout.assemble_unidentified {layout : Layout} (hidentity : layout.identity = [])
    (hbase : layout.isBase = false) (rows : List Row) : layout.assemble rows = [] := by
  have hunmatched : rows.filter layout.isMatched = [] := by
    refine List.filter_eq_nil_iff.mpr fun row _ => ?_
    rw [Layout.isMatched, hbase, hidentity]
    exact Bool.false_ne_true
  rw [Layout.assemble_eq, Layout.groups, hunmatched]
  rfl

/-- What a base layout without columns makes of rows depends on how many they are. -/
theorem Layout.Begins.assemble_bare {layout : Layout} {table : String}
    (h : layout.Begins schema table)
    (hjoined : ∀ joined ∈ layout.relations, joined.layout.isBase = false)
    (hnone : layout.projection = []) {rows others : List Row} (hlength : rows.length = others.length) :
    layout.assemble rows = layout.assemble others := by
  obtain ⟨hcolumns, hidentity⟩ := h.named.bare hnone
  have hbeneath : ∀ joined ∈ layout.relations, joined.layout.identity = [] := by
    intro joined hmem
    have hnamed := h.named
    obtain ⟨_, _, _, _, _, _, _, _, _, _⟩ := layout
    rw [Layout.Named] at hnamed
    rw [Layout.projection] at hnone
    obtain ⟨hnamedJoined, hsubset⟩ := branchesNamed_mem hnamed.2.2 joined hmem
    rw [(List.append_eq_nil_iff.mp hnone).2] at hsubset
    exact (hnamedJoined.bare (List.subset_nil.mp hsubset)).2
  have hfold : ∀ group, layout.fold group = Dict.putAll [] (layout.relations.map fun joined =>
      (joined.name, .ofRelated joined.isToMany (joined.branch.page []))) := by
    intro group
    rw [Layout.fold, Layout.columnValues, hcolumns, assembleBranches_eq]
    refine congrArg _ (List.map_congr_left fun joined hmem => ?_)
    rw [joined.layout.assemble_unidentified (hbeneath joined hmem) (hjoined joined hmem)]
  have hmatched : ∀ rows : List Row, rows.filter layout.isMatched = rows := fun rows =>
    List.filter_eq_self.mpr fun row _ => by rw [Layout.isMatched, h.isBase, Bool.true_or]
  have hrows : ∀ rows : List Row, layout.assemble rows =
      List.replicate (List.replicate rows.length (Value.jointKey [])).dedup.length
        (Dict.putAll [] (layout.relations.map fun joined =>
          (joined.name, .ofRelated joined.isToMany (joined.branch.page [])))) := by
    intro rows
    rw [Layout.assemble_eq, List.map_congr_left fun group _ => hfold group, List.map_const',
      Layout.groups, length_groupsOf, hmatched, hidentity]
    exact congrArg (fun texts : List String => List.replicate texts.dedup.length _) List.map_const'
  rw [hrows, hrows, hlength]

/-! ### Choices of one relation -/

/-- The rows that joined rows hold of a relation are those that its join finds. -/
theorem exists_choice_row {table name : String} {under : JoinedTable} {joined : JoinedTables}
    (hnodup : ((tableSteps table joined).map (·.label)).Nodup)
    (hunder : joined.lookup name = some under) {row other : Row} :
    (∃ choice ∈ tableChoices schema db table joined row,
      choice.lookup under.label = some (some other)) ↔
        other ∈ schema.joinedRows db table name row := by
  obtain ⟨target, label, nested⟩ := under
  have hlabel : label ∈ ((JoinedTable.mk target label nested).steps table name).map (·.label) := by
    rw [JoinedTable.steps]
    exact List.mem_cons_self
  constructor
  · rintro ⟨choice, hchoice, hlookup⟩
    obtain ⟨part, hpart, hagree⟩ := part_of_choice hnodup hunder hchoice
    rw [hagree label hlabel] at hlookup
    rw [JoinedTable.choices] at hpart
    obtain ⟨found, hfound, hpart⟩ := List.mem_flatMap.mp hpart
    obtain ⟨beneath, -, rfl⟩ := List.mem_map.mp hpart
    rw [Dict.lookup_cons, if_pos rfl, Option.some.injEq] at hlookup
    rcases mem_orNone (hlookup ▸ hfound) with ⟨hnone, -⟩ | ⟨same, hsame, heq⟩
    · cases hnone
    · cases heq
      exact hsame
  · intro hother
    obtain ⟨beneath, hbeneath⟩ := @exists_tableChoice schema db target nested other
    have hpart : (label, some other) :: beneath ∈
        (JoinedTable.mk target label nested).choices schema db table name row := by
      rw [JoinedTable.choices]
      exact List.mem_flatMap.mpr ⟨some other, some_mem_orNone hother, List.mem_map_of_mem hbeneath⟩
    obtain ⟨choice, hchoice, hagree⟩ := choice_of_part hpart hnodup hunder
    refine ⟨choice, hchoice, ?_⟩
    rw [hagree label hlabel, Dict.lookup_cons, if_pos rfl]

/-- A row that makes a record of a joined table is bound. -/
theorem lookup_of_present {layout : Layout} (hbase : layout.isBase = false) {tuple : Bindings}
    {label : String} {row : Row} (hpresent : layout.isPresent row = true)
    (hrow : tuple.rowOf label = row) : tuple.lookup label = some (some row) := by
  subst hrow
  rw [Layout.isPresent, hbase, Bool.false_or] at hpresent
  obtain ⟨column, -, hvalue⟩ := List.any_eq_true.mp hpresent
  unfold Bindings.rowOf at hvalue ⊢
  rcases hlookup : tuple.lookup label with _ | _ | row
  · rw [hlookup] at hvalue
    cases hvalue
  · rw [hlookup] at hvalue
    cases hvalue
  · rfl

/-! ### Folded records -/

/-- Beneath a folded record stands, under a joined relation to many, what the relation makes of its
rows. -/
theorem Layout.related_fold {layout : Layout} (hnodup : (layout.relations.map (·.name)).Nodup)
    {joined : JoinedBranch} (hjoined : joined ∈ layout.relations) (hmany : joined.isToMany = true)
    (hall : joined.branch.ShowsAll) (group : List Row) :
    (layout.fold group).related joined.name = joined.layout.assemble group := by
  have hentry : (joined.name, Node.ofRelated joined.isToMany (joined.branch.page
      (joined.layout.assemble group))) ∈ assembleBranches layout.relations group := by
    rw [assembleBranches_eq]
    exact List.mem_map_of_mem hjoined
  have hdistinct : ((assembleBranches layout.relations group).map (·.1)).Nodup := by
    rw [names_assembleBranches]
    exact hnodup
  have hlookup : (layout.fold group).lookup joined.name = some (Node.ofRelated joined.isToMany
      (joined.branch.page (joined.layout.assemble group))) := by
    rw [Layout.fold, Dict.lookup_putAll_of_nodup hdistinct, Dict.lookup_of_mem hdistinct hentry,
      Option.some_or]
  rw [Record.related_of_lookup hlookup, hall.page,
    Node.records_ofRelated fun hone => absurd (hone.symm.trans hmany) Bool.false_ne_true]

/-- How many related records stand under a relation of the record that joined rows of some base rows
make of one of them.  Under a joined relation it is the identities of the rows that its join finds
for the base rows of one identity; what was put off is loaded for the row. -/
def Layout.relatedCount (schema : Schema) (db : Database) (layout : Layout) (rows : List Row)
    (row : Row) (name : String) : Nat :=
  match layout.relations.find? (·.name == name) with
  | some joined => (joined.layout.identities
      ((rows.filter fun other => layout.rowKey other == layout.rowKey row).flatMap
        (schema.joinedRows db layout.table name))).length
  | none => schema.linkedCount db layout.table row name

/-- A relation that has no junction is joined as it links rows. -/
theorem joinedRows_of_direct {table name : String} {relation : Relation}
    (hrelation : schema.relation? table name = some relation) (hdirect : relation.junction = none)
    (row : Row) : schema.joinedRows db table name row = relation.linked db row := by
  have hsame : relation.direct = relation := by
    cases relation
    cases hdirect
    rfl
  rw [Schema.joinedRows, hrelation]
  dsimp only
  rw [hsame]

/-- Where base rows are told apart and the rows linked to one of them are, a joined relation shows all
of these, as separate statements do. -/
theorem Layout.relatedCount_of_apart {table : String} {layout : Layout} (htable : layout.table = table)
    (hnames : (layout.relations.map (·.name)).Nodup) {rows : List Row} (hapart : layout.TellsApart rows)
    {row : Row} (hrow : row ∈ rows) (hknown : row ∈ db.rows table) {joined : JoinedBranch}
    (hjoined : joined ∈ layout.relations) {relation : Relation}
    (hrelation : schema.relation? table joined.name = some relation)
    (hdirect : relation.junction = none) (hkeyed : relation.Keyed db table)
    (hlinked : joined.layout.TellsApart (relation.linked db row)) :
    layout.relatedCount schema db rows row joined.name =
      schema.linkedCount db table row joined.name := by
  have hfind : layout.relations.find? (·.name == joined.name) = some joined := by
    cases hfound : layout.relations.find? (·.name == joined.name) with
    | none => exact absurd (beq_iff_eq.mpr rfl) (List.find?_eq_none.mp hfound joined hjoined)
    | some other =>
        have hname : other.name = joined.name := by simpa using List.find?_some hfound
        rw [List.inj_on_of_nodup_map hnames (List.mem_of_find?_eq_some hfound) hjoined hname]
  unfold Layout.relatedCount
  rw [hfind, htable]
  dsimp only
  rw [hapart.filter_rowKey hrow, List.flatMap_singleton,
    joinedRows_of_direct hrelation hdirect, hlinked.length_identities,
    Schema.linkedCount_of_relation hrelation,
    hkeyed.reached_direct hdirect hknown (List.Subset.refl _), Relation.linked, hdirect]

section Folded

variable {table : String} {layout : Layout} (h : layout.Begins schema table) {rows : List Row}
  {tuples : List Bindings} (hmem : ∀ tuple, tuple ∈ tuples ↔ ∃ row ∈ rows,
    ∃ choice ∈ tableChoices schema db table layout.joinedTables row,
      tuple = (table, some row) :: choice)

include h hmem

/-- Of the rows of a record a joined relation makes as many records as there are identities of the
rows that it finds. -/
theorem Layout.Begins.length_joined
    (hlabels : (table :: (tableSteps table layout.joinedTables).map (·.label)).Nodup)
    (hnames : (layout.relations.map (·.name)).Nodup)
    {joined : JoinedBranch} (hjoined : joined ∈ layout.relations)
    (hkey : joined.layout.key ⊆ joined.layout.columns) (hbase : joined.layout.isBase = false)
    (row : Row) :
    (joined.layout.assemble ((tuples.filter fun tuple =>
        layout.groupKey tuple == layout.rowKey row).map layout.yield)).length =
      (joined.layout.identities ((rows.filter fun other =>
        layout.rowKey other == layout.rowKey row).flatMap
          (schema.joinedRows db table joined.name))).length := by
  have hunder : layout.joinedTables.lookup joined.name =
      some ⟨joined.layout.table, joined.layout.qualifier, joined.layout.joinedTables⟩ := by
    refine Dict.lookup_of_mem ((names_joinedTables layout).symm ▸ hnames) ?_
    rw [joinedTables_eq]
    exact List.mem_map_of_mem hjoined
  obtain ⟨hbaseLabel, hnodup⟩ := List.nodup_cons.mp hlabels
  have hlabel : joined.layout.qualifier ≠ table := by
    rintro heq
    refine hbaseLabel (heq ▸ ((steps_sublist hunder).map _).subset ?_)
    rw [JoinedTable.steps]
    exact List.mem_cons_self
  have hbound : ∀ (base : Row) (choice : Bindings),
      ((table, some base) :: choice).lookup joined.layout.qualifier =
        choice.lookup joined.layout.qualifier :=
    fun base choice => by rw [Dict.lookup_cons, if_neg hlabel]
  have hgroup : ∀ (base : Row) (choice : Bindings),
      (layout.groupKey ((table, some base) :: choice) == layout.rowKey row) =
        (layout.rowKey base == layout.rowKey row) :=
    fun base choice => by rw [h.groupKey_eq_rowKey, Bindings.rowOf_cons_self, Option.getD_some]
  rw [(Layout.shows_joined h.named h.outputNames hjoined hkey).assemble_length]
  refine (Layout.identities_perm fun other hpresent => ?_).length_eq
  rw [List.mem_map, List.mem_flatMap]
  constructor
  · rintro ⟨tuple, htuple, hrow⟩
    obtain ⟨htuple, hsame⟩ := List.mem_filter.mp htuple
    obtain ⟨base, hrows, choice, hchoice, rfl⟩ := (hmem tuple).mp htuple
    have hfound := lookup_of_present hbase hpresent hrow
    rw [hbound] at hfound
    rw [hgroup] at hsame
    exact ⟨base, List.mem_filter.mpr ⟨hrows, hsame⟩,
      (exists_choice_row hnodup hunder).mp ⟨choice, hchoice, hfound⟩⟩
  · rintro ⟨base, hfilter, hother⟩
    obtain ⟨hrows, hsame⟩ := List.mem_filter.mp hfilter
    obtain ⟨choice, hchoice, hfound⟩ := (exists_choice_row hnodup hunder).mpr hother
    refine ⟨(table, some base) :: choice, List.mem_filter.mpr ⟨?_, ?_⟩, ?_⟩
    · exact (hmem _).mpr ⟨base, hrows, choice, hchoice, rfl⟩
    · rw [hgroup]
      exact hsame
    · rw [Bindings.rowOf, hbound, hfound]
      rfl

/-- A record that comes from a group of joined rows is one of the base row that they begin with.  A
relation that is not joined was put off, and its link is carried along. -/
theorem Layout.Begins.counts_of_group (hschema : schema.Consistent) {shape : Shape}
    (hplanned : shape.Planned schema table layout) (hproper : shape.Proper schema table)
    (hall : ∀ entry ∈ shape.relations, entry.2.ShowsAll)
    (hlabels : (table :: (tableSteps table layout.joinedTables).map (·.label)).Nodup)
    {first : Bindings} (hfirst : first ∈ firstOfEach layout.groupKey [] tuples) {found : Record}
    (hfinishes : layout.Finishes schema db (layout.fold ((tuples.filter fun tuple =>
      layout.groupKey tuple == layout.groupKey first).map layout.yield)) found) :
    found.Counts schema shape table (first.rowOf table)
      (layout.relatedCount schema db rows (first.rowOf table)) := by
  obtain ⟨-, hnodup, hbranches⟩ := Shape.proper_iff.mp hproper
  obtain ⟨hnames, -, -⟩ := hplanned.branches.nodup hnodup
  have hhead : ((tuples.filter fun tuple => layout.groupKey tuple == layout.groupKey first).map
      layout.yield).head? = some (layout.yield first) := by
    rw [List.head?_map, head?_of_first hfirst]
    rfl
  obtain ⟨row, -, choice, -, rfl⟩ := (hmem first).mp ((firstOfEach_sublist _ _ _).subset hfirst)
  rw [h.groupKey_eq_rowKey, Bindings.rowOf_cons_self, Option.getD_some] at hfinishes hhead
  rw [Bindings.rowOf_cons_self, Option.getD_some]
  refine ⟨fun field hfield => ?_, fun entry hentry relation hrelation hmany => ?_⟩
  · have hfield := hplanned.fields_eq ▸ hfield
    rw [hfinishes.fields field hfield, h.scalar_fold hhead hfield]
  unfold Layout.relatedCount
  rw [hplanned.table_eq]
  cases hfind : layout.relations.find? (·.name == entry.1) with
  | some joined =>
      have hjoined := List.mem_of_find?_eq_some hfind
      have hname : joined.name = entry.1 := by simpa using List.find?_some hfind
      obtain ⟨hbranch, hlead, known, hknown, hkind, hlayout⟩ := hplanned.branches.mem_joined hjoined
      rw [hname, hrelation, Option.some.injEq] at hknown
      subst hknown
      dsimp only
      rw [← hname, hfinishes.joined joined hjoined,
        Layout.related_fold hnames hjoined (hkind.trans hmany) (hall _ hbranch)]
      exact h.length_joined hmem hlabels hnames hjoined hlayout.key_subset
        (by simpa [Layout.isBase] using hlead) row
  | none =>
      have hdeferred : entry.1 ∈ layout.deferred.map (·.1) := by
        refine (List.mem_append.mp (hplanned.branches.names_perm.symm.subset
          (List.mem_map_of_mem hentry))).resolve_left fun hmem => ?_
        obtain ⟨joined, hjoined, hname⟩ := List.mem_map.mp hmem
        exact List.find?_eq_none.mp hfind joined hjoined (beq_iff_eq.mpr hname)
      obtain ⟨later, hlater, hname⟩ := List.mem_map.mp hdeferred
      rw [← hname] at hrelation ⊢
      have hnew : relation.fromColumn ∉ layout.relations.map (·.name) := by
        intro hmem
        obtain ⟨other, hother, heq⟩ := List.mem_map.mp (hplanned.names_subset hmem)
        exact hschema.fromColumn_ne hrelation (branchesProper_iff.mp hbranches other hother).1 heq.symm
      have hscalar : ∀ group : List Row, group.head? = some (layout.yield ((table, some row) :: choice)) →
          (layout.fold group).scalar relation.fromColumn = row.value relation.fromColumn := by
        intro group hgroup
        rw [Record.scalar, h.lookup_fold hgroup (hplanned.links hlater hrelation) hnew,
          Bindings.rowOf_cons_self]
        rfl
      rw [hfinishes.deferred later hlater relation (hplanned.table_eq.symm ▸ hrelation) hmany,
        hscalar _ hhead, Schema.linkedCount_of_relation hrelation]

end Folded

/-! ### What a request finds -/

/-- The base rows that come after the cursor of a request; all without a cursor. -/
def FindArgs.rowsAfter (args : FindArgs) (db : Database) (table : Table) : List Row :=
  (db.rows table.name).filter fun row =>
    db.passes (args.cursor.bind (table.cursorPredicate? · false)) [(table.name, some row)]

/-- The request asks for all records, or all after a cursor, in any order, and for relations of which
each shows all related rows.  The name of its table is not that of a joined one. -/
structure AsksForAll (engine : Engine) (table : Table) (args : FindArgs) : Prop where
  filter : args.filter = none
  take : args.take = none
  skip : args.skip = none
  distinct : args.distinct = none
  relations : (engine.shapeFor table args).Throughout engine.schema
    (fun _ branch _ => branch.ShowsAll) table.name
  labels : ∀ join ∈ (engine.planFor table args).2.joins, join.label ≠ table.name

/-- A joined statement yields rows of which a layout makes the records of the joined rows that it
selects, also if it has no columns. -/
theorem exists_run_joined {table : Table} {args : FindArgs} {paging : Paging} {shape : Shape}
    {layout : Layout} {planner : Planner}
    (hplanned : shape.PlannedAs engine.schema table.name layout planner) {tuples : List Bindings}
    (hsubset : tuples ⊆ planner.tuples db table.name)
    (hselected : selectRows db (engine.joinedStatement table args paging layout planner) [] =
      .ok tuples) :
    let statement := engine.joinedStatement table args paging layout planner
    ∃ rows, db.run statement = .ok rows ∧
      layout.assemble rows = layout.assemble ((Window.cut statement.window tuples).map layout.yield) := by
  intro statement
  by_cases hnone : layout.projection = []
  · have hjoined : ∀ joined ∈ layout.relations, joined.layout.isBase = false := by
      intro joined hjoined
      simpa [Layout.isBase] using (hplanned.planned.branches.mem_joined hjoined).2.1
    have houtputs : statement.outputs = [] := by
      simp only [statement]
      rw [joinedStatement_frame]
      exact hnone
    obtain ⟨rows, hrun, hlength⟩ := run_of_selected_bare houtputs hselected
    exact ⟨rows, hrun, hplanned.begins.assemble_bare hjoined hnone
      (hlength.trans (List.length_map _).symm)⟩
  · exact ⟨_, run_of_joined hplanned.within hsubset hselected fun _ => hnone, rfl⟩

section Requests

variable {table : Table} {args : FindArgs} (h : AsksForAll engine table args)
  (hschema : engine.schema.Consistent)

include h

theorem AsksForAll.paging : engine.paging args = ⟨engine.settings.maxTake, none, false⟩ := by
  unfold Engine.paging Settings.pageSize
  rw [h.take, h.skip]
  rfl

theorem AsksForAll.shows : ∀ entry ∈ (engine.shapeFor table args).relations, entry.2.ShowsAll := by
  have hproper : (engine.shapeFor table args).Proper engine.schema table.name :=
    engine.schema.shape_proper _ _ _ _
  intro entry hentry
  obtain ⟨-, relation, hrelation, -⟩ :=
    branchesProper_iff.mp (Shape.proper_iff.mp hproper).2.2 entry hentry
  exact (branchesThroughout_iff.mp (Shape.throughout_iff.mp h.relations) entry hentry relation
    hrelation).1

include hschema

theorem AsksForAll.labels_nodup : (table.name :: ((engine.planFor table args).1.joins
    engine.schema).map (·.label)).Nodup := by
  have hplanned := planFor_planned hschema table args
  rw [← hplanned.joins_eq]
  refine List.nodup_cons.mpr ⟨fun hmem => ?_, hplanned.labels⟩
  obtain ⟨join, hjoin, hlabel⟩ := List.mem_map.mp hmem
  exact h.labels join hjoin hlabel

/-- Its joined statement selects the base rows after the cursor with all their choices. -/
theorem AsksForAll.mem_joinedTuples (tuple : Bindings) :
    let plan := engine.planFor table args
    tuple ∈ engine.joinedTuples db table args (engine.paging args) plan.1 plan.2 ↔
      ∃ row ∈ args.rowsAfter db table,
        ∃ choice ∈ tableChoices engine.schema db table.name plan.1.joinedTables row,
          tuple = (table.name, some row) :: choice := by
  intro plan
  have hplanned := planFor_planned hschema table args
  have hleft : (engine.shapeFor table args).Throughout engine.schema LeftBranch table.name :=
    h.relations.mono fun _ _ _ hall => hall.joinKind
  have hunfiltered : (engine.shapeFor table args).Throughout engine.schema
      (fun _ branch _ => branch.filter = none) table.name :=
    h.relations.mono fun _ _ _ hall => hall.filter
  have htuples : tuple ∈ plan.2.tuples db table.name ↔ ∃ row ∈ db.rows table.name,
      ∃ choice ∈ tableChoices engine.schema db table.name plan.1.joinedTables row,
        tuple = (table.name, some row) :: choice := by
    unfold Planner.tuples
    rw [hplanned.joins_eq, List.mem_flatMap]
    refine exists_congr fun row => and_congr_right fun _ => ?_
    rw [hplanned.planned.extensions_base hleft hplanned.begins.qualifier_eq
      (h.labels_nodup hschema), List.mem_map]
    exact exists_congr fun choice => and_congr_right fun _ => eq_comm
  have hpasses : ∀ row choice, (table.name, some row) :: choice ∈ plan.2.tuples db table.name →
      db.passes (engine.joinedStatement table args (engine.paging args) plan.1 plan.2).filter
          ((table.name, some row) :: choice) =
        db.passes (args.cursor.bind (table.cursorPredicate? · false)) [(table.name, some row)] := by
    intro row choice hmem
    rw [passes_joinedStatement hplanned.within hmem, h.filter,
      hplanned.planned.predicates_nil hunfiltered 0, h.paging,
      passes_base (cursorPredicate?_scoped table args.cursor false (List.mem_singleton_self _))]
    simp [Database.passes, Schema.predicate?, Expr.conjunction?, Expr.joinAll?]
  unfold Engine.joinedTuples FindArgs.rowsAfter
  dsimp only
  rw [(inOrder_perm _ _).mem_iff, List.mem_filter]
  constructor
  · rintro ⟨hmem, hkept⟩
    obtain ⟨row, hrow, choice, hchoice, rfl⟩ := htuples.mp hmem
    rw [hpasses row choice hmem] at hkept
    exact ⟨row, List.mem_filter.mpr ⟨hrow, hkept⟩, choice, hchoice, rfl⟩
  · rintro ⟨row, hrow, choice, hchoice, rfl⟩
    obtain ⟨hrow, hkept⟩ := List.mem_filter.mp hrow
    have hmem := htuples.mpr ⟨row, hrow, choice, hchoice, rfl⟩
    exact ⟨hmem, (hpasses row choice hmem).trans hkept⟩

/-- Its joined statement yields rows of which the records of these joined rows are made. -/
theorem AsksForAll.exists_run
    (hpage : engine.settings.maxTake = none ∨ (engine.planFor table args).1.fansOut = true) :
    let plan := engine.planFor table args
    let tuples := engine.joinedTuples db table args (engine.paging args) plan.1 plan.2
    ∃ rows, db.run (engine.joinedStatement table args (engine.paging args) plan.1 plan.2) = .ok rows ∧
      plan.1.assemble rows = plan.1.assemble (tuples.map plan.1.yield) := by
  intro plan tuples
  have hplanned := planFor_planned hschema table args
  have hkinds : ∀ join ∈ plan.2.joins, Rowwise join.clause := by
    rw [hplanned.joins_eq]
    intro join hjoin
    obtain ⟨⟨-, branch, hall, hkind⟩, -⟩ := hplanned.planned.mem_joins h.relations join hjoin
    exact Or.inl (hkind.trans hall.joinKind)
  have hsubset : tuples ⊆ plan.2.tuples db table.name :=
    fun tuple htuple => (List.mem_filter.mp ((inOrder_perm _ _).subset htuple)).1
  obtain ⟨rows, hrun, hassemble⟩ := exists_run_joined hplanned hsubset
    (selectRows_joined hplanned.within hplanned.linked hkinds (Or.inr h.distinct))
  have hwindow : (engine.joinedStatement table args (engine.paging args) plan.1 plan.2).window =
      none := by
    rw [joinedStatement_page, h.paging]
    rcases hpage with hmost | hfans
    · rw [hmost]
      exact ite_self _
    · exact if_pos hfans
  rw [hwindow] at hassemble
  exact ⟨rows, hrun, hassemble⟩

/-- By a joined statement it finds a record of one row of every identity, beneath which stand as many
records as there are identities of joined rows. -/
theorem AsksForAll.findJoined (hdb : db.Valid)
    (hpage : engine.settings.maxTake = none ∨ (engine.planFor table args).1.fansOut = true) :
    let plan := engine.planFor table args
    let kept := args.rowsAfter db table
    (engine.findJoined table args (engine.paging args) plan.1 plan.2).Gives db.run fun records =>
      ∃ rows, rows ⊆ kept ∧ (rows.map plan.1.rowKey).Perm (plan.1.identities kept) ∧
        List.Forall₂ (fun row record => record.Counts engine.schema (engine.shapeFor table args)
          table.name row (plan.1.relatedCount engine.schema db kept row))
          (pageOf none engine.settings.maxTake rows) records := by
  intro plan kept
  have hplanned := planFor_planned hschema table args
  have hproper : (engine.shapeFor table args).Proper engine.schema table.name :=
    engine.schema.shape_proper _ _ _ _
  have hmem := fun tuple => @AsksForAll.mem_joinedTuples db _ _ _ h hschema tuple
  let tuples := engine.joinedTuples db table args (engine.paging args) plan.1 plan.2
  let firsts := firstOfEach plan.1.groupKey [] tuples
  obtain ⟨rows, hrun, hassemble⟩ := @AsksForAll.exists_run db _ _ _ h hschema hpage
  have hassembled : plan.1.assemble rows = firsts.map fun first => plan.1.fold
      ((tuples.filter fun tuple => plan.1.groupKey tuple == plan.1.groupKey first).map
        plan.1.yield) := by
    rw [hassemble, hplanned.begins.assemble_yield, groupsOf, List.map_map]
    rfl
  have hpaged : (if plan.1.fansOut then pageOf none engine.settings.maxTake
        (distinctBy (table.distinctColumns args.distinct) (plan.1.assemble rows))
      else plan.1.assemble rows) = pageOf none engine.settings.maxTake (plan.1.assemble rows) := by
    rw [h.distinct]
    rcases hpage with hmost | hfans
    · rw [hmost]
      exact ite_self _
    · exact if_pos hfans
  have hvalid : ∀ record ∈ plan.1.assemble rows, record.Valid := by
    rw [hassemble]
    refine assembled_valid plan.1 _ (List.forall_mem_map.mpr fun tuple htuple => ?_)
    exact yield_valid hdb (List.mem_filter.mp ((inOrder_perm _ _).subset htuple)).1
  have hrows : ∀ row, row ∈ tuples.map (·.rowOf table.name) ↔ row ∈ kept := by
    intro row
    rw [List.mem_map]
    constructor
    · rintro ⟨tuple, htuple, rfl⟩
      obtain ⟨row, hrow, choice, -, rfl⟩ := (hmem tuple).mp htuple
      rwa [Bindings.rowOf_cons_self, Option.getD_some]
    · intro hrow
      obtain ⟨choice, hchoice⟩ := @exists_tableChoice engine.schema db table.name
        plan.1.joinedTables row
      exact ⟨_, (hmem _).mpr ⟨row, hrow, choice, hchoice, rfl⟩, by
        rw [Bindings.rowOf_cons_self, Option.getD_some]⟩
  refine fun found hfound => ⟨firsts.map (·.rowOf table.name), fun row hrow => ?_, ?_, ?_⟩
  · exact (hrows row).mp (((firstOfEach_sublist _ _ _).map _).subset hrow)
  · have hkeys : plan.1.rowKey ∘ (·.rowOf table.name) = plan.1.groupKey :=
      funext fun tuple => (hplanned.begins.groupKey_eq_rowKey tuple).symm
    have hidentities := plan.1.identities_perm fun row _ => hrows row
    rw [Layout.identities_base hplanned.begins.isBase, List.map_map, hkeys] at hidentities
    rw [List.map_map, hkeys]
    exact (firstOfEach_keys_perm plan.1.groupKey tuples).trans hidentities
  · have hfinishes := findJoined_finishes hschema hdb hproper h.shows _ hplanned.planned hrun hvalid
      found hfound
    rw [h.paging] at hfinishes
    dsimp only at hfinishes
    rw [hpaged, hassembled, ← pageOf_map, List.forall₂_map_left_iff] at hfinishes
    rw [← pageOf_map, List.forall₂_map_left_iff]
    have hfirsts : ∀ first ∈ pageOf none engine.settings.maxTake firsts, first ∈ firsts :=
      fun first hfirst => pageOf_subset _ _ _ hfirst
    refine ((List.forall₂_and_left _ _).mpr ⟨hfirsts, hfinishes⟩).imp ?_
    rintro first record ⟨hfirst, hrecord⟩
    exact hplanned.begins.counts_of_group hmem hschema hplanned.planned hproper h.shows
      (hplanned.planned.steps.1 ▸ h.labels_nodup hschema) hfirst hrecord

omit hschema in
/-- By separate statements it finds a record of every row, with all rows that its relations lead
to. -/
theorem AsksForAll.findSeparately (hschema : engine.schema.Consistent) (hdb : db.Valid)
    (hknown : engine.schema.table? table.name = some table) :
    (engine.findSeparately table args (engine.paging args) (engine.shapeFor table args)).Gives db.run
      fun records => ∃ rows, rows.Perm (args.rowsAfter db table) ∧
        List.Forall₂ (fun row record => record.Counts engine.schema (engine.shapeFor table args)
          table.name row (engine.schema.linkedCount db table.name row))
          (pageOf none engine.settings.maxTake rows) records := by
  let base := engine.baseStatement table args (engine.paging args) [] true
  have hkept : (db.rows table.name).filter (fun row => db.passes base.filter [(table.name, some row)]) =
      args.rowsAfter db table := by
    refine List.filter_congr fun row _ => ?_
    rw [passes_baseStatement (List.mem_singleton_self _) (noTables_within _) (List.Subset.refl _),
      h.filter, h.paging]
    exact Bool.true_and _
  have hrows : engine.shownRows db table args (engine.paging args) =
      pageOf none engine.settings.maxTake (db.selected table.name base.filter base.orderBy) := by
    have hpage := @pageOf_eq_cut engine table args _ (engine.paging args)
      (db.selected table.name base.filter base.orderBy)
    rw [Engine.shownRows, ← hpage, h.paging]
  intro records hrecords
  have hcounts := findSeparately_counts hschema hdb hknown h.distinct
    (engine.schema.shape_proper _ _ _ _) h.shows (engine.paging args) records hrecords
  rw [hrows] at hcounts
  exact ⟨_, hkept ▸ selected_perm_filter _ _ _, hcounts⟩

end Requests

/-- **Records are as many as identities.**  Over a schema that can come about and on every database of
valid values, take a request as `AsksForAll` has it, with any choice of columns.  It returns where its
rows can be sorted.  What it returns by separate statements is a record of every row after its cursor,
and beneath it a record of every row that a relation to many leads to.  What it returns by joins is a
record of one row of each identity, and beneath it, under a joined relation, one of each identity of
the rows joined to the rows of this identity.  So nothing is lost where rows are told apart. -/
theorem records_by_identity {schema : Schema} (h : schema.Reachable) {settings : Settings}
    {db : Database} (hdb : db.Valid) {table : Table}
    (hknown : schema.table? table.name = some table) {args : FindArgs}
    (hargs : AsksForAll ⟨schema, settings⟩ table args) :
    let engine : Engine := ⟨schema, settings⟩
    let plan := engine.planFor table args
    let kept := args.rowsAfter db table
    let find := fun strategy => engine.findMany table.name { args with strategy := some strategy }
    let returned := fun strategy => ((find strategy).hold Database.source db).result
    let counted := fun rows (count : Row → String → Nat) => List.Forall₂ (fun row record =>
      record.Counts schema (engine.shapeFor table args) table.name row (count row))
        (pageOf none settings.maxTake rows)
    (∀ strategy, (find strategy).ReturnsOn db) ∧
      (∀ records, returned .query = .ok records → ∃ rows, rows.Perm kept ∧
        counted rows (schema.linkedCount db table.name) records) ∧
      (plan.2.joins = [] → find .join = find .query) ∧
      (plan.2.joins ≠ [] → settings.maxTake = none ∨ plan.1.fansOut = true →
        ∀ records, returned .join = .ok records → ∃ rows,
          rows ⊆ kept ∧ (rows.map plan.1.rowKey).Perm (plan.1.identities kept) ∧
            counted rows (plan.1.relatedCount schema db kept) records) ∧
      (plan.1.TellsApart kept → (plan.1.identities kept).length = kept.length ∧
        ∀ row ∈ kept, ∀ joined ∈ plan.1.relations, ∀ relation,
          schema.relation? table.name joined.name = some relation → relation.junction = none →
            relation.Keyed db table.name → joined.layout.TellsApart (relation.linked db row) →
              plan.1.relatedCount schema db kept row joined.name =
                schema.linkedCount db table.name row joined.name) := by
  intro engine plan kept find returned counted
  have hplanned := @planFor_planned engine h.consistent table args
  have hasks : ∀ strategy, AsksForAll engine table { args with strategy := some strategy } :=
    fun _ => ⟨hargs.filter, hargs.take, hargs.skip, hargs.distinct, hargs.relations, hargs.labels⟩
  have hforwards : ∀ strategy,
      (engine.paging { args with strategy := some strategy }).backwards = false := by
    intro strategy
    rw [(hasks strategy).paging]
  have hquery : ¬ engine.Joins table { args with strategy := some .query } :=
    fun hjoins => nomatch hjoins.1
  refine ⟨fun _ => findMany_returnsOn h.consistent hknown _ db, fun records hrecords => ?_,
    fun hnone => ?_, fun hsome hpage records hrecords => ?_,
    fun hapart => ⟨hapart.length_identities, ?_⟩⟩
  · have hgives := gives_forwards
      ((hasks .query).findSeparately h.consistent hdb hknown) (hforwards .query)
    rw [← findMany_unjoined hknown hquery] at hgives
    exact hgives.of_result hrecords
  · have hjoin : ¬ engine.Joins table { args with strategy := some .join } := by
      rintro ⟨-, hjoins⟩
      rw [show (engine.planFor table { args with strategy := some .join }).2.joins = [] from hnone]
        at hjoins
      cases hjoins
    simp only [find]
    rw [findMany_unjoined hknown hjoin, findMany_unjoined hknown hquery]
    rfl
  · have hjoin : engine.Joins table { args with strategy := some .join } :=
      ⟨rfl, Bool.not_eq_true' _ ▸ Bool.eq_false_iff.mpr fun hjoins =>
        hsome (List.isEmpty_iff.mp hjoins)⟩
    have hgives := gives_forwards
      ((hasks .join).findJoined h.consistent hdb hpage) (hforwards .join)
    rw [← findMany_joined hknown hjoin] at hgives
    exact hgives.of_result hrecords
  · intro row hrow joined hjoined relation hrelation hdirect hkeyed hlinked
    have hproper : (engine.shapeFor table args).Proper schema table.name :=
      schema.shape_proper _ _ _ _
    obtain ⟨-, hnodup, -⟩ := Shape.proper_iff.mp hproper
    exact Layout.relatedCount_of_apart hplanned.planned.table_eq
      (hplanned.planned.branches.nodup hnodup).1 hapart hrow (List.mem_filter.mp hrow).1 hjoined
      hrelation hdirect hkeyed hlinked

/-! ### Notes without keys -/

/-- Authors who are known by name only, and notes, which have no key either. -/
def noteTables : List TableDecl :=
  [{ name := "Author", columns := [{ name := "name" }] },
   { name := "Note"
     columns := [{ name := "text" }, { name := "writer", references := some ⟨"Author", "name"⟩ }] }]

/-- Two authors, one of them with two notes. -/
def noteRows : Database :=
  [("Author", [[("name", .text "Ann")], [("name", .text "Bob")]]),
   ("Note", [[("text", .text "Hi"), ("writer", .text "Ann")],
      [("text", .text "Ho"), ("writer", .text "Ann")]])]

/-- Two authors of one name, with two equal notes and one without a text. -/
def equalNotes : Database :=
  [("Author", [[("name", .text "Ann")], [("name", .text "Ann")]]),
   ("Note", [[("text", .text "Hi"), ("writer", .text "Ann")],
      [("text", .text "Hi"), ("writer", .text "Ann")], [("writer", .text "Ann")]])]

/-- A request for authors with the texts of their notes. -/
def textsOfNotes : FindArgs :=
  { included := some [("notes", .relation { selected := some [("text", .flag true)] })] }

/-- Authors and notes that are told apart are as many by joins as there are. -/
theorem records_by_identity_notes :
    let engine : Engine := ⟨Schema.ofDecls noteTables, {}⟩
    ∃ known, engine.schema.table? "Author" = some known ∧ AsksForAll engine known textsOfNotes ∧
      let layout := (engine.planFor known textsOfNotes).1
      let kept := textsOfNotes.rowsAfter noteRows known
      let count := layout.relatedCount engine.schema noteRows kept
      layout.relations.map (·.name) = ["notes"] ∧ (layout.identities kept).length = kept.length ∧
        (∀ row ∈ kept, count row "notes" = engine.schema.linkedCount noteRows "Author" row "notes") ∧
        ∃ rows records, (rows.map layout.rowKey).Perm (layout.identities kept) ∧
          ((engine.findMany "Author" { textsOfNotes with strategy := some .join }).hold
            Database.source noteRows).result = .ok records ∧
          List.Forall₂ (fun row record => record.Counts engine.schema
            (engine.shapeFor known textsOfNotes) "Author" row (count row)) rows records := by
  intro engine
  have hreachable : engine.schema.Reachable := Schema.Reachable.fresh.scan noteTables
  let known := (engine.schema.table? "Author").get (by decide +kernel)
  have hknown : engine.schema.table? "Author" = some known := (Option.some_get _).symm
  have hname : known.name = "Author" := hreachable.consistent.table_name hknown
  have hargs : AsksForAll engine known textsOfNotes := by
    constructor
    case filter => rfl
    case take => rfl
    case skip => rfl
    case distinct => rfl
    case relations => decide +kernel
    case labels => decide +kernel
  let relation := (engine.schema.relation? known.name "notes").get (by decide +kernel)
  have hrelation : engine.schema.relation? known.name "notes" = some relation :=
    (Option.some_get _).symm
  let layout := (engine.planFor known textsOfNotes).1
  have hnames : layout.relations.map (·.name) = ["notes"] := by decide +kernel
  let notes := layout.relations.head (by decide +kernel)
  have hnotes : notes ∈ layout.relations := List.head_mem _
  have hapart : ∀ row ∈ textsOfNotes.rowsAfter noteRows known,
      notes.layout.TellsApart (relation.linked noteRows row) := by decide +kernel
  have hvalid : noteRows.Valid := Database.valid_of_entries (by decide +kernel)
  have hsortable : (engine.findMany "Author" { textsOfNotes with strategy := some .join }).Sortable
      noteRows := by decide +kernel
  obtain ⟨hreturns, -, -, hjoin, hcounts⟩ :=
    records_by_identity hreachable hvalid (hname ▸ hknown) hargs
  obtain ⟨hlength, hall⟩ := hcounts (by decide +kernel)
  rw [hname] at hreturns hjoin hall hrelation
  obtain ⟨records, hfound⟩ := hreturns .join hsortable
  obtain ⟨rows, -, hperm, hrecords⟩ := hjoin (by decide +kernel) (Or.inl rfl) records hfound
  refine ⟨known, hknown, hargs, hnames, hlength, fun row hrow => ?_, rows, records, hperm, hfound,
    hrecords⟩
  have hname : notes.name = "notes" := by decide +kernel
  rw [← hname] at hrelation ⊢
  exact hall row hrow notes hnotes relation hrelation (by decide +kernel) (by decide +kernel)
    (hapart row hrow)

/-- Beneath two authors of one name stand all notes, by joins one note beneath one author. -/
theorem equal_notes_merged :
    let counts := fun strategy => ((Engine.findMany ⟨Schema.ofDecls noteTables, {}⟩ "Author"
      { textsOfNotes with strategy := some strategy }).hold Database.source
        equalNotes).result.toOption.map (List.map fun record => (record.related "notes").length)
    counts .query = some [3, 3] ∧ counts .join = some [1] := by
  decide +kernel

end NestedQuery
