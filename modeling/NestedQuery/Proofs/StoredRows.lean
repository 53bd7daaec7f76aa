import NestedQuery.Proofs.BaseRecords

/-!
# Stored rows

Whatever its joins, every row that a statement selects is put together from rows
that the database stores: it begins with a row of its table, or with none where
only the other side of a join was kept, and binds stored rows after that.  So the
records which a request finds first are those of rows of its table, by joins or
without, and a relation that is not joined is loaded for these records.
-/

namespace NestedQuery

variable {schema : Schema} {db : Database} {engine : Engine}

/-! ### What a row of a join is made of -/

/-- The rows of a table, and the row without values that an outer join has in their place. -/
def Database.rowsOrBlank (db : Database) (table : String) : List Row :=
  [] :: db.rows table

/-- A row of a join over a table: it begins with a row of the table or with none, and binds nothing
but stored rows. -/
structure Bindings.Stored (db : Database) (table : String) (tuple : Bindings) : Prop where
  base : ∃ found more, tuple = (table, found) :: more ∧
    ∀ row, found = some row → row ∈ db.rows table
  rows : ∀ name row, (name, some row) ∈ tuple → ∃ source, row ∈ db.rows source

theorem Bindings.stored_base {table : String} {row : Row} (h : row ∈ db.rows table) :
    Bindings.Stored db table [(table, some row)] := by
  refine ⟨⟨some row, [], rfl, fun other heq => Option.some.inj heq ▸ h⟩, fun name other hmem => ?_⟩
  cases List.mem_singleton.mp hmem
  exact ⟨table, h⟩

/-- One more table may add a row that it stores, or none. -/
theorem Bindings.Stored.append {table label source : String} {tuple : Bindings}
    (h : tuple.Stored db table) {found : Option Row}
    (hfound : found = none ∨ ∃ row ∈ db.rows source, found = some row) :
    Bindings.Stored db table (tuple ++ [(label, found)]) := by
  obtain ⟨⟨first, more, rfl, hfirst⟩, hrows⟩ := h
  refine ⟨⟨first, more ++ [(label, found)], rfl, hfirst⟩, fun name row hmem => ?_⟩
  rcases List.mem_append.mp hmem with hold | hnew
  · exact hrows name row hold
  · cases List.mem_singleton.mp hnew
    obtain hnone | ⟨other, hother, hsome⟩ := hfound
    · cases hnone
    · cases hsome
      exact ⟨source, hother⟩

/-- A row of the other side alone begins with no row of the table. -/
theorem Bindings.stored_unpaired (table : String) (own : List String) {label source : String}
    {row : Row} (h : row ∈ db.rows source) :
    Bindings.Stored db table ((table :: own).map (·, none) ++ [(label, some row)]) := by
  refine ⟨⟨none, own.map (·, none) ++ [(label, some row)], rfl, fun _ hnone => nomatch hnone⟩, ?_⟩
  intro name other hmem
  rcases List.mem_append.mp hmem with hnone | hlast
  · obtain ⟨_, -, heq⟩ := List.mem_map.mp hnone
    cases heq
  · cases List.mem_singleton.mp hlast
    exact ⟨source, h⟩

/-- The row of the table in a row of a join over it; one without values if it begins with none. -/
theorem Bindings.Stored.rowOf_mem {table : String} {tuple : Bindings} (h : tuple.Stored db table) :
    tuple.rowOf table ∈ db.rowsOrBlank table := by
  obtain ⟨found, more, rfl, hfound⟩ := h.base
  rw [Bindings.rowOf_cons_self]
  cases found with
  | none => exact List.mem_cons_self
  | some row => exact List.mem_cons_of_mem _ (hfound row rfl)

/-- Rows that bind nothing but stored rows hold values of the database. -/
theorem Bindings.Stored.cells_valid {table : String} {tuple : Bindings} (h : tuple.Stored db table)
    (hdb : db.Valid) (outputs : List Output) : Row.Valid (Dict.ofPairs (cells outputs tuple)) := by
  intro column
  rw [Row.value, Dict.lookup_ofPairs]
  cases hlookup : (cells outputs tuple).reverse.lookup column with
  | none => trivial
  | some value =>
      obtain ⟨output, -, heq⟩ :=
        List.mem_map.mp (List.mem_reverse.mp (Dict.mem_of_lookup hlookup))
      cases heq
      cases output with
      | count label => trivial
      | column ref label =>
          rw [Option.getD_some, Output.cell]
          cases hrow : (tuple.lookup ref.qualifier).join with
          | none => trivial
          | some row =>
              obtain ⟨source, hsource⟩ :=
                h.rows _ row (Dict.mem_of_lookup (Option.join_eq_some_iff.mp hrow))
              exact hdb source row hsource ref.name

/-! ### What a statement selects -/

/-- Joining keeps rows that are made of stored rows.  A row is paired, or stands alone on one of the
two sides. -/
theorem joinAll_stored {table : String} : ∀ {joins : List (JoinOf Expr)} {own : List String}
    {rows : List Bindings}, joinsScoped joins (table :: own) [] →
    (∀ row ∈ rows, Dict.names row = table :: own ∧ row.Stored db table) →
    ∃ joined, joinAll db joins (table :: own) rows [] = .ok joined ∧
      ∀ row ∈ joined, Dict.names row = table :: own ++ joins.map (·.label) ∧ row.Stored db table
  | [], own, rows, _, hrows => ⟨rows, rfl, fun row hrow => by simpa using hrows row hrow⟩
  | ⟨kind, source, label, on⟩ :: rest, own, rows, h, hrows => by
      rw [joinsScoped] at h
      have hon : ∀ row ∈ rows, ∀ other ∈ db.rows source,
          ∃ value, on.eval db (row ++ [(label, some other)] ++ []) = .ok value := by
        intro row hrow other _
        refine Expr.Scoped.eval_ok db h.1 (bound_append ?_ (List.Subset.refl _))
        rw [Dict.names_append, (hrows row hrow).1]
        rfl
      let accept := accepts fun row => on.truth db (row ++ [])
      have hnext : ∀ row ∈ rows.flatMap (besides accept kind label (db.rows source)) ++
          unpaired accept kind label (table :: own) rows (db.rows source),
          Dict.names row = table :: (own ++ [label]) ∧ row.Stored db table := by
        refine fun row hrow => ⟨names_of_mem_join (fun row hrow => (hrows row hrow).1) hrow, ?_⟩
        rcases List.mem_append.mp hrow with hbeside | halone
        · obtain ⟨before, hbefore, hmem⟩ := List.mem_flatMap.mp hbeside
          obtain ⟨found, rfl, hfound⟩ := mem_besides hmem
          exact (hrows before hbefore).2.append hfound
        · rw [unpaired] at halone
          split at halone
          · obtain ⟨other, hother, rfl⟩ := List.mem_map.mp halone
            exact Bindings.stored_unpaired table own (List.mem_filter.mp hother).1
          · cases halone
      obtain ⟨joined, hjoined, hstored⟩ := joinAll_stored h.2 hnext
      refine ⟨joined, (joinAll_cons hon).trans hjoined, fun row hrow => ?_⟩
      obtain ⟨hnames, hrow⟩ := hstored row hrow
      exact ⟨hnames.trans (by simp), hrow⟩

/-- Every row that a well-scoped statement selects is made of stored rows. -/
theorem selectRows_stored {statement : Select} (hlabel : statement.label = none)
    (hscoped : selectScoped statement []) :
    ∃ tuples, selectRows db statement [] = .ok tuples ∧
      ∀ tuple ∈ tuples, Dict.names tuple = statement.scope ∧ tuple.Stored db statement.table := by
  obtain ⟨outputs, table, label, joins, filter, groupBy, orderBy, window⟩ := statement
  cases hlabel
  simp only [selectScoped, Option.getD_none] at hscoped
  obtain ⟨hjoins, hfilter, hgroup, horder⟩ := hscoped
  obtain ⟨joined, hjoined, hstored⟩ := @joinAll_stored db table joins []
    ((db.rows table).map fun row => [(table, some row)]) hjoins
    (List.forall_mem_map.mpr fun row hrow => ⟨rfl, Bindings.stored_base hrow⟩)
  have hnames := fun row hrow => (hstored row hrow).1
  have hbound : [] ⊆ Dict.names ([] : Bindings) := List.Subset.refl _
  obtain ⟨kept, hkept, hkeptRows⟩ := keepRows_scoped db hfilter hbound hnames
  obtain ⟨grouped, hgrouped, hgroupedRows⟩ := groupRows_scoped hgroup hbound
    fun row hrow => hnames row (hkeptRows hrow)
  obtain ⟨sorted, hsorted, hsortedRows⟩ := sortRows_scoped horder hbound
    fun row hrow => hnames row (hkeptRows (hgroupedRows.subset hrow))
  refine ⟨sorted, ?_, fun tuple htuple =>
    hstored tuple (hkeptRows (hgroupedRows.subset (hsortedRows htuple)))⟩
  rw [selectRows]
  simp only [Option.getD_none, hjoined, hkept, hgrouped, hsorted, bind, Except.bind]

/-- So a statement yields the cells of rows that are made of stored rows. -/
theorem run_stored {statement : Select} (hlabel : statement.label = none)
    (hscoped : statement.WellScoped) (hsome : statement.outputs ≠ [])
    (hcolumns : ∀ output ∈ statement.outputs, ∃ ref label, output = .column ref label) :
    ∃ tuples : List Bindings,
      db.run statement =
        .ok (tuples.map fun tuple => Dict.ofPairs (cells statement.outputs tuple)) ∧
      ∀ tuple ∈ tuples, tuple.Stored db statement.table := by
  obtain ⟨tuples, hselected, hstored⟩ := @selectRows_stored db statement hlabel hscoped.clauses
  refine ⟨Window.cut statement.window tuples, ?_, fun tuple htuple =>
    (hstored tuple (cut_subset _ _ htuple)).2⟩
  refine run_cells hselected (fun _ => hsome) fun output houtput => ?_
  obtain ⟨ref, label, heq⟩ := hcolumns output houtput
  refine ⟨ref, label, heq, fun tuple htuple => ?_⟩
  rw [(hstored tuple htuple).1]
  exact hscoped.outputs output houtput ref label heq

theorem Dict.forall_mem_put {α : Type} {holds : α → Prop} {name : String} {value : α}
    {dict : Dict α} (hvalue : holds value) (h : ∀ entry ∈ dict, holds entry.2) :
    ∀ entry ∈ Dict.put name value dict, holds entry.2 := by
  intro entry hentry
  rcases Dict.mem_put hentry with rfl | hmem
  · exact hvalue
  · exact h entry hmem

theorem Dict.forall_mem_putAll {α : Type} {holds : α → Prop} {more : List (String × α)}
    (hmore : ∀ entry ∈ more, holds entry.2) {dict : Dict α} (h : ∀ entry ∈ dict, holds entry.2) :
    ∀ entry ∈ Dict.putAll dict more, holds entry.2 := by
  induction more generalizing dict with
  | nil => exact h
  | cons first rest ih =>
      obtain ⟨hfirst, hrest⟩ := List.forall_mem_cons.mp hmore
      exact ih hrest (Dict.forall_mem_put hfirst h)

/-- What holds of null and of the values that a row of a join binds holds of its cells. -/
theorem Output.cell_of_bound {holds : Value → Prop} (hnull : holds .null) {tuple : Bindings}
    (htuple : ∀ name row, (name, some row) ∈ tuple → ∀ entry ∈ row, holds entry.2)
    (output : Output) : holds (output.cell tuple) := by
  cases output with
  | count label => exact hnull
  | column ref label =>
      rw [Output.cell]
      cases hfound : tuple.lookup ref.qualifier with
      | none => exact hnull
      | some found =>
          cases found with
          | none => exact hnull
          | some row =>
              cases hcell : row.lookup ref.name with
              | none => simpa [hcell] using hnull
              | some value =>
                  simpa [hcell] using htuple _ row (Dict.mem_of_lookup hfound) _
                    (Dict.mem_of_lookup hcell)

/-- It holds of what a statement yields for such a row.  A statement without outputs takes over all
columns of all tables, one table after the other. -/
theorem project_values {holds : Value → Prop} (hnull : holds .null) {outputs : List Output}
    (hcolumns : ∀ output ∈ outputs, ∃ ref label, output = .column ref label) {tuple : Bindings}
    (htuple : ∀ name row, (name, some row) ∈ tuple → ∀ entry ∈ row, holds entry.2) {result : Row}
    (h : project outputs tuple = .ok result) : ∀ entry ∈ result, holds entry.2 := by
  by_cases hsome : outputs = []
  · subst hsome
    cases h
    suffices hfold : ∀ before : Row, (∀ entry ∈ before, holds entry.2) → ∀ entry ∈ tuple.foldl
        (fun result source => Dict.putAll result (source.2.getD [])) before, holds entry.2 from
      hfold [] fun _ hentry => nomatch hentry
    induction tuple with
    | nil => exact fun before hbefore => hbefore
    | cons source rest ih =>
        obtain ⟨name, found⟩ := source
        refine fun before hbefore =>
          ih (fun name row hmem => htuple name row (List.mem_cons_of_mem _ hmem)) _
            (Dict.forall_mem_putAll ?_ hbefore)
        cases found with
        | none => exact fun _ hentry => nomatch hentry
        | some row => exact htuple name row List.mem_cons_self
  · rw [project_cells hsome hcolumns h]
    refine Dict.forall_mem_putAll (fun entry hentry => ?_) fun _ hentry => nomatch hentry
    obtain ⟨output, -, rfl⟩ := List.mem_map.mp hentry
    exact output.cell_of_bound hnull htuple

/-- So what holds of null and of all stored values holds of all that a statement yields. -/
theorem run_values {holds : Value → Prop} (hnull : holds .null)
    (hdb : ∀ source, ∀ row ∈ db.rows source, ∀ entry ∈ row, holds entry.2) {statement : Select}
    (hlabel : statement.label = none) (hscoped : selectScoped statement [])
    (hcolumns : ∀ output ∈ statement.outputs, ∃ ref label, output = .column ref label)
    {rows : List Row} (h : db.run statement = .ok rows) :
    ∀ row ∈ rows, ∀ entry ∈ row, holds entry.2 := by
  obtain ⟨tuples, hselected, hstored⟩ := @selectRows_stored db statement hlabel hscoped
  unfold Database.run at h
  rw [hselected, counter?_eq_none hcolumns] at h
  intro row hrow
  obtain ⟨tuple, htuple, hproject⟩ := exists_of_mapM_ok h hrow
  refine project_values hnull hcolumns (fun name found hmem => ?_) hproject
  obtain ⟨source, hsource⟩ := (hstored tuple (cut_subset _ _ htuple)).2.rows name found hmem
  exact hdb source found hsource

/-! ### What a request finds first -/

/-- The cells of columns of a table are those of its row. -/
theorem cells_rowOf (table : String) (columns : List String) (tuple : Bindings) :
    Dict.ofPairs (cells (plainOutputs table columns) tuple) = (tuple.rowOf table).only columns := by
  unfold cells plainOutputs Row.only
  rw [List.map_map]
  refine congrArg _ (List.map_congr_left fun column _ => ?_)
  exact congrArg (Prod.mk column) (tuple.cell_eq table column)

/-- A statement over one table yields columns of stored rows of the table. -/
theorem run_separate (table : Table) (args : FindArgs) (paging : Paging) {columns : List String}
    (hsome : columns ≠ []) :
    ∃ rows : List Row, rows ⊆ db.rowsOrBlank table.name ∧
      db.run { engine.baseStatement table args paging [] true with
        outputs := plainOutputs table.name columns } = .ok (rows.map (·.only columns)) := by
  obtain ⟨-, -, htable, hlabel⟩ := baseStatement_frame engine table args paging [] true
  obtain ⟨tuples, hrun, hstored⟩ := @run_stored db
    { engine.baseStatement table args paging [] true with
      outputs := plainOutputs table.name columns } hlabel
    (separateStatement_wellScoped engine table args paging columns)
    (by simpa [plainOutputs] using hsome) (List.forall_mem_map.mpr fun _ _ => ⟨_, _, rfl⟩)
  refine ⟨tuples.map (·.rowOf table.name), fun row hrow => ?_, hrun.trans ?_⟩
  · obtain ⟨tuple, htuple, rfl⟩ := List.mem_map.mp hrow
    exact (htable ▸ hstored tuple htuple).rowOf_mem
  · rw [List.map_map]
    exact congrArg _ (List.map_congr_left fun tuple _ => cells_rowOf table.name columns tuple)

/-- A joined statement that shows something yields the outputs of its layout, of rows that are made
of stored rows. -/
theorem run_joined_stored {table : Table} (args : FindArgs) (paging : Paging) {layout : Layout}
    {planner : Planner} (hlinked : planner.Linked table.name)
    (hwithin : layout.Within (planner.scope table.name)) (hsome : layout.projection ≠ []) :
    ∃ tuples : List Bindings, (∀ tuple ∈ tuples, tuple.Stored db table.name) ∧
      db.run (engine.joinedStatement table args paging layout planner) =
        .ok (tuples.map layout.yield) := by
  obtain ⟨hlabel, houtputs, -, -⟩ :=
    @joinedStatement_over db engine table args paging layout planner
  have htable : (engine.joinedStatement table args paging layout planner).table = table.name := by
    simp only [joinedStatement_frame]
    exact (baseStatement_frame engine table args paging layout.joinedTables _).2.2.1
  obtain ⟨tuples, hrun, hstored⟩ := @run_stored db
    (engine.joinedStatement table args paging layout planner) hlabel
    (joinedStatement_wellScoped engine table args paging hlinked hwithin) (houtputs ▸ hsome)
    fun output houtput => by
      obtain ⟨ref, label, heq, -⟩ := hwithin.projection output (houtputs ▸ houtput)
      exact ⟨ref, label, heq⟩
  rw [houtputs] at hrun
  exact ⟨tuples, htable ▸ hstored, hrun⟩

/-- Each record folded from such rows mirrors a row of the table, in its fields and in all columns
that it carries besides. -/
theorem Layout.Begins.assembled_stored {layout : Layout} {table : String}
    (h : layout.Begins schema table) {tuples : List Bindings}
    (hstored : ∀ tuple ∈ tuples, tuple.Stored db table) {columns : List String}
    (hcolumns : columns ⊆ layout.columns)
    (hnew : ∀ column ∈ columns, column ∉ layout.relations.map (·.name)) :
    ∀ record ∈ layout.assemble (tuples.map layout.yield),
      ∃ row ∈ db.rowsOrBlank table, record.Mirrors row columns := by
  intro record hrecord
  rw [h.assemble_yield] at hrecord
  obtain ⟨group, hgroup, rfl⟩ := List.mem_map.mp hrecord
  obtain ⟨first, hfirst, rfl⟩ := List.mem_map.mp hgroup
  have hmem : first ∈ tuples := (firstOfEach_sublist _ _ _).subset hfirst
  refine ⟨first.rowOf table, (hstored first hmem).rowOf_mem, layout.sorted_fold _, ?_⟩
  intro column hcolumn
  refine h.lookup_fold ?_ (hcolumns hcolumn) (hnew column hcolumn)
  rw [List.head?_map, head?_of_first hfirst, Option.map_some]

/-! ### Relations that are not joined -/

/-- A relation that cannot be joined is put off. -/
theorem BranchesPlanned.mem_deferred {relations : List (String × Branch)} {table : String}
    {joined : List JoinedBranch} {deferred : List (String × Branch)}
    (h : BranchesPlanned schema relations table joined deferred) {entry : String × Branch}
    (hentry : entry ∈ relations) (hnot : Planner.joinable? schema table entry.1 = none) :
    entry ∈ deferred := by
  induction relations generalizing joined deferred with
  | nil => cases hentry
  | cons first rest ih =>
      cases h with
      | joined hjoinable _ _ hrest =>
          rcases List.mem_cons.mp hentry with rfl | hmem
          · rw [hnot] at hjoinable
            cases hjoinable
          · exact ih hrest hmem
      | deferred _ _ hrest =>
          rcases List.mem_cons.mp hentry with rfl | hmem
          · exact List.mem_cons_self
          · exact List.mem_cons_of_mem _ (ih hrest hmem)

/-- Loading what was put off attaches to a record what is loaded for all of them, and changes under
joined relations alone. -/
theorem loadDeferred_loads {shape : Shape} {table : String} {layout : Layout}
    (hplanned : shape.Planned schema table layout) (hproper : shape.Proper schema table)
    (records : List Record) :
    (layout.loadDeferred schema records).Gives db.run fun load => ∃ here,
      (loadBranches schema table layout.deferred records).resultFrom db.run = .ok here ∧
        ∀ record name, name ∉ layout.relations.map (·.name) →
          (load record).lookup name = (here record).lookup name := by
  obtain ⟨-, hnodup, hbranches⟩ := Shape.proper_iff.mp hproper
  have htable := hplanned.table_eq
  have hrelations := hplanned.branches
  obtain ⟨hjoined, -, -⟩ := hrelations.nodup hnodup
  obtain ⟨layoutTable, _, _, _, _, _, _, _, joined, deferred⟩ := layout
  cases htable
  rw [Layout.loadDeferred]
  refine Load.Gives.bind (fun here hhere => hhere : Load.Gives db.run _ fun here =>
    (loadBranches schema layoutTable deferred records).resultFrom db.run = .ok here)
    fun here hhere => ?_
  refine Load.Gives.bind (loadDeferredBranches_gives hrelations hbranches hjoined _)
    fun beneath hbeneath => ?_
  exact Load.gives_pure ⟨here, hhere, fun record name hname => hbeneath.others _ name hname⟩

/-- Stripping keeps the fields and what was put off. -/
theorem lookup_strip (layout : Layout) (record : Record) {name : String}
    (hname : name ∈ layout.fields ∨ name ∈ layout.deferred.map (·.1))
    (hnew : name ∉ layout.relations.map (·.name)) :
    (layout.strip record).lookup name = record.lookup name := by
  obtain ⟨_, _, _, fields, _, _, _, _, relations, deferred⟩ := layout
  rw [Layout.strip, (stripBranches_others _ _).2 name hnew, Record.lookup_shown, if_pos]
  rw [Bool.or_eq_true, List.contains_iff_mem, List.contains_iff_mem]
  exact hname.imp_right fun hmem => List.mem_append_right _ hmem

/-- The records are found with a relation loaded: it was loaded, perhaps along with others, for
records that mirror rows of the table, and each record found has the fields of one of them and what
was loaded for it. -/
structure FoundWith (schema : Schema) (db : Database) (table : String) (fields : List String)
    (entry : String × Branch) (column : String) (records : List Record) : Prop where
  loaded : ∃ branches owners load, entry ∈ branches ∧ branchesProper schema branches table ∧
    (branches.map (·.1)).Nodup ∧
    (loadBranches schema table branches owners).resultFrom db.run = .ok load ∧
    (∀ owner ∈ owners, ∃ row ∈ db.rowsOrBlank table, owner.Mirrors row (fields ++ [column])) ∧
    ∀ record ∈ records, ∃ owner ∈ owners,
      (∀ field ∈ fields, record.lookup field = owner.lookup field) ∧
        record.lookup entry.1 = (load owner).lookup entry.1

section Found

variable {table : Table} {shape : Shape} (hschema : engine.schema.Consistent)
  (hproper : shape.Proper engine.schema table.name) {entry : String × Branch}
  (hentry : entry ∈ shape.relations) {relation : Relation}
  (hrelation : engine.schema.relation? table.name entry.1 = some relation) (args : FindArgs)
  (paging : Paging)

include hproper hentry hrelation

/-- By separate statements every relation is loaded for the rows of the base statement. -/
theorem findSeparately_found (hknown : engine.schema.table? table.name = some table) :
    (engine.findSeparately table args paging shape).Gives db.run
      (FoundWith engine.schema db table.name shape.fields entry relation.fromColumn) := by
  let names := shape.relations.map (·.1)
  let columns := withHidden shape.fields (table.linkColumns names)
  obtain ⟨hcolumns, hnodup, hbranches⟩ := Shape.proper_iff.mp hproper
  have hname : entry.1 ∈ names := List.mem_map_of_mem hentry
  have hneeded : shape.fields ++ [relation.fromColumn] ⊆ columns := by
    refine List.append_subset.mpr ⟨fun field hfield => mem_withHidden.mpr (Or.inl hfield), ?_⟩
    exact List.cons_subset.mpr ⟨mem_withHidden.mpr
      (Or.inr (mem_linkColumns hknown hname hrelation)), List.nil_subset _⟩
  obtain ⟨rows, hrows, hrun⟩ := @run_separate db engine table args paging columns
    (List.ne_nil_of_mem (hneeded (List.mem_append_right _ List.mem_cons_self)))
  unfold Engine.findSeparately
  refine Load.gives_ask hrun ?_
  refine Load.Gives.bind (fun load hload => And.intro hload
    (loadBranches_gives hbranches hnodup _ load hload)) fun load hload => ?_
  refine Load.gives_pure ⟨_, _, load, hentry, hbranches, hnodup, hload.1, fun owner howner => ?_,
    fun record hrecord => ?_⟩
  · obtain ⟨_, hmem, rfl⟩ := List.mem_map.mp howner
    obtain ⟨row, hrow, rfl⟩ := List.mem_map.mp hmem
    exact ⟨row, hrows hrow, (row.toRecord_only_mirrors columns).subset hneeded⟩
  · obtain ⟨owner, howner, rfl⟩ := List.mem_map.mp hrecord
    refine ⟨owner, howner, fun field hfield => ?_, ?_⟩
    · rw [Record.lookup_shown, if_pos (by simp [hfield])]
      exact hload.2.others _ _ (fields_disjoint hcolumns hbranches field hfield)
    · rw [Record.lookup_shown, if_pos]
      rw [Bool.or_eq_true, List.contains_iff_mem, List.contains_iff_mem]
      exact Or.inr hname

include hschema

/-- By a joined statement a relation that cannot be joined is loaded for the records folded from its
rows. -/
theorem findJoined_found (hnot : Planner.joinable? engine.schema table.name entry.1 = none)
    {layout : Layout} {planner : Planner}
    (hplanned : shape.PlannedAs engine.schema table.name layout planner) :
    (engine.findJoined table args paging layout planner).Gives db.run
      (FoundWith engine.schema db table.name shape.fields entry relation.fromColumn) := by
  obtain ⟨hcolumns, hnodup, hbranches⟩ := Shape.proper_iff.mp hproper
  have hrelations := hplanned.planned.branches
  obtain ⟨-, hnodupDeferred, hapart⟩ := hrelations.nodup hnodup
  have hlater : entry ∈ layout.deferred := hrelations.mem_deferred hentry hnot
  have hlink := hplanned.planned.links hlater hrelation
  have hnew : ∀ column ∈ shape.fields ++ [relation.fromColumn],
      column ∉ layout.relations.map (·.name) := by
    intro column hcolumn hmem
    obtain ⟨other, hother, rfl⟩ := List.mem_map.mp (hplanned.planned.names_subset hmem)
    rcases List.mem_append.mp hcolumn with hfield | hlink
    · exact fields_disjoint hcolumns hbranches _ hfield (List.mem_map_of_mem hother)
    · exact hschema.fromColumn_ne hrelation (branchesProper_iff.mp hbranches other hother).1
        (List.mem_singleton.mp hlink).symm
  have hcarried : shape.fields ++ [relation.fromColumn] ⊆ layout.columns := by
    refine List.append_subset.mpr ⟨?_, List.cons_subset.mpr ⟨hlink, List.nil_subset _⟩⟩
    exact hplanned.planned.fields_eq ▸ hplanned.planned.fields_subset
  obtain ⟨tuples, hstored, hrun⟩ := @run_joined_stored db engine table args paging layout planner
    hplanned.linked hplanned.within (hplanned.begins.projection_of_column hlink)
  have hassembled := hplanned.begins.assembled_stored hstored hcarried hnew
  unfold Engine.findJoined
  refine Load.gives_ask hrun ?_
  dsimp only
  generalize layout.assemble (tuples.map layout.yield) = records at hassembled ⊢
  have hpaged : (if layout.fansOut then pageOf paging.skip paging.size
      (distinctBy (table.distinctColumns args.distinct) records) else records) ⊆ records := by
    split
    · exact List.Subset.trans (pageOf_subset _ _ _) (distinctBy_subset _ _)
    · exact List.Subset.refl _
  refine Load.Gives.bind (loadDeferred_loads hplanned.planned hproper _) ?_
  rintro load ⟨here, hhere, hothers⟩
  have hdeferred := hrelations.deferred_proper hbranches
  have hgives := loadBranches_gives hdeferred hnodupDeferred _ here hhere
  refine Load.gives_pure ⟨_, _, here, hlater, hdeferred, hnodupDeferred, hhere,
    fun owner howner => hassembled owner (hpaged howner), fun record hrecord => ?_⟩
  obtain ⟨owner, howner, rfl⟩ := List.mem_map.mp hrecord
  have hname : entry.1 ∈ layout.deferred.map (·.1) := List.mem_map_of_mem hlater
  refine ⟨owner, howner, fun field hfield => ?_, ?_⟩
  · have hother := hnew field (List.mem_append_left _ hfield)
    rw [lookup_strip layout _ (Or.inl (hplanned.planned.fields_eq.symm ▸ hfield)) hother,
      hothers owner field hother]
    exact hgives.others _ _ fun hmem => fields_disjoint hcolumns hbranches field hfield
      (hrelations.names_perm.subset (List.mem_append_right _ hmem))
  · have hother : entry.1 ∉ layout.relations.map (·.name) := fun hmem => hapart _ hmem hname
    rw [lookup_strip layout _ (Or.inr hname) hother, hothers owner _ hother]

end Found

/-- However a request loads its relations, it finds records with the relation loaded if this cannot
be joined. -/
theorem findMany_found (hschema : engine.schema.Consistent) {table : Table}
    (hknown : engine.schema.table? table.name = some table) (args : FindArgs)
    {entry : String × Branch} (hentry : entry ∈ (engine.shapeFor table args).relations)
    {relation : Relation} (hrelation : engine.schema.relation? table.name entry.1 = some relation)
    (hnot : Planner.joinable? engine.schema table.name entry.1 = none) :
    (engine.findMany table.name args).Gives db.run (FoundWith engine.schema db table.name
      (engine.shapeFor table args).fields entry relation.fromColumn) := by
  have hproper : (engine.shapeFor table args).Proper engine.schema table.name :=
    engine.schema.shape_proper _ _ _ _
  have hturned : ∀ {records : List Record}, FoundWith engine.schema db table.name
      (engine.shapeFor table args).fields entry relation.fromColumn records →
      FoundWith engine.schema db table.name (engine.shapeFor table args).fields entry
        relation.fromColumn
        (if (engine.paging args).backwards then records.reverse else records) := by
    rintro records ⟨branches, owners, load, hmem, hbranches, hnodup, hload, howners, hfound⟩
    refine ⟨branches, owners, load, hmem, hbranches, hnodup, hload, howners, ?_⟩
    refine fun record hrecord => hfound record ?_
    split at hrecord
    · exact List.mem_reverse.mp hrecord
    · exact hrecord
  by_cases hjoins : engine.Joins table args
  · rw [findMany_joined hknown hjoins]
    refine gives_turned fun records hrecords => hturned ?_
    exact findJoined_found hschema hproper hentry hrelation args _ hnot
      (planFor_planned hschema table args) records hrecords
  · rw [findMany_unjoined hknown hjoins]
    refine gives_turned fun records hrecords => hturned ?_
    exact findSeparately_found hproper hentry hrelation args _ hknown records hrecords

end NestedQuery
