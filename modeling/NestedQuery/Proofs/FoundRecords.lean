import NestedQuery.Proofs.JoinedRecords
import NestedQuery.Proofs.Loading
import NestedQuery.Proofs.TupleFolding

/-!
# Records that a request finds

A request for records is answered by one joined statement and loading, or by a
base statement and loading.  The joined statement selects extensions of base
rows; folded, loaded and stripped they are the records found.  Since loading is
a function of one record, what is found depends on the rows of the statement
alone.
-/

namespace NestedQuery

variable {db : Database} {engine : Engine}

/-! ### The base statement -/

section Base

variable {table : Table} {args : FindArgs} {paging : Paging} (hdistinct : args.distinct = none)

include hdistinct

/-- Without distinct columns a base statement selects rows of its table, whatever its outputs. -/
theorem selectRows_base (outputs : List Output) :
    let statement := { engine.baseStatement table args paging [] true with outputs }
    selectRows db statement [] =
      .ok ((db.selected table.name statement.filter statement.orderBy).map
        fun row => [(statement.table, some row)]) := by
  let base := engine.baseStatement table args paging [] true
  obtain ⟨hjoins, -, htable, hlabel⟩ : base.joins = [] ∧ base.outputs = [] ∧
      base.table = table.name ∧ base.label = none :=
    baseStatement_frame engine table args paging [] true
  have hwithin : base.ClausesWithin [table.name] :=
    baseStatement_within engine table args paging true List.mem_cons_self (noTables_within _)
  have hgroup : base.groupBy = none := by
    simp [base, Engine.baseStatement, Table.distinctColumns, hdistinct]
  refine (selectRows_outputs base outputs []).trans ?_
  rw [← htable] at hwithin ⊢
  exact selectRows_one_table hlabel hgroup hjoins hwithin.filter
    fun keys hsome key hkey => List.mem_singleton.mp (hwithin.orderBy keys hsome key hkey)

/-- With columns as outputs it yields them of the rows that the request shows. -/
theorem run_base {columns : List String} (hsome : columns ≠ []) :
    db.run { engine.baseStatement table args paging [] true with
        outputs := plainOutputs table.name columns } =
      .ok ((engine.shownRows db table args paging).map (·.only columns)) := by
  obtain ⟨-, -, htable, -⟩ := baseStatement_frame engine table args paging [] true
  exact run_of_selected hsome (by rw [htable]) (selectRows_base hdistinct _)

end Base

/-- The statement that counts selects the rows of its table that satisfy its filter. -/
theorem selectRows_count (table : String) (filter : Option Filter) :
    selectRows db (engine.countStatement table filter) [] =
      .ok (((db.rows table).filter fun row =>
        db.passes (engine.schema.predicate? table table filter [] 0).1 [(table, some row)]).map
          fun row => [(table, some row)]) := by
  have hscoped : filterScoped (engine.schema.predicate? table table filter [] 0).1 [table] :=
    predicate?_scoped List.mem_cons_self (noTables_within _) 0
  unfold Engine.countStatement
  generalize (engine.schema.predicate? table table filter [] 0).1 = predicate at hscoped ⊢
  have hframe : ({ table, outputs := [.count (some countName)] } : Select).andWhere? predicate =
      { table, outputs := [.count (some countName)], filter := predicate } := by
    cases predicate <;> rfl
  have horder : ∀ keys, (none : Option (List SortKey)) = some keys → ∀ key ∈ keys,
      key.column.qualifier = table := by
    intro keys hkeys
    cases hkeys
  rw [hframe, selectRows_one_table rfl rfl rfl hscoped horder, selected_eq]

/-! ### The joined statement -/

/-- The one statement of a layout is the base statement with the joins, the outputs and the clauses
of the layout. -/
theorem joinedStatement_frame (engine : Engine) (table : Table) (args : FindArgs) (paging : Paging)
    (layout : Layout) (planner : Planner) :
    let base := engine.baseStatement table args paging layout.joinedTables !layout.fansOut
    let clauses := (layout.clauses engine.schema 0).1
    engine.joinedStatement table args paging layout planner =
      { base with
        outputs := layout.projection
        joins := planner.joins.map PlannedJoin.clause
        filter := (base.andWhere? (Expr.conjunction? clauses.predicates)).filter
        orderBy := orderClause
          (engine.baseOrder table args paging.backwards layout.joinedTables ++ clauses.keys) } := by
  intro base clauses
  obtain ⟨hjoins, houtputs, -, -⟩ : base.joins = [] ∧ base.outputs = [] ∧
      base.table = table.name ∧ base.label = none :=
    baseStatement_frame engine table args paging layout.joinedTables (!layout.fansOut)
  have horder : base.orderBy.getD [] =
      engine.baseOrder table args paging.backwards layout.joinedTables := by
    simp only [base, Engine.baseStatement, orderClause]
    split
    · next hempty => rw [List.isEmpty_iff.mp hempty, Option.getD_none]
    · rfl
  have hframe : engine.joinedStatement table args paging layout planner =
      { SelectOf.andWhere? { base with
          outputs := base.outputs ++ layout.projection
          joins := base.joins ++ planner.joins.map PlannedJoin.clause }
          (Expr.conjunction? clauses.predicates) with
        orderBy := orderClause (base.orderBy.getD [] ++ clauses.keys) } := by
    cases hcondition : Expr.conjunction? clauses.predicates <;>
      simp only [Engine.joinedStatement, base, clauses, hcondition] <;> rfl
  rw [hframe, horder, hjoins, houtputs]
  cases Expr.conjunction? clauses.predicates <;> rfl

/-- A conjunction keeps what all its parts accept. -/
theorem passes_conjunction? {parts : List Expr} {scope : List String}
    (h : ∀ part ∈ parts, part.Scoped scope) {bindings : Bindings}
    (hbound : scope ⊆ Dict.names bindings) :
    db.passes (Expr.conjunction? parts) bindings =
      parts.all fun part => accepts (part.truth db) bindings := by
  cases parts with
  | nil => rfl
  | cons first rest =>
      obtain ⟨hfirst, hrest⟩ := List.forall_mem_cons.mp h
      rw [List.all_cons]
      change accepts (Expr.truth db (rest.foldl Expr.and first)) bindings = _
      clear h
      induction rest generalizing first with
      | nil => rw [List.foldl_nil, List.all_nil, Bool.and_true]
      | cons second others ih =>
          obtain ⟨hsecond, hothers⟩ := List.forall_mem_cons.mp hrest
          obtain ⟨l, hl⟩ := hfirst.eval_ok db hbound
          obtain ⟨r, hr⟩ := hsecond.eval_ok db hbound
          have hboth : (first.and second).Scoped scope := by
            rw [Expr.and, Expr.Scoped]
            exact ⟨hfirst, hsecond⟩
          rw [List.foldl_cons, ih _ hboth hothers, accepts_and hl hr, List.all_cons, Bool.and_assoc]

/-- Whether values come after the cursor: in every column of it on its own. -/
def Cursor.precedes (cursor : Cursor) (value : String → Value) : Bool :=
  cursor.all fun pair => (value pair.1).compare pair.2 == some .gt

/-- The condition of a cursor keeps the rows whose base row comes after it. -/
theorem passes_cursor {table : Table} {cursor : Cursor}
    (h : ∀ pair ∈ cursor, table.hasColumn pair.1 = true) (row : Row) (more : Bindings) :
    db.passes (table.cursorPredicate? cursor false) ((table.name, some row) :: more) =
      cursor.precedes row.value := by
  have hall : cursor.filter (fun pair => table.hasColumn pair.1) = cursor := List.filter_eq_self.mpr h
  have hscoped : ∀ part ∈ cursor.map fun pair : String × Value =>
      Expr.compare (.col table.name pair.1) .gt (.literal pair.2), part.Scoped [table.name] := by
    intro part hpart
    obtain ⟨pair, -, rfl⟩ := List.mem_map.mp hpart
    simp only [Expr.col, Expr.Scoped]
    exact ⟨List.mem_singleton.mpr rfl, trivial⟩
  have hbound : [table.name] ⊆ Dict.names ((table.name, some row) :: more) :=
    List.cons_subset_cons _ (List.nil_subset _)
  rw [Table.cursorPredicate?, hall]
  refine (passes_conjunction? hscoped hbound).trans ?_
  rw [List.all_map, Cursor.precedes]
  refine List.all_congr rfl fun pair => ?_
  have heval : (Expr.compare (.col table.name pair.1) .gt (.literal pair.2)).eval db
      ((table.name, some row) :: more) =
        .ok (truthValue (((row.value pair.1).compare pair.2).map Comparison.gt.holds)) := by
    have hcell := @Bindings.value_eq_cell ((table.name, some row) :: more) ⟨table.name, pair.1⟩
      (hbound List.mem_cons_self)
    rw [Bindings.cell_cons_self] at hcell
    rw [Expr.eval, Expr.col, Expr.eval, hcell]
    rfl
  rw [Function.comp_apply, accepts_of_ok (Expr.truth_ok heval), truth_truthValue]
  rcases (row.value pair.1).compare pair.2 with _ | _ | _ | _ <;> rfl

/-- The rows of a base table with all that the joins of a plan put beside them. -/
def Planner.tuples (planner : Planner) (db : Database) (table : String) : List Bindings :=
  (db.rows table).flatMap fun row =>
    extensions db (planner.joins.map PlannedJoin.clause) [(table, some row)]

theorem Planner.tuples_over (planner : Planner) (db : Database) (table : String) :
    TuplesOver table (db.rows table) (planner.tuples db table) := by
  intro tuple htuple
  obtain ⟨row, hrow, hmem⟩ := List.mem_flatMap.mp htuple
  obtain ⟨more, rfl, -⟩ := extension_begins hmem
  exact ⟨row, hrow, more, rfl⟩

theorem Planner.names_of_tuple (planner : Planner) {table : String} {tuple : Bindings}
    (h : tuple ∈ planner.tuples db table) : Dict.names tuple = planner.scope table := by
  obtain ⟨row, -, hmem⟩ := List.mem_flatMap.mp h
  obtain ⟨more, rfl, hmore⟩ := extension_begins hmem
  rw [List.singleton_append, Dict.names, List.map_cons, Planner.scope]
  refine congrArg _ ((names_of_extends hmore).trans ?_)
  rw [List.map_map]
  rfl

/-- A base statement keeps the rows that satisfy its filter and come after its cursor. -/
theorem passes_baseStatement {table : Table} {args : FindArgs} {paging : Paging}
    {joined : JoinedTables} {paged : Bool} {scope : List String} (hmem : table.name ∈ scope)
    (hjoined : tablesWithin joined scope) {bindings : Bindings}
    (hbound : scope ⊆ Dict.names bindings) :
    db.passes (engine.baseStatement table args paging joined paged).filter bindings =
      (db.passes (engine.schema.predicate? table.name table.name args.filter joined 0).1 bindings &&
        db.passes (args.cursor.bind (table.cursorPredicate? · paging.backwards)) bindings) := by
  have hpredicate : filterScoped (engine.schema.predicate? table.name table.name args.filter
      joined 0).1 scope := predicate?_scoped hmem hjoined 0
  have hcursor := cursorPredicate?_scoped table args.cursor paging.backwards hmem
  have hplain : filterScoped ({ table := table.name } : Select).filter scope := by
    rw [filterScoped]
    trivial
  have hwhere : filterScoped (SelectOf.andWhere? { table := table.name }
      (engine.schema.predicate? table.name table.name args.filter joined 0).1).filter scope :=
    (SelectOf.ClausesWithin.andWhere? ⟨hplain, by simp, by simp⟩ hpredicate).filter
  simp only [Engine.baseStatement]
  rw [passes_andWhere? hwhere hcursor hbound, passes_andWhere? hplain hpredicate hbound]
  rfl

/-- A joined statement keeps the rows that satisfy its filter, come after its cursor, and satisfy
the filters of the joined relations. -/
theorem passes_joinedStatement {table : Table} {args : FindArgs} {paging : Paging} {layout : Layout}
    {planner : Planner} (hwithin : layout.Within (planner.scope table.name)) {tuple : Bindings}
    (htuple : tuple ∈ planner.tuples db table.name) :
    db.passes (engine.joinedStatement table args paging layout planner).filter tuple =
      (db.passes (engine.schema.predicate? table.name table.name args.filter
          layout.joinedTables 0).1 tuple &&
        db.passes (args.cursor.bind (table.cursorPredicate? · paging.backwards)) tuple &&
        db.passes (Expr.conjunction? (layout.clauses engine.schema 0).1.predicates) tuple) := by
  have hmem : table.name ∈ planner.scope table.name := List.mem_cons_self
  have hbound : planner.scope table.name ⊆ Dict.names tuple := by
    rw [planner.names_of_tuple htuple]
    exact List.Subset.refl _
  have hclauses : filterScoped (Expr.conjunction? (layout.clauses engine.schema 0).1.predicates)
      (planner.scope table.name) := conjunction?_scoped (hwithin.clauses 0).predicates
  have hbase := baseStatement_within engine table args paging (!layout.fansOut) hmem
    hwithin.joinedTables
  rw [joinedStatement_frame]
  dsimp only
  rw [passes_andWhere? hbase.filter hclauses hbound,
    passes_baseStatement hmem hwithin.joinedTables hbound]

/-- What a joined statement selects, before its window. -/
def Engine.joinedTuples (engine : Engine) (db : Database) (table : Table) (args : FindArgs)
    (paging : Paging) (layout : Layout) (planner : Planner) : List Bindings :=
  let statement := engine.joinedStatement table args paging layout planner
  inOrder statement.orderBy ((planner.tuples db table.name).filter (db.passes statement.filter))

theorem joinedTuples_over (table : Table) (args : FindArgs) (paging : Paging) (layout : Layout)
    (planner : Planner) : TuplesOver table.name (db.rows table.name)
      (engine.joinedTuples db table args paging layout planner) := by
  intro tuple htuple
  exact planner.tuples_over db table.name tuple
    (List.mem_filter.mp ((inOrder_perm _ _).subset htuple)).1

/-- A layout that carries a column has something to show. -/
theorem Layout.Begins.projection_of_column {schema : Schema} {layout : Layout} {table : String}
    (h : layout.Begins schema table) {column : String} (hcolumn : column ∈ layout.columns) :
    layout.projection ≠ [] := by
  have houtputs := h.named.level.1
  have hnames := Layout.names_projection h.named
  intro hnone
  have hempty : layout.outputs = [] := by
    refine List.sublist_nil.mp ?_
    rw [← show layout.outputNames = [] by rw [← hnames, hnone, List.map_nil]]
    exact outputs_subset layout
  rw [hempty] at houtputs
  exact List.ne_nil_of_mem hcolumn (List.length_eq_zero_iff.mp houtputs.symm)

theorem Layout.Begins.projection_ne_nil {schema : Schema} {layout : Layout} {table : String}
    (h : layout.Begins schema table) (hkey : layout.key ≠ []) : layout.projection ≠ [] := by
  obtain ⟨column, hcolumn⟩ := List.exists_mem_of_ne_nil _ hkey
  exact h.projection_of_column (h.carried (List.mem_append_right _ hcolumn))

/-- Where base rows are told apart by their keys, joined rows have something to show. -/
theorem Layout.Begins.projection_of_apart {schema : Schema} {layout : Layout} {table : String}
    (h : layout.Begins schema table) (hapart : ApartBy layout.key (db.rows table))
    {tuples : List Bindings} (hover : TuplesOver table (db.rows table) tuples)
    (hsome : tuples ≠ []) : layout.projection ≠ [] := by
  obtain ⟨tuple, htuple⟩ := List.exists_mem_of_ne_nil _ hsome
  obtain ⟨row, hrow, -⟩ := hover tuple htuple
  obtain ⟨column, hcolumn, -⟩ := hapart.present row hrow
  exact h.projection_ne_nil (List.ne_nil_of_mem hcolumn)

section Joined

variable {table : Table} {args : FindArgs} {paging : Paging} {layout : Layout} {planner : Planner}

/-- A joined statement extends the base rows by the joins of the plan, under their own name. -/
theorem joinedStatement_over (engine : Engine) (table : Table) (args : FindArgs) (paging : Paging)
    (layout : Layout) (planner : Planner) :
    let statement := engine.joinedStatement table args paging layout planner
    statement.label = none ∧ statement.outputs = layout.projection ∧
      statement.joins = planner.joins.map PlannedJoin.clause ∧
      statement.tuples db = planner.tuples db table.name := by
  intro statement
  have hframe := joinedStatement_frame engine table args paging layout planner
  obtain ⟨-, -, htable, hlabel⟩ :=
    baseStatement_frame engine table args paging layout.joinedTables (!layout.fansOut)
  have hjoins : statement.joins = planner.joins.map PlannedJoin.clause := by
    simp only [statement, hframe]
  have hname : statement.table = table.name := by
    simp only [statement, hframe]
    exact htable
  refine ⟨?_, ?_, hjoins, ?_⟩
  · simp only [statement, hframe]
    exact hlabel
  · simp only [statement, hframe]
  · unfold SelectOf.tuples Planner.tuples
    rw [hname, hjoins]

section Runs

variable (hwithin : layout.Within (planner.scope table.name))

include hwithin

/-- Of the joined rows that it selects a joined statement yields the outputs of its layout, if there
are any. -/
theorem run_of_joined {tuples : List Bindings} (hsubset : tuples ⊆ planner.tuples db table.name)
    (hselected : selectRows db (engine.joinedStatement table args paging layout planner) [] =
      .ok tuples) (hshown : tuples ≠ [] → layout.projection ≠ []) :
    db.run (engine.joinedStatement table args paging layout planner) =
      .ok ((Window.cut (engine.joinedStatement table args paging layout planner).window tuples).map
        layout.yield) := by
  obtain ⟨-, houtputs, -, -⟩ :=
    @joinedStatement_over db engine table args paging layout planner
  rw [run_cells hselected, houtputs]
  · rfl
  · rwa [houtputs]
  · intro output houtput
    rw [houtputs] at houtput
    obtain ⟨ref, label, heq, hmem⟩ := hwithin.projection output houtput
    refine ⟨ref, label, heq, fun tuple htuple => ?_⟩
    rw [planner.names_of_tuple (hsubset htuple)]
    exact hmem

variable (hlinked : planner.Linked table.name)

include hlinked

/-- Where joins only extend rows and nothing is grouped, it selects the joined rows that its filter
accepts, in its order. -/
theorem selectRows_joined (hkinds : ∀ join ∈ planner.joins, Rowwise join.clause)
    (hdistinct : layout.fansOut = true ∨ args.distinct = none) :
    selectRows db (engine.joinedStatement table args paging layout planner) [] =
      .ok (engine.joinedTuples db table args paging layout planner) := by
  obtain ⟨hlabel, -, hjoins, htuples⟩ :=
    @joinedStatement_over db engine table args paging layout planner
  have hgroup : (engine.baseStatement table args paging layout.joinedTables
      (!layout.fansOut)).groupBy = none := by
    rcases hdistinct with hfans | hnone
    · simp [Engine.baseStatement, hfans]
    · simp [Engine.baseStatement, Table.distinctColumns, hnone]
  unfold Engine.joinedTuples
  dsimp only
  rw [← htuples]
  refine selectRows_rowwise hlabel ?_
    (joinedStatement_wellScoped engine table args paging hlinked hwithin).clauses ?_
  · rw [joinedStatement_frame]
    exact hgroup
  · rw [hjoins]
    exact List.forall_mem_map.mpr hkinds

/-- So it yields their outputs, if base rows have a key. -/
theorem run_joined (hbegins : layout.Begins engine.schema table.name)
    (hkinds : ∀ join ∈ planner.joins, Rowwise join.clause)
    (hapart : ApartBy layout.key (db.rows table.name))
    (hdistinct : layout.fansOut = true ∨ args.distinct = none) :
    db.run (engine.joinedStatement table args paging layout planner) =
      .ok ((Window.cut (engine.joinedStatement table args paging layout planner).window
        (engine.joinedTuples db table args paging layout planner)).map layout.yield) := by
  refine run_of_joined hwithin ?_ (selectRows_joined hwithin hlinked hkinds hdistinct)
    (hbegins.projection_of_apart hapart (joinedTuples_over table args paging layout planner))
  exact fun tuple htuple => (List.mem_filter.mp ((inOrder_perm _ _).subset htuple)).1

end Runs

end Joined

/-- The outputs of a row of a join hold values of the database. -/
theorem cells_valid (hdb : db.Valid) {statement : Select} {tuple : Bindings}
    (htuple : tuple ∈ statement.tuples db) (outputs : List Output) :
    Row.Valid (Dict.ofPairs (cells outputs tuple)) := by
  have hbound : ∀ name row, tuple.lookup name = some (some row) → row.Valid := by
    intro name row hlookup
    obtain ⟨base, hbase, more, rfl, hmore⟩ := mem_tuples htuple
    rcases List.mem_cons.mp (Dict.mem_of_lookup hlookup) with hfirst | hrest
    · rw [Prod.mk.injEq, Option.some_inj] at hfirst
      exact hfirst.2 ▸ hdb statement.table base hbase
    · obtain ⟨join, -, hext⟩ := exists_partner hmore.flip hrest
      rcases hext.2 with hnone | ⟨other, hother, hsome⟩
      · cases hnone
      · cases hsome
        exact hdb _ _ hother
  intro column
  rw [Row.value, Dict.lookup_ofPairs]
  cases hlookup : (cells outputs tuple).reverse.lookup column with
  | none => trivial
  | some value =>
      obtain ⟨output, -, heq⟩ :=
        List.mem_map.mp (List.mem_reverse.mp (Dict.mem_of_lookup hlookup))
      cases heq
      cases output with
      | count label => trivial
      | column ref label =>
          rw [Option.getD_some, Output.cell]
          cases hrow : (tuple.lookup ref.qualifier).join with
          | none => trivial
          | some row => exact hbound _ row (Option.join_eq_some_iff.mp hrow) ref.name

theorem yield_valid (hdb : db.Valid) {table : Table} {layout : Layout} {planner : Planner}
    {tuple : Bindings} (htuple : tuple ∈ planner.tuples db table.name) :
    Row.Valid (layout.yield tuple) := by
  refine @cells_valid db hdb
    { table := table.name, joins := planner.joins.map PlannedJoin.clause } tuple htuple _

/-! ### What is found -/

/-- The records folded from a joined statement, cut to the page where rows may repeat records. -/
def Engine.foldedRecords (engine : Engine) (db : Database) (table : Table) (args : FindArgs)
    (paging : Paging) (layout : Layout) (planner : Planner) : List Record :=
  let window := (engine.joinedStatement table args paging layout planner).window
  let records := layout.assemble
    ((Window.cut window (engine.joinedTuples db table args paging layout planner)).map layout.yield)
  if layout.fansOut then pageOf paging.skip paging.size records else records

section Found

variable {table : Table} {args : FindArgs} {shape : Shape} (hschema : engine.schema.Consistent)
  (hdb : db.Valid) (hproper : shape.Proper engine.schema table.name)
  (hsorts : shape.Throughout engine.schema (SortsAlone engine.schema db) table.name)

include hschema hdb hproper hsorts

/-- By a joined statement a request finds the records assembled of its rows, made distinct and paged
where rows may repeat records, then loaded and stripped. -/
theorem findJoined_gives (paging : Paging) {layout : Layout} {planner : Planner}
    (hplanned : shape.Planned engine.schema table.name layout) {rows : List Row}
    (hrun : db.run (engine.joinedStatement table args paging layout planner) = .ok rows)
    (hholds : ∀ record ∈ layout.assemble rows, layout.Holds validOwner record) :
    (engine.findJoined table args paging layout planner).Gives db.run fun records =>
      records = (if layout.fansOut then pageOf paging.skip paging.size
          (distinctBy (table.distinctColumns args.distinct) (layout.assemble rows))
        else layout.assemble rows).map fun record =>
          layout.strip (layout.loaded engine.schema db record) := by
  have hpaged : (if layout.fansOut then pageOf paging.skip paging.size
      (distinctBy (table.distinctColumns args.distinct) (layout.assemble rows))
        else layout.assemble rows) ⊆ layout.assemble rows := by
    split
    · exact List.Subset.trans (pageOf_subset _ _ _) (distinctBy_subset _ _)
    · exact List.Subset.refl _
  unfold Engine.findJoined
  refine Load.gives_ask hrun ?_
  refine Load.Gives.bind (loadDeferred_alone hschema hdb hplanned hproper hsorts fun record hrecord =>
    hholds record (hpaged hrecord)) fun load hload => ?_
  refine Load.gives_pure ?_
  exact List.map_congr_left fun record hrecord => congrArg _ (hload record hrecord)

/-- If no distinct columns are asked for, it finds the folded records, loaded and stripped. -/
theorem findJoined_loaded (paging : Paging) {layout : Layout} {planner : Planner}
    (hplan : shape.layout engine.schema table.name [] = (layout, planner))
    (hkinds : ∀ join ∈ planner.joins, Rowwise join.clause)
    (hapart : ApartBy layout.key (db.rows table.name)) (hdistinct : args.distinct = none) :
    (engine.findJoined table args paging layout planner).Gives db.run fun records =>
      records = (engine.foldedRecords db table args paging layout planner).map fun record =>
        layout.strip (layout.loaded engine.schema db record) := by
  have hplanned := Shape.planned_as hschema hproper hplan
  have hvalid : ∀ row ∈ (Window.cut (engine.joinedStatement table args paging layout planner).window
      (engine.joinedTuples db table args paging layout planner)).map layout.yield, Row.Valid row := by
    intro row hrow
    obtain ⟨tuple, htuple, rfl⟩ := List.mem_map.mp hrow
    have hmem := (inOrder_perm _ _).subset (cut_subset _ _ htuple)
    exact yield_valid hdb (List.mem_filter.mp hmem).1
  have hdistinctColumns : table.distinctColumns args.distinct = [] := by
    rw [hdistinct]
    rfl
  have hgives := findJoined_gives hschema hdb hproper hsorts paging hplanned.planned
    (run_joined hplanned.within hplanned.linked hplanned.begins hkinds hapart (Or.inr hdistinct))
    (assemble_holds assembled_valid hplanned.planned hproper hplanned.begins.named hvalid)
  rw [hdistinctColumns] at hgives
  exact hgives

/-- By a base statement a request finds its rows, loaded and without hidden columns.  Without
relations nothing is loaded, and the rows need not be looked at. -/
theorem findSeparately_gives (paging : Paging) {rows : List Row} :
    let names := shape.relations.map (·.1)
    db.run { engine.baseStatement table args paging [] true with
      outputs := plainOutputs table.name
        (withHidden shape.fields (table.linkColumns names)) } = .ok rows →
    (shape.relations ≠ [] → ∀ row ∈ rows, row.toRecord.Valid) →
    (engine.findSeparately table args paging shape).Gives db.run fun records =>
      records = rows.map fun row =>
        (loadedBranches engine.schema db shape.relations table.name row.toRecord).shown shape.fields
          names := by
  intro names hrun hvalid
  unfold Engine.findSeparately
  refine Load.gives_ask hrun ?_
  by_cases hnone : shape.relations = []
  · simp only [names, hnone, loadedBranches_nil]
    refine Load.gives_pure ?_
    rw [List.map_map]
    rfl
  refine Load.Gives.bind (loadBranches_alone hschema hdb (Shape.proper_iff.mp hproper).2.2
    (Shape.throughout_iff.mp hsorts) (List.forall_mem_map.mpr (hvalid hnone))) fun load hload => ?_
  refine Load.gives_pure ?_
  rw [List.map_map]
  refine List.map_congr_left fun row hrow => ?_
  rw [Function.comp_apply, hload]
  intro entry hentry relation hrelation
  exact List.mem_map_of_mem (List.mem_map_of_mem hrow)

omit hdb hsorts hschema in
/-- Without columns there is nothing to show and nothing to load. -/
theorem shown_nothing (hknown : engine.schema.table? table.name = some table)
    (hnone : withHidden shape.fields (table.linkColumns (shape.relations.map (·.1))) = []) :
    shape.fields = [] ∧ shape.relations = [] := by
  refine ⟨List.eq_nil_iff_forall_not_mem.mpr fun field hfield => ?_,
    List.eq_nil_iff_forall_not_mem.mpr fun entry hentry => ?_⟩
  · exact List.eq_nil_iff_forall_not_mem.mp hnone field (mem_withHidden.mpr (Or.inl hfield))
  · obtain ⟨-, relation, hrelation, -⟩ :=
      branchesProper_iff.mp (Shape.proper_iff.mp hproper).2.2 entry hentry
    exact List.eq_nil_iff_forall_not_mem.mp hnone _ (mem_withHidden.mpr (Or.inr
      (mem_linkColumns hknown (List.mem_map_of_mem hentry) hrelation)))

/-- If no distinct columns are asked for, it finds the selected rows, loaded and stripped.  Without
columns there are only as many empty records as rows. -/
theorem findSeparately_loaded (hknown : engine.schema.table? table.name = some table)
    (paging : Paging) (hdistinct : args.distinct = none) :
    let names := shape.relations.map (·.1)
    (engine.findSeparately table args paging shape).Gives db.run fun records =>
      records = (engine.shownRows db table args paging).map fun row =>
          (loadedBranches engine.schema db shape.relations table.name
            (row.only (withHidden shape.fields (table.linkColumns names))).toRecord).shown
              shape.fields names := by
  intro names
  by_cases hnone : withHidden shape.fields (table.linkColumns names) = []
  · obtain ⟨hfields, hrelations⟩ := shown_nothing hproper hknown hnone
    have hempty : ∀ record : Record, record.shown shape.fields names = [] := by
      intro record
      simp only [names, hfields, hrelations, List.map_nil]
      exact List.filter_eq_nil_iff.mpr fun _ _ => Bool.false_ne_true
    obtain ⟨rows, hrun, hlength⟩ := run_of_selected_bare
      (show plainOutputs table.name (withHidden shape.fields (table.linkColumns names)) = [] by
        rw [hnone]; rfl) (selectRows_base hdistinct _)
    intro records hrecords
    rw [findSeparately_gives hschema hdb hproper hsorts paging hrun (absurd hrelations) records
      hrecords]
    refine (List.map_congr_left fun row _ => hempty _).trans
      (Eq.trans ?_ (List.map_congr_left fun row _ => (hempty _).symm))
    rw [List.map_const', List.map_const', hlength, cut_map, List.length_map]
    rfl
  · intro records hrecords
    rw [findSeparately_gives hschema hdb hproper hsorts paging (run_base hdistinct hnone)
      (fun _ => List.forall_mem_map.mpr fun row hrow =>
        Row.only_valid (hdb table.name row (shownRows_subset hrow)) _) records hrecords, List.map_map]
    rfl

end Found

end NestedQuery
