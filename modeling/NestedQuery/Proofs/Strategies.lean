import NestedQuery.Proofs.BaseRows
import NestedQuery.Proofs.JoinedRecords
import NestedQuery.Proofs.PlannedJoins

/-!
# The two strategies

One joined statement, folded, finds the same records as a base statement with
follow-up statements: both find the nested records of the base rows that the
request selects.  For the joined statement its rows come in blocks, one for each
base row; the window cuts blocks where these are single rows, and is left to the
records where they are not.
-/

namespace NestedQuery

variable {db : Database}

/-- What it takes for the strategies to agree on a request: rows are told apart by primary keys,
all relations that are asked for are fit to be joined, the clauses leave these relations alone,
records need not be distinct, every sort column has values of one kind, and the table is not named
like a join. -/
structure Comparable (engine : Engine) (db : Database) (table : Table) (args : FindArgs) :
    Prop where
  apart : ApartBy (engine.schema.usableKey table.name) (db.rows table.name)
  relations : (engine.schema.shape table.name args.selected args.included args.omitted).Throughout
    engine.schema (JoinsAsLinked engine.schema db) table.name
  filter : ∀ filter, args.filter = some filter → filter.Avoids
    ((engine.schema.shape table.name args.selected args.included args.omitted).relations.map (·.1))
  orderBy : ∀ order, args.orderBy = some order → order.Avoids
    ((engine.schema.shape table.name args.selected args.included args.omitted).relations.map (·.1))
  distinct : args.distinct = none
  sorted : ∀ key ∈ engine.baseOrder table args (engine.paging args).backwards [],
    Value.OneKind ((db.rows table.name).map (·.value key.column.name))
  labels : ∀ join ∈ ((engine.schema.shape table.name args.selected args.included
    args.omitted).layout engine.schema table.name (table.distinctColumns args.distinct)).2.joins,
    join.label ≠ table.name

section Base

variable {engine : Engine} {table : Table} {args : FindArgs}

/-- The clauses of a base statement are about its table, whose sort columns have values in
order. -/
theorem Comparable.base_clauses (h : Comparable engine db table args) (paged : Bool) :
    let base := engine.baseStatement table args (engine.paging args) [] paged
    base.groupBy = none ∧ filterScoped base.filter [table.name] ∧
      ∀ keys, base.orderBy = some keys → ∀ key ∈ keys, key.column.qualifier = table.name ∧
        Value.Ordered ((db.rows table.name).map (·.value key.column.name)) := by
  intro base
  have hwithin : base.ClausesWithin [table.name] :=
    baseStatement_within engine table args (engine.paging args) paged List.mem_cons_self
      (noTables_within _)
  refine ⟨?_, hwithin.filter, ?_⟩
  · have hdistinct : table.distinctColumns args.distinct = [] := by
      rw [h.distinct]
      rfl
    simp only [base, Engine.baseStatement, hdistinct]
    simp
  · intro keys hkeys key hkey
    refine ⟨List.mem_singleton.mp (hwithin.orderBy keys hkeys key hkey), ?_⟩
    have horder : keys = engine.baseOrder table args (engine.paging args).backwards [] :=
      orderClause_some hkeys
    rw [horder] at hkey
    exact (h.sorted key hkey).ordered

/-- The rows that a request selects are told apart. -/
theorem Comparable.selected_apart (h : Comparable engine db table args)
    (filter : Option Expr) (orderBy : Option (List SortKey)) :
    db.selected table.name filter orderBy ⊆ db.rows table.name ∧
      ApartBy (engine.schema.usableKey table.name) (db.selected table.name filter orderBy) := by
  obtain ⟨kept, hsublist, hperm⟩ := @selected_perm db table.name filter orderBy
  exact ⟨fun row hrow => hsublist.subset (hperm.subset hrow),
    (h.apart.sublist hsublist).perm hperm⟩

/-- The window of a base statement is the page of the request. -/
theorem pageOf_eq_cut {α : Type} (paging : Paging) (items : List α) :
    pageOf paging.skip paging.size items =
      Window.cut (engine.baseStatement table args paging [] true).window items := by
  have hwindow : (engine.baseStatement table args paging [] true).window =
      if paging.size.isSome || paging.skip.isSome then some ⟨paging.size, paging.skip⟩
      else none := by
    simp only [Engine.baseStatement, Bool.true_and]
  rw [hwindow]
  unfold pageOf Window.cut
  cases paging.size with
  | some size => rfl
  | none => cases paging.skip <;> rfl

end Base

/-! ### The joined statement -/

section Joined

variable {schema : Schema}

theorem joinedTables_eq (layout : Layout) : layout.joinedTables = layout.relations.map fun joined =>
    (joined.name, ⟨joined.layout.table, joined.layout.qualifier, joined.layout.joinedTables⟩) := by
  obtain ⟨_, _, _, _, _, _, _, _, relations, _⟩ := layout
  rw [Layout.joinedTables]
  induction relations with
  | nil => rfl
  | cons joined rest ih => rw [branchTables, ih, List.map_cons]

theorem names_joinedTables (layout : Layout) :
    Dict.names layout.joinedTables = layout.relations.map (·.name) := by
  rw [joinedTables_eq, Dict.names, List.map_map]
  rfl

theorem lookup_joinedTables (layout : Layout) {name : String}
    (h : name ∉ layout.relations.map (·.name)) : layout.joinedTables.lookup name = none :=
  Dict.lookup_eq_none_iff.mpr (names_joinedTables layout ▸ h)

/-- The statement of a layout whose relations bring no clauses is the base statement with joins and
outputs. -/
theorem joinedStatement_eq {engine : Engine} {layout : Layout}
    (h : layout.clauses engine.schema 0 = ({}, 0)) (table : Table) (args : FindArgs) (paging : Paging)
    (planner : Planner) :
    engine.joinedStatement table args paging layout planner =
      { engine.baseStatement table args paging layout.joinedTables (!layout.fansOut) with
        outputs := layout.projection
        joins := planner.joins.map PlannedJoin.clause } := by
  have hframe := baseStatement_frame engine table args paging layout.joinedTables (!layout.fansOut)
  have horder : orderClause ((engine.baseStatement table args paging layout.joinedTables
      (!layout.fansOut)).orderBy.getD [] ++ []) =
        (engine.baseStatement table args paging layout.joinedTables (!layout.fansOut)).orderBy := by
    simp only [Engine.baseStatement]
    generalize engine.baseOrder table args paging.backwards layout.joinedTables = keys
    cases keys <;> simp [orderClause]
  unfold Engine.joinedStatement
  rw [h]
  generalize engine.baseStatement table args paging layout.joinedTables (!layout.fansOut) = base
    at hframe horder ⊢
  obtain ⟨hjoins, houtputs, -, -⟩ := hframe
  simp only [Expr.conjunction?, Expr.joinAll?, SelectOf.andWhere?, Planner.apply, hjoins, houtputs,
    List.nil_append, horder]

/-- Combinations for a row of the base table begin with this row. -/
theorem Layout.expand_beginsWith {layout : Layout} {table : String}
    (hqualifier : layout.qualifier = table) (rows : List Row) :
    BeginsWith table rows fun row => layout.expand schema db (some row) := by
  intro row _ bindings hbindings
  dsimp only at hbindings
  rw [layout.expand_eq] at hbindings
  obtain ⟨beneath, -, rfl⟩ := List.mem_map.mp hbindings
  simp [hqualifier]

/-- The joins of a layout make all combinations for the rows of the base table. -/
theorem joinAll_base {layout : Layout} (h : layout.Regular schema db) {table : String}
    (hqualifier : layout.qualifier = table) (hlabels : layout.labels.Nodup) :
    joinAll db ((layout.joins schema).map PlannedJoin.clause) [table]
        ((db.rows table).map fun row => [(table, some row)]) [] =
      .ok ((db.rows table).flatMap fun row => layout.expand schema db (some row)) := by
  have hnames : ∀ row ∈ (db.rows table).map fun row => [(table, some row)],
      Dict.names row = [table] := by
    intro bindings hbindings
    obtain ⟨row, -, rfl⟩ := List.mem_map.mp hbindings
    rfl
  rw [layout.labels_eq, hqualifier] at hlabels
  have hjoined := joinAll_layout h hnames (by rw [hqualifier]; exact List.mem_cons_self) hlabels []
  rw [List.append_nil] at hjoined
  rw [hjoined, joinAll, List.flatMap_map]
  refine congrArg Except.ok (List.flatMap_congr ?_)
  intro row _
  have hlookup : List.lookup layout.qualifier [(table, some row)] = some (some row) := by
    simp [hqualifier]
  rw [hlookup, layout.expand_eq, hqualifier]
  rfl

theorem projection_ne_nil {layout : Layout} (h : layout.Regular schema db)
    (hkey : layout.key ≠ []) : layout.projection ≠ [] := by
  obtain ⟨hlength, -, hcarried, -⟩ := h.level
  obtain ⟨column, hcolumn⟩ := List.exists_mem_of_ne_nil _ hkey
  have hcolumns : layout.columns ≠ [] := List.ne_nil_of_mem (hcarried hcolumn)
  have hnames := Layout.names_projection h.named
  obtain ⟨_, _, _, _, columns, outputs, _, _, _, _⟩ := layout
  intro hnone
  rw [hnone, Layout.outputNames] at hnames
  have houtputs : outputs = [] := (List.append_eq_nil_iff.mp hnames.symm).1
  dsimp only at hlength hcolumns
  rw [houtputs] at hlength
  exact hcolumns (List.length_eq_zero_iff.mp hlength.symm)

end Joined

section Plans

variable {engine : Engine} {table : Table} {args : FindArgs}

/-- The plan of a comparable request: a regular layout of its table without clauses, with labels and
output names of their own, and its joins. -/
structure PlanFits (engine : Engine) (db : Database) (table : Table) (layout : Layout)
    (planner : Planner) : Prop where
  regular : layout.Regular engine.schema db
  clauses : layout.clauses engine.schema 0 = ({}, 0)
  table_eq : layout.table = table.name
  qualifier_eq : layout.qualifier = table.name
  key_eq : layout.key = engine.schema.usableKey table.name
  labels : layout.labels.Nodup
  outputNames : layout.outputNames.Nodup
  joins_eq : planner.joins = layout.joins engine.schema

theorem Comparable.plan_fits (h : Comparable engine db table args)
    (hschema : engine.schema.Consistent) :
    let shape := engine.schema.shape table.name args.selected args.included args.omitted
    let plan := shape.layout engine.schema table.name (table.distinctColumns args.distinct)
    PlanFits engine db table plan.1 plan.2 := by
  intro shape plan
  have hproper : shape.Proper engine.schema table.name :=
    engine.schema.shape_proper table.name args.selected args.included args.omitted
  have hplanned : shape.Planned engine.schema table.name plan.1 :=
    Shape.layout_planned hschema hproper _
  have hregular : plan.1.Regular engine.schema db :=
    hplanned.regular (Layout.nameOutputs_named _ _) hproper h.relations
  have hqualifier : plan.1.qualifier = table.name :=
    (Layout.qualifier_nameOutputs _ _).trans (qualifier_plan _ _ _ _ _ _)
  obtain ⟨hjoins, hnodup⟩ :=
    @Shape.layout_joins engine.schema shape table.name (table.distinctColumns args.distinct)
  have hclauses := hplanned.clauses_none (h.relations.mono fun _ _ _ hjoins => hjoins.clauses) 0
  refine ⟨hregular, hclauses, hplanned.table_eq, hqualifier, hplanned.key_eq, ?_,
    Shape.layout_outputNames_nodup _ _ _ _, hjoins⟩
  rw [Layout.labels_joins hregular, List.nodup_cons, hqualifier, ← hjoins]
  refine ⟨?_, hnodup⟩
  intro hmem
  obtain ⟨join, hjoin, hlabel⟩ := List.mem_map.mp hmem
  exact h.labels join hjoin hlabel

/-- The joined statement yields the cells of all combinations for the rows that the request
selects. -/
theorem Comparable.run_joined (h : Comparable engine db table args)
    (hschema : engine.schema.Consistent)
    (hknown : engine.schema.table? table.name = some table) {layout : Layout} {planner : Planner}
    (hplan : PlanFits engine db table layout planner)
    (hnames : ∀ joined ∈ layout.relations, joined.name ∈ (engine.schema.shape table.name
      args.selected args.included args.omitted).relations.map (·.1)) :
    let base := engine.baseStatement table args (engine.paging args) [] (!layout.fansOut)
    db.run (engine.joinedStatement table args (engine.paging args) layout planner) =
      .ok ((Window.cut base.window ((db.selected table.name base.filter base.orderBy).flatMap
        fun row => layout.expand engine.schema db (some row))).map fun bindings =>
          Dict.ofPairs (cells layout.projection bindings)) := by
  intro base
  have hjoined : ∀ name, name ∉ (engine.schema.shape table.name args.selected args.included
      args.omitted).relations.map (·.1) → layout.joinedTables.lookup name = none := by
    intro name hname
    refine lookup_joinedTables layout ?_
    intro hmem
    obtain ⟨joined, hjoined, rfl⟩ := List.mem_map.mp hmem
    exact hname (hnames joined hjoined)
  have hbase : engine.baseStatement table args (engine.paging args) layout.joinedTables
      (!layout.fansOut) = base :=
    baseStatement_unjoined hschema hknown h.filter h.orderBy hjoined _ _
  obtain ⟨hgroup, hfilter, hkeys⟩ : base.groupBy = none ∧
      filterScoped base.filter [table.name] ∧ ∀ keys, base.orderBy = some keys →
        ∀ key ∈ keys, key.column.qualifier = table.name ∧
          Value.Ordered ((db.rows table.name).map (·.value key.column.name)) :=
    h.base_clauses (!layout.fansOut)
  obtain ⟨-, -, htable, hlabel⟩ : base.joins = [] ∧ base.outputs = [] ∧
      base.table = table.name ∧ base.label = none :=
    baseStatement_frame engine table args (engine.paging args) [] (!layout.fansOut)
  have hapart := h.selected_apart base.filter base.orderBy
  rw [joinedStatement_eq hplan.clauses, hbase, hplan.joins_eq]
  clear_value base
  obtain ⟨outputs, _, label, joins, filter, groupBy, orderBy, window⟩ := base
  cases htable
  cases hlabel
  cases hgroup
  have hselected := @selectRows_blocks db
    ⟨layout.projection, table.name, none, (layout.joins engine.schema).map PlannedJoin.clause, filter,
      none, orderBy, window⟩ _ rfl rfl
    (joinAll_base hplan.regular hplan.qualifier_eq hplan.labels)
    (Layout.expand_beginsWith hplan.qualifier_eq _) hfilter hkeys
  refine run_cells hselected ?_ ?_
  · intro hsome
    obtain ⟨bindings, hbindings⟩ := List.exists_mem_of_ne_nil _ hsome
    obtain ⟨row, hrow, -⟩ := List.mem_flatMap.mp hbindings
    obtain ⟨column, hcolumn, -⟩ := hapart.2.present row hrow
    refine projection_ne_nil hplan.regular ?_
    rw [hplan.key_eq]
    exact List.ne_nil_of_mem hcolumn
  · intro output houtput
    obtain ⟨ref, label, heq, hmem⟩ := layout.within_labels.projection output houtput
    refine ⟨ref, label, heq, ?_⟩
    intro bindings hbindings
    obtain ⟨row, -, hexpand⟩ := List.mem_flatMap.mp hbindings
    rw [layout.names_expand _ bindings hexpand]
    exact hmem

/-- With one joined statement a comparable request finds the nested records of the rows that it
shows.  The page is cut from the blocks, or from the records if blocks may have several rows. -/
theorem Comparable.findJoined_nest (h : Comparable engine db table args)
    (hschema : engine.schema.Consistent)
    (hknown : engine.schema.table? table.name = some table) :
    let shape := engine.schema.shape table.name args.selected args.included args.omitted
    let plan := shape.layout engine.schema table.name (table.distinctColumns args.distinct)
    (engine.findJoined table args (engine.paging args) plan.1 plan.2).Gives db.run fun records =>
      records = (engine.shownRows db table args (engine.paging args)).map
        (shape.nest engine.schema db table.name) := by
  intro shape plan
  have hplan : PlanFits engine db table plan.1 plan.2 := h.plan_fits hschema
  have hproper : shape.Proper engine.schema table.name :=
    engine.schema.shape_proper table.name args.selected args.included args.omitted
  have hplanned : shape.Planned engine.schema table.name plan.1 :=
    Shape.layout_planned hschema hproper _
  have hnames : ∀ joined ∈ plan.1.relations, joined.name ∈ shape.relations.map (·.1) :=
    fun joined hjoined => hplanned.names_subset (List.mem_map_of_mem hjoined)
  have hrun := h.run_joined hschema hknown hplan hnames
  have hthroughout : shape.Throughout engine.schema (FollowsKeys db) table.name :=
    h.relations.mono fun table branch relation hjoins => ⟨hjoins.clauses, hjoins.keyed⟩
  clear_value plan
  obtain ⟨layout, planner⟩ := plan
  dsimp only at hplan hplanned hrun ⊢
  have hdistinct : table.distinctColumns args.distinct = [] := by
    rw [h.distinct]
    rfl
  have hassemble : ∀ rows : List Row, rows.Sublist (db.selected table.name
      (engine.baseStatement table args (engine.paging args) [] true).filter
      (engine.baseStatement table args (engine.paging args) [] true).orderBy) →
      layout.assemble ((rows.flatMap fun row => layout.expand engine.schema db (some row)).map
        fun bindings => Dict.ofPairs (cells layout.projection bindings)) =
          rows.map (layout.nest engine.schema db) := by
    intro rows hrows
    obtain ⟨hsubset, hapart⟩ := h.selected_apart
      (engine.baseStatement table args (engine.paging args) [] true).filter
      (engine.baseStatement table args (engine.paging args) [] true).orderBy
    refine Layout.assemble_joined hplan.regular hplan.labels hplan.outputNames ?_ ?_
    · rw [hplan.table_eq]
      exact List.Subset.trans hrows.subset hsubset
    · rw [hplan.key_eq]
      exact hapart.sublist hrows
  have hpaged : ∀ rows, rows = (Window.cut
      (engine.baseStatement table args (engine.paging args) [] (!layout.fansOut)).window
      ((db.selected table.name
        (engine.baseStatement table args (engine.paging args) [] (!layout.fansOut)).filter
        (engine.baseStatement table args (engine.paging args) [] (!layout.fansOut)).orderBy).flatMap
          fun row => layout.expand engine.schema db (some row))).map
            (fun bindings => Dict.ofPairs (cells layout.projection bindings)) →
      (if layout.fansOut then pageOf (engine.paging args).skip (engine.paging args).size
          (distinctBy (table.distinctColumns args.distinct) (layout.assemble rows))
        else layout.assemble rows) =
          (engine.shownRows db table args (engine.paging args)).map
            (layout.nest engine.schema db) := by
    rintro rows rfl
    cases hfans : layout.fansOut with
    | true =>
        have hwindow : (engine.baseStatement table args (engine.paging args) [] (!true)).window =
            none := by
          simp [Engine.baseStatement]
        have hall : ∀ records : List Record, distinctBy [] records = records := fun records => rfl
        rw [if_pos rfl, hwindow, hdistinct, hall, @pageOf_eq_cut engine table args]
        exact (congrArg _ (hassemble _ (List.Sublist.refl _))).trans (cut_map _ _ _)
    | false =>
        have hsingle : ∀ row ∈ db.selected table.name
            (engine.baseStatement table args (engine.paging args) [] true).filter
            (engine.baseStatement table args (engine.paging args) [] true).orderBy,
            (layout.expand engine.schema db (some row)).length = 1 := by
          intro row hrow
          refine Layout.expand_single hplan.regular hfans ?_
          rintro other ⟨⟩
          rw [hplan.table_eq]
          exact (h.selected_apart _ _).1 hrow
        rw [if_neg Bool.false_ne_true, Bool.not_false, cut_flatMap _ hsingle]
        exact hassemble _ (cut_sublist _ _)
  unfold Engine.findJoined
  refine Load.gives_ask hrun ?_
  dsimp only
  rw [hpaged _ rfl]
  refine Load.Gives.bind (loadDeferred_nest hschema hplanned hproper hthroughout hplan.regular
    shownRows_subset) ?_
  intro load hload
  refine Load.gives_pure ?_
  rw [List.map_map]
  exact List.map_congr_left fun row hrow => hload row hrow

/-- With a base statement and follow-up statements it finds the same. -/
theorem Comparable.findSeparately_nest (h : Comparable engine db table args)
    (hschema : engine.schema.Consistent)
    (hknown : engine.schema.table? table.name = some table)
    (hsome : (engine.schema.shape table.name args.selected args.included
      args.omitted).relations ≠ []) :
    let shape := engine.schema.shape table.name args.selected args.included args.omitted
    (engine.findSeparately table args (engine.paging args) shape).Gives db.run fun records =>
      records = (engine.shownRows db table args (engine.paging args)).map
        (shape.nest engine.schema db table.name) := by
  intro shape
  have hproper : shape.Proper engine.schema table.name :=
    engine.schema.shape_proper table.name args.selected args.included args.omitted
  have hthroughout : shape.Throughout engine.schema (FollowsKeys db) table.name :=
    h.relations.mono fun table branch relation hjoins => ⟨hjoins.clauses, hjoins.keyed⟩
  have hcolumns : withHidden shape.fields (table.linkColumns (shape.relations.map (·.1))) ≠ [] := by
    obtain ⟨entry, hentry⟩ := List.exists_mem_of_ne_nil _ hsome
    obtain ⟨-, -, hbranches⟩ := Shape.proper_iff.mp hproper
    obtain ⟨-, relation, hrelation, -⟩ := branchesProper_iff.mp hbranches entry hentry
    exact List.ne_nil_of_mem (mem_withHidden.mpr (Or.inr
      (mem_linkColumns hknown (List.mem_map_of_mem hentry) hrelation)))
  let base := engine.baseStatement table args (engine.paging args) [] true
  obtain ⟨hgroup, hfilter, hkeys⟩ : base.groupBy = none ∧
      filterScoped base.filter [table.name] ∧ ∀ keys, base.orderBy = some keys →
        ∀ key ∈ keys, key.column.qualifier = table.name ∧
          Value.Ordered ((db.rows table.name).map (·.value key.column.name)) :=
    h.base_clauses true
  obtain ⟨hjoins, -, htable, hlabel⟩ : base.joins = [] ∧ base.outputs = [] ∧
      base.table = table.name ∧ base.label = none :=
    baseStatement_frame engine table args (engine.paging args) [] true
  have hselected : selectRows db base [] = .ok ((db.selected table.name base.filter
      base.orderBy).map fun row => [(table.name, some row)]) := by
    rw [← htable]
    exact selectRows_one_table hlabel hgroup hjoins (htable ▸ hfilter)
      fun keys hsome key hkey => htable ▸ (hkeys keys hsome key hkey).1
  exact NestedQuery.findSeparately_nest engine hschema args (engine.paging args) hproper hknown
    hthroughout hcolumns (h.selected_apart _ _).1 hselected

/-- How a request loads its relations does not matter for whether the strategies compare. -/
theorem Comparable.with_strategy (h : Comparable engine db table args)
    (strategy : Option LoadStrategy) :
    Comparable engine db table { args with strategy := strategy } :=
  ⟨h.apart, h.relations, h.filter, h.orderBy, h.distinct, h.sorted, h.labels⟩

/-- Where relations are joined, the joined ones are among those of the request. -/
theorem Comparable.relations_ne_nil (h : Comparable engine db table args)
    (hschema : engine.schema.Consistent) :
    let shape := engine.schema.shape table.name args.selected args.included args.omitted
    let plan := shape.layout engine.schema table.name (table.distinctColumns args.distinct)
    plan.2.joins ≠ [] → shape.relations ≠ [] := by
  intro shape plan hjoins
  have hplan : PlanFits engine db table plan.1 plan.2 := h.plan_fits hschema
  have hplanned : shape.Planned engine.schema table.name plan.1 :=
    Shape.layout_planned hschema
      (engine.schema.shape_proper table.name args.selected args.included args.omitted) _
  have hnames : plan.1.relations.map (·.name) ⊆ shape.relations.map (·.1) := hplanned.names_subset
  intro hnone
  rw [hnone, List.map_nil] at hnames
  have hrelations : plan.1.relations = [] :=
    List.map_eq_nil_iff.mp (List.subset_nil.mp hnames)
  refine hjoins ?_
  rw [hplan.joins_eq]
  generalize plan.1 = layout at hrelations ⊢
  cases layout
  cases hrelations
  rfl

/-- With relations to join, either strategy finds the nested records of the rows that the request
shows, turned around when it pages backwards. -/
theorem Comparable.findMany_nest (h : Comparable engine db table args)
    (hschema : engine.schema.Consistent)
    (hknown : engine.schema.table? table.name = some table) :
    let shape := engine.schema.shape table.name args.selected args.included args.omitted
    let plan := shape.layout engine.schema table.name (table.distinctColumns args.distinct)
    let records := (engine.shownRows db table args (engine.paging args)).map
      (shape.nest engine.schema db table.name)
    plan.2.joins ≠ [] → (engine.findMany table.name args).Gives db.run fun found =>
      found = if (engine.paging args).backwards then records.reverse else records := by
  intro shape plan records hjoins
  unfold Engine.findMany
  rw [hknown]
  dsimp only
  split
  · exact gives_turned_eq (h.findJoined_nest hschema hknown) _
  · exact gives_turned_eq
      (h.findSeparately_nest hschema hknown (h.relations_ne_nil hschema hjoins)) _

end Plans

/-- **The strategies agree.**  Over a schema that can come about, under all settings and on every
database, a request that allows the comparison finds the same records in the same order, with the
same records nested in them, by one joined statement and by separate statements. -/
theorem strategies_agree {schema : Schema} (h : schema.Reachable) (settings : Settings)
    (db : Database) {table : String} {known : Table} (hknown : schema.table? table = some known)
    {args : FindArgs} (hargs : Comparable ⟨schema, settings⟩ db known args) :
    let find := fun strategy => ((Engine.findMany ⟨schema, settings⟩ table
      { args with strategy := some strategy }).hold Database.source db).result
    ∃ records, find .join = .ok records ∧ find .query = .ok records := by
  intro find
  have hname : known.name = table := h.consistent.table_name hknown
  have hok : ∀ strategy, ∃ records, find strategy = .ok records := by
    intro strategy
    have hasks : (Engine.findMany ⟨schema, settings⟩ table
        { args with strategy := some strategy }).Asks SelectOf.WellScoped :=
      findMany_asks h.consistent hknown _
    exact (hasks.hold_ok fun statement hscoped => hscoped.run_ok db).1
  obtain ⟨records, hrecords⟩ := hok .join
  obtain ⟨others, hothers⟩ := hok .query
  refine ⟨records, hrecords, ?_⟩
  by_cases hjoins : ((schema.shape table args.selected args.included args.omitted).layout schema
      table (known.distinctColumns args.distinct)).2.joins = []
  · have hsame : Engine.findMany ⟨schema, settings⟩ table { args with strategy := some .join } =
        Engine.findMany ⟨schema, settings⟩ table { args with strategy := some .query } := by
      unfold Engine.findMany
      simp only [hknown, hjoins, List.isEmpty_nil, Bool.not_true, Bool.false_eq_true, and_false,
        if_false]
      rfl
    rw [← hrecords]
    simp only [find, hsame]
  · subst hname
    have hnest : ∀ strategy found, find strategy = .ok found → found =
        if (Engine.paging ⟨schema, settings⟩ args).backwards then
          ((Engine.shownRows ⟨schema, settings⟩ db known args
            (Engine.paging ⟨schema, settings⟩ args)).map
              ((schema.shape known.name args.selected args.included args.omitted).nest schema db
                known.name)).reverse
        else (Engine.shownRows ⟨schema, settings⟩ db known args
          (Engine.paging ⟨schema, settings⟩ args)).map
            ((schema.shape known.name args.selected args.included args.omitted).nest schema db
              known.name) := by
      intro strategy found hfound
      refine (hargs.with_strategy (some strategy)).findMany_nest h.consistent hknown hjoins found ?_
      exact (Load.hold_result _ db).symm.trans hfound
    rw [hothers, hnest .join records hrecords, hnest .query others hothers]

/-- The last authors of the blog are found alike by both strategies, with posts, and the author
of each post once more. -/
theorem strategies_agree_blog :
    let args : FindArgs :=
      { included := some [("posts", .relation { included := some [("author", .flag true)] })]
        take := some (-2) }
    ∃ known, (Schema.ofDecls blogTables).table? "Author" = some known ∧
      Comparable ⟨Schema.ofDecls blogTables, {}⟩ blogRows known args ∧
      ∃ records,
        ((Engine.findMany ⟨Schema.ofDecls blogTables, {}⟩ "Author"
          { args with strategy := some .join }).hold Database.source blogRows).result =
            .ok records ∧
        ((Engine.findMany ⟨Schema.ofDecls blogTables, {}⟩ "Author"
          { args with strategy := some .query }).hold Database.source blogRows).result =
            .ok records := by
  intro args
  obtain ⟨known, hknown, hname⟩ := exists_blog_author
  have hcomparable : Comparable ⟨Schema.ofDecls blogTables, {}⟩ blogRows known args := by
    constructor
    case apart =>
      rw [hname]
      decide +kernel
    case relations =>
      rw [hname]
      decide +kernel
    case filter => exact fun filter hfilter => nomatch hfilter
    case orderBy => exact fun order horder => nomatch horder
    case distinct => rfl
    case sorted =>
      have horder : ((Schema.ofDecls blogTables).table? "Author").map (fun table =>
          (Engine.baseOrder ⟨Schema.ofDecls blogTables, {}⟩ table args true []).map
            (·.column.name)) = some ["id"] := by decide +kernel
      rw [hknown, Option.map_some, Option.some_inj] at horder
      intro key hkey
      have hid : key.column.name ∈ ["id"] := horder ▸ List.mem_map_of_mem hkey
      have hvalues : (blogRows.rows "Author").map (·.value "id") = [.integer 1, .integer 2] := by
        decide +kernel
      rw [List.mem_singleton.mp hid, hname, hvalues]
      left
      simp
    case labels =>
      have hdistinct : known.distinctColumns args.distinct = [] := rfl
      rw [hname, hdistinct]
      decide +kernel
  exact ⟨known, hknown, hcomparable,
    strategies_agree reachable_blog {} blogRows hknown hcomparable⟩

end NestedQuery
