import NestedQuery.Engine.Find
import NestedQuery.Proofs.PlanScope
import NestedQuery.Proofs.Reachability

/-!
# Requests do not fail

Every statement that a request asks is well scoped, whatever the request and
whatever rows answered the statements before it.  A well-scoped statement runs
on every database, so a request over tables fails in one way only: its table is
not known.
-/

namespace NestedQuery

/-! ### Dialogues that cannot fail -/

namespace Load

variable {α β : Type} {fits : Select → Prop}

/-- Whatever rows answer its statements, the dialogue asks only statements that fit, and does not
fail by itself. -/
def Asks (fits : Select → Prop) : Load α → Prop
  | .done _ => True
  | .fail _ => False
  | .ask statement next => fits statement ∧ ∀ rows, (next rows).Asks fits

theorem asks_pure (result : α) : (pure result : Load α).Asks fits := trivial

theorem Asks.query {statement : Select} (h : fits statement) : (query statement).Asks fits :=
  ⟨h, fun rows => asks_pure rows⟩

/-- Going on with the result of a dialogue. -/
theorem Asks.bind {load : Load α} {next : α → Load β} (h : load.Asks fits)
    (hnext : ∀ result, (next result).Asks fits) : (load >>= next).Asks fits := by
  induction load with
  | done result => exact hnext result
  | fail error => exact h.elim
  | ask statement rest ih => exact ⟨h.1, fun rows => ih rows (h.2 rows)⟩

/-- Holding several dialogues in turn. -/
theorem Asks.sequence {loads : List (Load α)} (h : ∀ load ∈ loads, load.Asks fits) :
    (sequence loads).Asks fits := by
  induction loads with
  | nil => exact trivial
  | cons first rest ih =>
      refine Asks.bind (h first List.mem_cons_self) ?_
      intro result
      refine Asks.bind (ih fun load hload => h load (List.mem_cons_of_mem _ hload)) ?_
      intro results
      exact asks_pure _

/-- Held with tables that answer every statement that fits, such a dialogue has a result, and its
statements fit. -/
theorem Asks.hold_ok {load : Load α} (h : load.Asks fits) {db : Database}
    (hrun : ∀ statement, fits statement → ∃ rows, db.run statement = .ok rows) :
    (∃ result, (load.hold Database.source db).result = .ok result) ∧
      ∀ statement ∈ (load.hold Database.source db).log, fits statement := by
  induction load with
  | done result => exact ⟨⟨result, rfl⟩, fun statement hmem => by cases hmem⟩
  | fail error => exact h.elim
  | ask statement next ih =>
      obtain ⟨rows, hrows⟩ := hrun statement h.1
      obtain ⟨hresult, hlog⟩ := ih rows (h.2 rows)
      have hsource : Database.source statement db = (.ok rows, db) := by
        rw [Database.source, hrows]
      simp only [hold, hsource]
      refine ⟨hresult, ?_⟩
      intro asked hasked
      rcases List.mem_cons.mp hasked with rfl | hmem
      · exact h.1
      · exact hlog asked hmem

/-- A dialogue that has a result goes on with it. -/
theorem hold_bind_of_ok {σ : Type} {source : Source σ} {load : Load α} {next : α → Load β}
    {before after : σ} {result : α} {log : List Select}
    (h : load.hold source before = ⟨.ok result, log, after⟩) :
    (load >>= next).hold source before =
      { (next result).hold source after with
        log := log ++ ((next result).hold source after).log } := by
  induction load generalizing before log with
  | done known =>
      cases h
      rfl
  | fail error => cases h
  | ask statement rest ih =>
      change (Load.ask statement fun rows => rest rows >>= next).hold source before = _
      rw [hold] at h ⊢
      cases hanswer : source statement before with
      | mk answer state =>
          rw [hanswer] at h
          cases answer with
          | error error => cases h
          | ok rows =>
              simp only [Outcome.mk.injEq] at h
              obtain ⟨hresult, rfl, hstate⟩ := h
              have hrest : (rest rows).hold source state =
                  ⟨.ok result, ((rest rows).hold source state).log, after⟩ := by
                rw [← hresult, ← hstate]
              simp only [ih rows hrest, List.cons_append]

end Load

/-! ### Follow-up statements -/

variable {schema : Schema}

/-- Plain columns of a table are outputs of a statement over it. -/
theorem plainOutputs_scoped {table : String} {columns : List String} {scope : List String}
    (h : table ∈ scope) : ∀ output ∈ plainOutputs table columns, ∀ ref label,
      output = .column ref label → ref.qualifier ∈ scope := by
  intro output houtput ref label heq
  obtain ⟨column, -, rfl⟩ := List.mem_map.mp houtput
  cases heq
  exact h

theorem keyedBy_scoped {table column : String} {keys : List Value} {scope : List String}
    (h : table ∈ scope) : filterScoped (some (keyedBy table column keys)) scope := by
  rw [keyedBy, filterScoped, Expr.Scoped, Expr.col, Expr.Scoped]
  exact h

theorem noTables_within (scope : List String) : tablesWithin [] scope := by
  rw [tablesWithin]
  trivial

/-- A statement over one table is well scoped if all its columns are those of the table. -/
theorem wellScoped_of_one_table {statement : Select} (hjoins : statement.joins = [])
    (hclauses : statement.ClausesWithin [statement.qualifier])
    (houtputs : ∀ output ∈ statement.outputs, ∀ ref label, output = .column ref label →
      ref.qualifier ∈ [statement.qualifier]) : statement.WellScoped := by
  have hscope : statement.scope = [statement.qualifier] := by rw [SelectOf.scope, hjoins]; rfl
  refine ⟨selectScoped_iff.mpr ⟨?_, ?_⟩, ?_⟩
  · rw [hjoins, joinsScoped]
    trivial
  · rw [hscope]
    exact hclauses
  · rw [hscope]
    exact houtputs

/-- The statement for related rows is well scoped. -/
theorem relatedStatement_wellScoped (target : Table) (branch : Branch) (link : String)
    (keys : List Value) : (relatedStatement schema target branch link keys).WellScoped := by
  have hmem : target.name ∈ [target.name] := List.mem_cons_self
  have hpredicate : filterScoped
      (schema.predicate? target.name target.name branch.filter [] 0).1 [target.name] :=
    predicate?_scoped hmem (noTables_within _) 0
  have hsort : ∀ key ∈ schema.sortKeys target.name target.name branch.orderBy [],
      key.column.qualifier ∈ [target.name] := sortKeys_scoped hmem (noTables_within _)
  unfold relatedStatement
  generalize (schema.predicate? target.name target.name branch.filter [] 0).1 = predicate
    at hpredicate
  generalize schema.sortKeys target.name target.name branch.orderBy [] = order at hsort
  extract_lets hidden base filtered
  have hbase : base.ClausesWithin [target.name] := by
    refine ⟨keyedBy_scoped hmem, ?_, ?_⟩
    · intro columns hcolumns
      cases hcolumns
    · intro keys hkeys
      cases hkeys
  have hfiltered : filtered.ClausesWithin [target.name] := hbase.andWhere? hpredicate
  have hframe : filtered = { base with filter := filtered.filter } := andWhere?_frame base predicate
  have houtputs : ∀ output ∈ base.outputs, ∀ ref label, output = .column ref label →
      ref.qualifier ∈ [target.name] := plainOutputs_scoped hmem
  split
  · rw [hframe] at hfiltered ⊢
    exact wellScoped_of_one_table rfl hfiltered houtputs
  · rw [hframe] at hfiltered ⊢
    refine wellScoped_of_one_table rfl ⟨hfiltered.filter, hfiltered.groupBy, ?_⟩ houtputs
    intro keys hkeys
    cases hkeys
    exact hsort

/-- The statement for the links of a junction table is well scoped. -/
theorem linkStatement_wellScoped (junction : Junction) (keys : List Value) :
    (linkStatement junction keys).WellScoped := by
  refine wellScoped_of_one_table rfl ⟨keyedBy_scoped List.mem_cons_self, ?_, ?_⟩
    (plainOutputs_scoped List.mem_cons_self)
  · intro columns hcolumns
    cases hcolumns
  · intro order horder
    cases horder

/-! ### Statements of a request -/

/-- The condition of a cursor is in scope where its table is. -/
theorem cursorPredicate?_scoped (table : Table) (cursor : Option Cursor) (backwards : Bool)
    {scope : List String} (htable : table.name ∈ scope) :
    filterScoped (cursor.bind (table.cursorPredicate? · backwards)) scope := by
  cases cursor with
  | none =>
      rw [Option.bind_none, filterScoped]
      trivial
  | some cursor =>
      refine conjunction?_scoped ?_
      intro part hpart
      obtain ⟨⟨column, value⟩, -, rfl⟩ := List.mem_map.mp hpart
      simp only [Expr.col, Expr.Scoped]
      exact ⟨htable, trivial⟩

/-- The sort keys of a request are in scope where its table and the joined tables are. -/
theorem baseOrder_scoped (engine : Engine) (table : Table) (args : FindArgs) (backwards : Bool)
    {joined : JoinedTables} {scope : List String} (htable : table.name ∈ scope)
    (hjoined : tablesWithin joined scope) :
    ∀ key ∈ engine.baseOrder table args backwards joined, key.column.qualifier ∈ scope := by
  have hasked : ∀ key ∈ engine.schema.sortKeys table.name table.name args.orderBy joined,
      key.column.qualifier ∈ scope := sortKeys_scoped htable hjoined
  have hkeyOrder : ∀ key ∈ table.keyOrder, key.column.qualifier ∈ scope := by
    intro key hkey
    obtain ⟨column, -, rfl⟩ := List.mem_map.mp hkey
    exact htable
  intro key hkey
  simp only [Engine.baseOrder] at hkey
  generalize engine.schema.sortKeys table.name table.name args.orderBy joined = asked
    at hasked hkey
  have hchosen : ∀ key ∈ (if (asked.isEmpty && (args.cursor.isSome || backwards)) = true
      then table.keyOrder else asked), key.column.qualifier ∈ scope := by
    split
    · exact hkeyOrder
    · exact hasked
  split at hkey
  · obtain ⟨straight, hstraight, rfl⟩ := List.mem_map.mp hkey
    exact hchosen straight hstraight
  · exact hchosen key hkey

/-- The clauses of a base statement are in scope where its table and the joined tables are. -/
theorem baseStatement_within (engine : Engine) (table : Table) (args : FindArgs)
    (paging : Paging) {joined : JoinedTables} (paged : Bool) {scope : List String}
    (htable : table.name ∈ scope) (hjoined : tablesWithin joined scope) :
    (engine.baseStatement table args paging joined paged).ClausesWithin scope := by
  have hbase : ({ table := table.name } : Select).ClausesWithin scope := by
    refine ⟨?_, ?_, ?_⟩
    · rw [filterScoped]
      trivial
    · intro columns hcolumns
      cases hcolumns
    · intro keys hkeys
      cases hkeys
  have hpredicate : filterScoped (engine.schema.predicate? table.name table.name args.filter
      joined 0).1 scope := predicate?_scoped htable hjoined 0
  have hcursor := cursorPredicate?_scoped table args.cursor paging.backwards htable
  unfold Engine.baseStatement
  refine ⟨((hbase.andWhere? hpredicate).andWhere? hcursor).filter, ?_, ?_⟩
  · intro columns hcolumns column hcolumn
    dsimp only at hcolumns
    split at hcolumns
    · cases hcolumns
      obtain ⟨name, -, rfl⟩ := List.mem_map.mp hcolumn
      exact htable
    · cases hcolumns
  · intro keys hkeys
    simp only [orderClause] at hkeys
    split at hkeys
    · cases hkeys
    · cases hkeys
      exact baseOrder_scoped engine table args paging.backwards htable hjoined

/-- A base statement has its own table only, and no outputs yet. -/
theorem baseStatement_frame (engine : Engine) (table : Table) (args : FindArgs)
    (paging : Paging) (joined : JoinedTables) (paged : Bool) :
    let statement := engine.baseStatement table args paging joined paged
    statement.joins = [] ∧ statement.outputs = [] ∧ statement.table = table.name ∧
      statement.label = none := by
  simp only [Engine.baseStatement]
  rw [andWhere?_frame, andWhere?_frame]
  exact ⟨rfl, rfl, rfl, rfl⟩

/-- The one statement of a layout is well scoped if the layout is within the labels of its plan. -/
theorem joinedStatement_wellScoped (engine : Engine) (table : Table) (args : FindArgs)
    (paging : Paging) {layout : Layout} {planner : Planner} (hlinked : planner.Linked table.name)
    (hlayout : layout.Within (planner.scope table.name)) :
    (engine.joinedStatement table args paging layout planner).WellScoped := by
  unfold Engine.joinedStatement
  extract_lets base joined clauses projected filtered
  have hbase : base.ClausesWithin (planner.scope table.name) :=
    baseStatement_within engine table args paging (!layout.fansOut) List.mem_cons_self
      hlayout.joinedTables
  obtain ⟨hjoins, houtputs, htable, hlabel⟩ : base.joins = [] ∧ base.outputs = [] ∧
      base.table = table.name ∧ base.label = none :=
    baseStatement_frame engine table args paging layout.joinedTables (!layout.fansOut)
  have hbeneath : clauses.Within (planner.scope table.name) := hlayout.clauses 0
  clear_value base clauses
  have hprojected : projected.ClausesWithin (planner.scope table.name) :=
    ⟨hbase.filter, hbase.groupBy, hbase.orderBy⟩
  have hfiltered : filtered.ClausesWithin (planner.scope table.name) :=
    hprojected.andWhere? (conjunction?_scoped hbeneath.predicates)
  have hscope : projected.scope = planner.scope table.name := by
    simp only [projected, joined, SelectOf.scope, SelectOf.qualifier, Planner.apply, Planner.scope,
      hjoins, htable, hlabel, List.nil_append, List.map_map]
    rfl
  have hframe : filtered = { projected with filter := filtered.filter } :=
    andWhere?_frame projected _
  rw [hframe] at hfiltered ⊢
  refine ⟨selectScoped_iff.mpr ⟨?_, ?_⟩, ?_⟩
  · change joinsScoped (base.joins ++ planner.joins.map PlannedJoin.clause)
      [base.label.getD base.table] []
    rw [hjoins, hlabel, htable]
    exact hlinked
  · change SelectOf.ClausesWithin _ (projected.scope ++ [])
    rw [hscope, List.append_nil]
    refine ⟨hfiltered.filter, hfiltered.groupBy, ?_⟩
    intro keys hkeys key hkey
    simp only [orderClause] at hkeys
    split at hkeys
    · cases hkeys
    · cases hkeys
      rcases List.mem_append.mp hkey with hown | hbrought
      · cases horder : projected.orderBy with
        | none =>
            rw [horder] at hown
            cases hown
        | some order =>
            rw [horder] at hown
            exact hprojected.orderBy order horder key hown
      · exact hbeneath.keys key hbrought
  · change ∀ output ∈ base.outputs ++ layout.projection, ∀ ref label,
      output = .column ref label → ref.qualifier ∈ projected.scope
    rw [houtputs, hscope]
    intro output houtput ref label heq
    obtain ⟨known, _, hknown, hmem⟩ := hlayout.projection output houtput
    rw [hknown] at heq
    cases heq
    exact hmem

/-- The base statement of separate loading is well scoped. -/
theorem separateStatement_wellScoped (engine : Engine) (table : Table) (args : FindArgs)
    (paging : Paging) (columns : List String) :
    SelectOf.WellScoped { engine.baseStatement table args paging [] true with
      outputs := plainOutputs table.name columns } := by
  have hmem : table.name ∈ [table.name] := List.mem_cons_self
  have hbase := baseStatement_within engine table args paging true hmem (noTables_within _)
  obtain ⟨hjoins, -, htable, hlabel⟩ := baseStatement_frame engine table args paging [] true
  generalize engine.baseStatement table args paging [] true = base at hbase hjoins htable hlabel
  have hqualifier : base.qualifier = table.name := by
    rw [SelectOf.qualifier, hlabel, htable]
    rfl
  refine wellScoped_of_one_table hjoins ?_ ?_
  · change SelectOf.ClausesWithin _ [base.qualifier]
    rw [hqualifier]
    exact ⟨hbase.filter, hbase.groupBy, hbase.orderBy⟩
  · change ∀ output ∈ plainOutputs table.name columns, ∀ ref label, output = .column ref label →
      ref.qualifier ∈ [base.qualifier]
    rw [hqualifier]
    exact plainOutputs_scoped hmem

/-- The statement that counts is well scoped. -/
theorem countStatement_wellScoped (engine : Engine) (table : String) (filter : Option Filter) :
    (engine.countStatement table filter).WellScoped := by
  have hmem : table ∈ [table] := List.mem_cons_self
  have hpredicate : filterScoped (engine.schema.predicate? table table filter [] 0).1 [table] :=
    predicate?_scoped hmem (noTables_within _) 0
  unfold Engine.countStatement
  generalize (engine.schema.predicate? table table filter [] 0).1 = predicate at hpredicate
  have hbase : ({ table, outputs := [.count (some countName)] } : Select).ClausesWithin
      [table] := by
    refine ⟨?_, ?_, ?_⟩
    · rw [filterScoped]
      trivial
    · intro columns hcolumns
      cases hcolumns
    · intro keys hkeys
      cases hkeys
  have hfiltered := hbase.andWhere? hpredicate
  rw [andWhere?_frame] at hfiltered ⊢
  refine wellScoped_of_one_table rfl hfiltered ?_
  intro output houtput ref label heq
  rw [List.mem_singleton.mp houtput] at heq
  cases heq

/-! ### Follow-up dialogues -/

/-- The statements that load relations by themselves fit. -/
structure FollowUpsFit (schema : Schema) (fits : Select → Prop) : Prop where
  related : ∀ target branch link keys, fits (relatedStatement schema target branch link keys)
  links : ∀ junction keys, fits (linkStatement junction keys)

theorem followUps_wellScoped : FollowUpsFit schema SelectOf.WellScoped :=
  ⟨relatedStatement_wellScoped, linkStatement_wellScoped⟩

variable {fits : Select → Prop}

/-- Related rows are fetched by statements for related rows and for links. -/
theorem fetch_asks (h : FollowUpsFit schema fits) (relation : Relation) (branch : Branch)
    (keys : List Value) : (fetch schema relation branch keys).Asks fits := by
  unfold fetch
  split
  · exact Load.asks_pure _
  · split
    · next junction _ =>
        unfold fetchLinked
        refine Load.Asks.bind (Load.Asks.query (h.links junction keys)) ?_
        intro links
        dsimp only
        split
        · exact Load.asks_pure _
        · split
          · exact Load.asks_pure _
          · exact Load.Asks.bind (Load.Asks.query (h.related _ _ _ _)) fun rows =>
              Load.asks_pure _
    · unfold fetchDirect
      split
      · exact Load.asks_pure _
      · exact Load.Asks.bind (Load.Asks.query (h.related _ _ _ _)) fun rows =>
          Load.asks_pure _

theorem fetchLevel_asks (h : FollowUpsFit schema fits) (table : String) (branches : Branches)
    (owners : List Record) : (fetchLevel schema table branches owners).Asks fits := by
  refine Load.Asks.sequence ?_
  intro load hload
  obtain ⟨⟨name, branch, relation⟩, -, rfl⟩ := List.mem_map.mp hload
  exact fetch_asks h relation branch _

mutual

/-- Attaching what was fetched asks such statements for the relations beneath. -/
theorem attachLevel_asks (h : FollowUpsFit schema fits) : ∀ (table : String)
    (branches : List (String × BranchOf Shape)) (fetched : List (List Related)),
      (attachLevel schema table branches fetched).Asks fits
  | table, [], fetched => by
      rw [attachLevel]
      exact Load.asks_pure _
  | table, (name, ⟨shape, filter, orderBy, take, skip, distinct, joinKind⟩) :: rest, fetched => by
      rw [attachLevel.eq_def]
      dsimp only
      split
      · exact attachLevel_asks h table rest _
      · exact Load.asks_pure _
      · next relation related others _ =>
          refine Load.Asks.bind (finishRelated_asks h relation.target shape related) ?_
          intro finished
          exact Load.Asks.bind (attachLevel_asks h table rest others) fun more => Load.asks_pure _

theorem finishRelated_asks (h : FollowUpsFit schema fits) : ∀ (table : String) (shape : Shape)
    (related : List Related), (finishRelated schema table shape related).Asks fits
  | table, ⟨fields, _, relations⟩, related => by
      rw [finishRelated]
      refine Load.Asks.bind (fetchLevel_asks h table relations _) ?_
      intro fetched
      exact Load.Asks.bind (attachLevel_asks h table relations fetched) fun load => Load.asks_pure _

end

/-- So does loading relations by follow-up statements. -/
theorem loadBranches_asks (h : FollowUpsFit schema fits) (table : String) (branches : Branches)
    (owners : List Record) : (loadBranches schema table branches owners).Asks fits :=
  Load.Asks.bind (fetchLevel_asks h table branches owners) fun fetched =>
    attachLevel_asks h table branches fetched

mutual

/-- So does loading the relations that could not be joined. -/
theorem loadDeferred_asks (h : FollowUpsFit schema fits) : ∀ (layout : Layout)
    (records : List Record), (layout.loadDeferred schema records).Asks fits
  | ⟨table, _, _, _, _, _, _, _, relations, deferred⟩, records => by
      rw [Layout.loadDeferred]
      refine Load.Asks.bind (loadBranches_asks h table deferred records) ?_
      intro here
      exact Load.Asks.bind (loadDeferredBranches_asks h relations _) fun beneath => Load.asks_pure _

theorem loadDeferredBranches_asks (h : FollowUpsFit schema fits) :
    ∀ (branches : List (JoinedBranchOf Layout)) (records : List Record),
      (loadDeferredBranches schema branches records).Asks fits
  | [], records => by
      rw [loadDeferredBranches]
      exact Load.asks_pure _
  | ⟨name, _, _, layout⟩ :: rest, records => by
      rw [loadDeferredBranches]
      refine Load.Asks.bind (loadDeferred_asks h layout _) ?_
      intro change
      exact Load.Asks.bind (loadDeferredBranches_asks h rest records) fun more => Load.asks_pure _

end

/-! ### Requests -/

/-- The plan of a shape for a base table is in scope. -/
theorem Shape.layout_within (shape : Shape) (table : String) (extra : List String) :
    (shape.layout schema table extra).2.Linked table ∧
      (shape.layout schema table extra).1.Within ((shape.layout schema table extra).2.scope table) := by
  have hempty : Planner.Linked {} table := by
    rw [Planner.Linked, List.map_nil, joinsScoped]
    trivial
  obtain ⟨hextends, hwithin⟩ := @Shape.plan_within schema shape table table "" extra {} table
    hempty List.mem_cons_self
  exact ⟨hextends.linked, hwithin.nameOutputs []⟩

/-- Finding records of a known table asks the statement of the plan or the separate one, and then
follow-up statements. -/
theorem findMany_asks_of {engine : Engine} {table : String} {known : Table}
    (hknown : engine.schema.table? table = some known) (args : FindArgs)
    (hjoined :
      let plan := (engine.schema.shape table args.selected args.included args.omitted).layout
        engine.schema table (known.distinctColumns args.distinct)
      fits (engine.joinedStatement known args (engine.paging args) plan.1 plan.2))
    (hseparate : ∀ columns, fits
      { engine.baseStatement known args (engine.paging args) [] true with
        outputs := plainOutputs known.name columns })
    (hfollow : FollowUpsFit engine.schema fits) : (engine.findMany table args).Asks fits := by
  unfold Engine.findMany
  rw [hknown]
  dsimp only
  split
  · refine Load.Asks.bind ?_ fun records => Load.asks_pure _
    unfold Engine.findJoined
    refine Load.Asks.bind (Load.Asks.query hjoined) ?_
    intro rows
    exact Load.Asks.bind (loadDeferred_asks hfollow _ _) fun load => Load.asks_pure _
  · refine Load.Asks.bind ?_ fun records => Load.asks_pure _
    unfold Engine.findSeparately
    refine Load.Asks.bind (Load.Asks.query (hseparate _)) ?_
    intro rows
    exact Load.Asks.bind (loadBranches_asks hfollow _ _ _) fun load => Load.asks_pure _

/-- The statement of the plan for a known table is well scoped. -/
theorem plannedStatement_wellScoped {engine : Engine} (h : engine.schema.Consistent)
    {table : String} {known : Table} (hknown : engine.schema.table? table = some known)
    (args : FindArgs) (paging : Paging) (shape : Shape) (extra : List String) :
    (engine.joinedStatement known args paging (shape.layout engine.schema table extra).1
      (shape.layout engine.schema table extra).2).WellScoped := by
  have hname : known.name = table := h.table_name hknown
  obtain ⟨hlinked, hwithin⟩ := @Shape.layout_within engine.schema shape table extra
  rw [← hname] at hlinked hwithin ⊢
  exact joinedStatement_wellScoped engine known args paging hlinked hwithin

/-- Finding records of a known table asks well-scoped statements. -/
theorem findMany_asks {engine : Engine} (h : engine.schema.Consistent) {table : String}
    {known : Table} (hknown : engine.schema.table? table = some known) (args : FindArgs) :
    (engine.findMany table args).Asks SelectOf.WellScoped :=
  findMany_asks_of hknown args (plannedStatement_wellScoped h hknown args _ _ _)
    (separateStatement_wellScoped engine known args _) followUps_wellScoped

/-- Counting rows of a known table asks one statement and gives the number of the rows that it
selects. -/
theorem countWhere_hold_rows (engine : Engine) {table : String} {known : Table}
    (hknown : engine.schema.table? table = some known) {filter : Option Filter} {db : Database}
    {rows : List Bindings} (hrows : selectRows db (engine.countStatement table filter) [] = .ok rows) :
    (engine.countWhere table filter).hold Database.source db =
      ⟨.ok rows.length, [engine.countStatement table filter], db⟩ := by
  have hcounter : (engine.countStatement table filter).counter? =
      some (.count (some countName)) := by
    unfold Engine.countStatement
    rw [andWhere?_frame]
    rfl
  have hrun : db.run (engine.countStatement table filter) =
      .ok [[(countName, .integer rows.length)]] := by
    simp only [Database.run, hrows, hcounter, bind, Except.bind, pure, Except.pure]
    rfl
  have hsource : Database.source (engine.countStatement table filter) db =
      (.ok [[(countName, .integer rows.length)]], db) := by
    rw [Database.source, hrun]
  have hcount : countOf? (.integer rows.length) = some rows.length := by
    simp [countOf?]
  have hlookup : ([(countName, Value.integer rows.length)] : Row).lookup countName =
      some (.integer rows.length) := by
    simp [countName]
  unfold Engine.countWhere
  rw [hknown]
  simp only [Load.query, bind, Load.bind, Load.hold, hsource, List.head?_cons, Option.bind_some,
    hlookup, Option.getD_some, hcount, pure]

/-- So counting goes over every database. -/
theorem countWhere_hold (engine : Engine) {table : String} {known : Table}
    (hknown : engine.schema.table? table = some known) (filter : Option Filter) (db : Database) :
    ∃ n, (engine.countWhere table filter).hold Database.source db =
      ⟨.ok n, [engine.countStatement table filter], db⟩ := by
  obtain ⟨rows, hrows, -⟩ := selectRows_ok db (countStatement_wellScoped engine table filter).clauses
    (List.nil_subset (Dict.names []))
  exact ⟨rows.length, countWhere_hold_rows engine hknown hrows⟩

/-- How a request about a table goes over tables: it fails exactly if its table is not known, and
for that reason, and every statement that it asks can be run. -/
structure SafeFor {α : Type} (schema : Schema) (table : String) (db : Database)
    (outcome : Outcome Database α) : Prop where
  fails_iff : ∀ error, outcome.result = .error error ↔
    schema.table? table = none ∧ error = .unknownTable table
  runs : ∀ statement ∈ outcome.log, ∃ rows, db.run statement = .ok rows

/-- A request about an unknown table fails at once. -/
theorem safeFor_of_unknown {α : Type} {table : String} {db : Database}
    (h : schema.table? table = none) :
    SafeFor schema table db
      ((Load.fail (.unknownTable table) : Load α).hold Database.source db) := by
  constructor
  · intro error
    constructor
    · intro heq
      cases heq
      exact ⟨h, rfl⟩
    · rintro ⟨-, rfl⟩
      rfl
  · intro statement hstatement
    cases hstatement

/-- A dialogue about a known table that asks well-scoped statements is safe. -/
theorem safeFor_of_asks {α : Type} {table : String} {known : Table} {load : Load α}
    (hknown : schema.table? table = some known) (h : load.Asks SelectOf.WellScoped)
    (db : Database) : SafeFor schema table db (load.hold Database.source db) := by
  obtain ⟨⟨result, hresult⟩, hlog⟩ := h.hold_ok fun statement hscoped => hscoped.run_ok db
  constructor
  · intro error
    rw [hresult, hknown]
    simp
  · exact fun statement hstatement => (hlog statement hstatement).run_ok db

/-- A dialogue about a known table that asks just the counting statement, and has a result, is
safe. -/
theorem safeFor_of_count {α : Type} (engine : Engine) {table : String} {known : Table}
    (hknown : engine.schema.table? table = some known) (filter : Option Filter) (db : Database)
    (result : α) :
    SafeFor engine.schema table db
      ⟨.ok result, [engine.countStatement table filter], db⟩ := by
  constructor
  · intro error
    simp [hknown]
  · intro statement hstatement
    rw [List.mem_singleton.mp hstatement]
    exact (countStatement_wellScoped engine table filter).run_ok db

/-- **Requests are safe.**  Over a schema that can come about, under all settings, on every
database and with any arguments, each of the five requests fails exactly if its table is not
known, with just that error; and every statement that it asks on its way can be run, so that no
column ever lacks its qualifier. -/
theorem requests_safe {schema : Schema} (h : schema.Reachable) (settings : Settings)
    (db : Database) (table : String) (find : FindArgs) (unique : UniqueArgs) (counted : CountArgs)
    (filter : Filter) :
    let engine : Engine := { schema, settings }
    SafeFor schema table db ((engine.findMany table find).hold Database.source db) ∧
      SafeFor schema table db ((engine.findFirst table find).hold Database.source db) ∧
      SafeFor schema table db ((engine.findUnique table unique).hold Database.source db) ∧
      SafeFor schema table db ((engine.count table counted).hold Database.source db) ∧
      SafeFor schema table db ((engine.anyWhere table filter).hold Database.source db) := by
  intro engine
  cases hknown : schema.table? table with
  | none =>
      have hmany : ∀ args, engine.findMany table args = .fail (.unknownTable table) := by
        intro args
        unfold Engine.findMany
        rw [show engine.schema.table? table = none from hknown]
      have hfirst : ∀ args, engine.findFirst table args = .fail (.unknownTable table) := by
        intro args
        unfold Engine.findFirst
        rw [hmany]
        rfl
      have hcount : ∀ condition,
          engine.countWhere table condition = .fail (.unknownTable table) := by
        intro condition
        unfold Engine.countWhere
        rw [show engine.schema.table? table = none from hknown]
      have hany : engine.anyWhere table filter = .fail (.unknownTable table) := by
        unfold Engine.anyWhere
        rw [hcount]
        rfl
      rw [hmany, hfirst, Engine.findUnique, hfirst, Engine.count, hcount, hany]
      exact ⟨safeFor_of_unknown hknown, safeFor_of_unknown hknown, safeFor_of_unknown hknown,
        safeFor_of_unknown hknown, safeFor_of_unknown hknown⟩
  | some known =>
      have hmany : ∀ args, (engine.findMany table args).Asks SelectOf.WellScoped :=
        findMany_asks h.consistent hknown
      have hfirst : ∀ args, (engine.findFirst table args).Asks SelectOf.WellScoped :=
        fun args => Load.Asks.bind (hmany _) fun records => Load.asks_pure _
      refine ⟨safeFor_of_asks hknown (hmany find) db, safeFor_of_asks hknown (hfirst find) db,
        safeFor_of_asks hknown (hfirst unique.toFind) db, ?_, ?_⟩
      · obtain ⟨n, hcount⟩ := countWhere_hold engine hknown counted.filter db
        rw [Engine.count, hcount]
        exact safeFor_of_count engine hknown counted.filter db n
      · obtain ⟨n, hcount⟩ := countWhere_hold engine hknown (some filter) db
        rw [Engine.anyWhere, Load.hold_bind_of_ok hcount]
        exact safeFor_of_count engine hknown (some filter) db (decide (0 < n))

/-- Of the blog, authors are found with their posts, and ghosts are not. -/
theorem requests_safe_blog :
    (Schema.ofDecls blogTables).Reachable ∧
      (∀ error, ((Engine.findMany ⟨Schema.ofDecls blogTables, {}⟩ "Author"
        (({} : FindArgs).including "posts")).hold Database.source blogRows).result ≠
          .error error) ∧
      ((Engine.findMany ⟨Schema.ofDecls blogTables, {}⟩ "Ghost" {}).hold Database.source
        blogRows).result = .error (.unknownTable "Ghost") := by
  have hauthor := requests_safe reachable_blog {} blogRows "Author"
    (({} : FindArgs).including "posts") { filter := .empty } {} .empty
  have hghost := requests_safe reachable_blog {} blogRows "Ghost" {} { filter := .empty } {} .empty
  refine ⟨reachable_blog, ?_, (hghost.1.fails_iff _).mpr ⟨by decide +kernel, rfl⟩⟩
  intro error herror
  have hknown : (Schema.ofDecls blogTables).table? "Author" ≠ none := by decide +kernel
  exact hknown ((hauthor.1.fails_iff error).mp herror).1

end NestedQuery
