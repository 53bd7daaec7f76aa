import NestedQuery.Proofs.BaseRecords
import NestedQuery.Proofs.IncludedAlone
import NestedQuery.Proofs.SortableRequests
import NestedQuery.Proofs.UnorderedPlans

/-!
# Orderings of included relations

The sort keys that joined relations bring along come after those of the request
in the one ordering of its statement.  Which joined rows there are does not
depend on them, only how these rows stand.  If the keys of the request alone
tell all base rows apart, the base rows stand the same whatever comes after; if
not, relations may decide between base rows, and so which of them come first.
-/

namespace NestedQuery

variable {db : Database} {engine : Engine}

/-! ### Base rows of joined rows -/

/-- Whether a join keeps the rows of its table that match none on the left. -/
def Join.keepsRight (join : Join) : Bool :=
  join.kind == .right || join.kind == .full

/-- The base rows that joined rows begin with: those of the table, and one without values if a join
keeps rows of its own table alone. -/
def Planner.baseRows (planner : Planner) (db : Database) (table : String) : List Row :=
  if planner.joins.any (·.clause.keepsRight) then [] :: db.rows table else db.rows table

/-- What is bound behind a row does not change it. -/
theorem Bindings.rowOf_append {bindings : Bindings} {table : String}
    (h : table ∈ Dict.names bindings) (more : Bindings) :
    Bindings.rowOf (bindings ++ more) table = bindings.rowOf table := by
  obtain ⟨found, hfound⟩ := Option.isSome_iff_exists.mp (Dict.lookup_isSome_iff.mpr h)
  rw [Bindings.rowOf, Bindings.rowOf, List.lookup_append, hfound]
  rfl

/-- A table that is bound to no row has no values. -/
theorem Bindings.rowOf_unmatched (own : List String) (table : String) :
    Bindings.rowOf (own.map (·, none)) table = [] := by
  unfold Bindings.rowOf
  cases hfound : (own.map (·, (none : Option Row))).lookup table with
  | none => rfl
  | some found =>
      obtain ⟨_, -, heq⟩ := List.mem_map.mp (Dict.mem_of_lookup hfound)
      cases heq
      rfl

/-- Each row of a join begins with a row on its left, or with no row of the tables there. -/
theorem rowOf_joinAll {table : String} : ∀ {joins : List Join} {own : List String}
    {rows joined : List Bindings}, joinsScoped joins own [] →
    (∀ row ∈ rows, Dict.names row = own) → table ∈ own →
    joinAll db joins own rows [] = .ok joined → ∀ tuple ∈ joined,
      (∃ row ∈ rows, tuple.rowOf table = row.rowOf table) ∨
        (tuple.rowOf table = [] ∧ joins.any Join.keepsRight = true)
  | [], own, rows, joined, _, _, _, h, tuple, htuple => by
      cases h
      exact Or.inl ⟨tuple, htuple, rfl⟩
  | ⟨kind, name, label, on⟩ :: rest, own, rows, joined, hscoped, hnames, hown, h, tuple, htuple => by
      rw [joinsScoped] at hscoped
      obtain ⟨hon, hrest⟩ := hscoped
      have heval : ∀ row ∈ rows, ∀ other ∈ db.rows name,
          ∃ value, on.eval db (row ++ [(label, some other)] ++ []) = .ok value := by
        intro row hrow other _
        refine hon.eval_ok db (bound_append ?_ (List.nil_subset _))
        rw [Dict.names_append, hnames row hrow]
        rfl
      rw [joinAll_cons heval] at h
      rw [List.any_cons, Bool.or_eq_true]
      rcases rowOf_joinAll hrest (fun row hrow => names_of_mem_join hnames hrow)
        (List.mem_append_left _ hown) h tuple htuple with ⟨row, hrow, heq⟩ | ⟨hnone, hkeeps⟩
      · rcases List.mem_append.mp hrow with hbeside | halone
        · obtain ⟨before, hbefore, hmem⟩ := List.mem_flatMap.mp hbeside
          obtain ⟨found, rfl, -⟩ := mem_besides hmem
          rw [Bindings.rowOf_append (by rw [hnames before hbefore]; exact hown)] at heq
          exact Or.inl ⟨before, hbefore, heq⟩
        · unfold unpaired at halone
          split at halone
          · next hkind =>
              obtain ⟨other, -, rfl⟩ := List.mem_map.mp halone
              have hnames : Dict.names (own.map (·, (none : Option Row))) = own := by
                rw [Dict.names, List.map_map]
                exact List.map_id own
              refine Or.inr ⟨?_, Or.inl (by simpa [Join.keepsRight] using hkind)⟩
              rw [heq, Bindings.rowOf_append (by rwa [hnames]), Bindings.rowOf_unmatched]
          · cases halone
      · exact Or.inr ⟨hnone, Or.inr hkeeps⟩

/-- Which rows a statement selects does not depend on its ordering, only how they stand.  They begin
with rows of its table, or with none if a join keeps rows of its own table alone. -/
theorem exists_selected {statement : Select} (hlabel : statement.label = none)
    (hscoped : selectScoped statement []) : ∃ tuples : List Bindings,
      (∀ tuple ∈ tuples, Dict.names tuple = statement.scope ∧
        (tuple.rowOf statement.table ∈ db.rows statement.table ∨
          (tuple.rowOf statement.table = [] ∧ statement.joins.any Join.keepsRight = true))) ∧
      ∀ orderBy, (∀ keys, orderBy = some keys → ∀ key ∈ keys,
        key.column.qualifier ∈ statement.scope) →
          selectRows db { statement with orderBy } [] = .ok (inOrder orderBy tuples) := by
  obtain ⟨hjoins, hfilter, hgroup, -⟩ := selectScoped_iff.mp hscoped
  obtain ⟨outputs, table, label, joins, filter, groupBy, orderBy, window⟩ := statement
  cases hlabel
  dsimp only at hfilter hgroup ⊢
  have hown : joinsScoped joins [table] [] := hjoins
  have hbase : ∀ row ∈ (db.rows table).map fun row => [(table, some row)],
      Dict.names row = [table] := by
    intro row hrow
    obtain ⟨stored, -, rfl⟩ := List.mem_map.mp hrow
    rfl
  have houter : ([] : List String) ⊆ Dict.names ([] : Bindings) := List.nil_subset _
  obtain ⟨joined, hjoined, hnames⟩ := joinAll_ok db hown houter hbase
  obtain ⟨kept, hkept, hkeptRows⟩ := keepRows_scoped db hfilter houter hnames
  obtain ⟨grouped, hgrouped, hgroupedRows⟩ := groupRows_scoped hgroup houter
    fun row hrow => hnames row (hkeptRows hrow)
  refine ⟨grouped, fun tuple htuple => ?_, fun orderBy horder => ?_⟩
  · have hmem := hkeptRows (hgroupedRows.subset htuple)
    refine ⟨hnames tuple hmem, ?_⟩
    refine (rowOf_joinAll hown hbase List.mem_cons_self hjoined tuple hmem).imp_left ?_
    rintro ⟨row, hrow, heq⟩
    obtain ⟨stored, hstored, rfl⟩ := List.mem_map.mp hrow
    rw [heq, Bindings.rowOf_cons_self]
    exact hstored
  · have hsorted : sortRows orderBy [] grouped = .ok (inOrder orderBy grouped) := by
      refine sortRows_inOrder fun keys hkeys key hkey tuple htuple => ?_
      rw [hnames tuple (hkeptRows (hgroupedRows.subset htuple))]
      exact horder keys hkeys key hkey
    rw [selectRows]
    simp only [Option.getD_none, hjoined, hkept, hgrouped, hsorted, bind, Except.bind]

/-! ### Requests -/

/-- The sort keys that the joined relations of a request bring along. -/
def Engine.relationKeys (engine : Engine) (table : Table) (args : FindArgs) : List SortKey :=
  ((engine.planFor table args).1.clauses engine.schema 0).1.keys

/-- Without orderings of relations a request has its shape, without these. -/
theorem shapeFor_unordered (table : Table) (args : FindArgs) :
    engine.shapeFor table args.unordered = (engine.shapeFor table args).unordered :=
  shape_unordered table.name args

/-- So it shows the same fields. -/
theorem fields_unordered (table : Table) (args : FindArgs) :
    (engine.shapeFor table args.unordered).fields = (engine.shapeFor table args).fields := by
  rw [shapeFor_unordered, Shape.fields_unordered]

/-- It is planned alike, the layout without orderings. -/
theorem planFor_unordered (table : Table) (args : FindArgs) :
    engine.planFor table args.unordered =
      ((engine.planFor table args).1.unordered, (engine.planFor table args).2) := by
  unfold Engine.planFor
  rw [shapeFor_unordered, Shape.layout_unordered]
  rfl

/-- So it loads by joins if the request does. -/
theorem joins_unordered (table : Table) (args : FindArgs) :
    engine.Joins table args.unordered ↔ engine.Joins table args := by
  unfold Engine.Joins
  rw [planFor_unordered]
  rfl

/-- The joined statement of a request is the one without orderings of relations, with the keys that
the relations bring along. -/
theorem joinedStatement_unordered (engine : Engine) (table : Table) (args : FindArgs)
    (paging : Paging) (layout : Layout) (planner : Planner) :
    engine.joinedStatement table args paging layout planner =
      { engine.joinedStatement table args.unordered paging layout.unordered planner with
        orderBy := orderClause
          (engine.baseOrder table args.unordered paging.backwards layout.unordered.joinedTables ++
            (layout.clauses engine.schema 0).1.keys) } := by
  rw [joinedStatement_frame engine table args, joinedStatement_frame engine table args.unordered]
  simp only [layout.joinedTables_unordered, layout.fansOut_unordered, layout.projection_unordered,
    layout.clauses_unordered]
  rfl

/-- Joined statements that differ in orderings of relations alone yield the same joined rows, each in
its own order.  If the rows of such a statement can be sorted, its keys order them. -/
theorem exists_joinedTuples {table : Table} {bare : FindArgs} {paging : Paging} {plain : Layout}
    {planner : Planner} (hlinked : planner.Linked table.name)
    (hplain : plain.Within (planner.scope table.name)) :
    ∃ tuples : List Bindings,
      (∀ tuple ∈ tuples, tuple.rowOf table.name ∈ planner.baseRows db table.name) ∧
      ∀ (args : FindArgs) (layout : Layout), args.unordered = bare → layout.unordered = plain →
        layout.Within (planner.scope table.name) → layout.projection ≠ [] →
        let keys := engine.baseOrder table bare paging.backwards plain.joinedTables ++
          (layout.clauses engine.schema 0).1.keys
        let statement := engine.joinedStatement table args paging layout planner
        (db.CanSort statement → OrdersOn (tupleOrder keys) (· ∈ tuples)) ∧
          db.run statement =
            .ok ((Window.cut (engine.joinedStatement table bare paging plain planner).window
              (inOrder (orderClause keys) tuples)).map layout.yield) := by
  let statement := engine.joinedStatement table bare paging plain planner
  have hscoped : selectScoped statement [] :=
    (joinedStatement_wellScoped engine table bare paging hlinked hplain).clauses
  have hframe : statement = _ := joinedStatement_frame engine table bare paging plain planner
  obtain ⟨-, -, htable, hlabel⟩ :=
    baseStatement_frame engine table bare paging plain.joinedTables (!plain.fansOut)
  have hname : statement.table = table.name := by
    rw [hframe]
    exact htable
  have hunlabelled : statement.label = none := by
    rw [hframe]
    exact hlabel
  have hjoins : statement.joins = planner.joins.map PlannedJoin.clause := by
    rw [hframe]
  have hscope : statement.scope = planner.scope table.name := by
    rw [SelectOf.scope, SelectOf.qualifier, hunlabelled, hname, hjoins, Planner.scope, List.map_map]
    rfl
  obtain ⟨tuples, hbase, hselected⟩ := @exists_selected db statement hunlabelled hscoped
  refine ⟨tuples, fun tuple htuple => ?_, fun args layout hargs hlayout hwithin hsome => ?_⟩
  · have hrow := (hbase tuple htuple).2
    rw [hname, hjoins, List.any_map] at hrow
    unfold Planner.baseRows
    split
    · rcases hrow with hmem | ⟨hnone, -⟩
      · exact List.mem_cons_of_mem _ hmem
      · exact hnone ▸ List.mem_cons_self
    · next hkeeps => exact hrow.resolve_right fun hnone => hkeeps hnone.2
  · have hordered := joinedStatement_unordered engine table args paging layout planner
    rw [hargs, hlayout] at hordered
    have hown := (selectScoped_iff.mp
      (joinedStatement_wellScoped engine table args paging hlinked hwithin).clauses).2.orderBy
    rw [hordered, List.append_nil] at hown
    have houtputs : (engine.joinedStatement table args paging layout planner).outputs =
        layout.projection := by
      rw [joinedStatement_frame]
    dsimp only
    rw [hordered] at houtputs ⊢
    refine ⟨fun hcan => hcan.ordersOn_orderClause (hselected none fun _ hnone => by cases hnone), ?_⟩
    refine (run_cells (hselected _ hown) (fun _ => ?_) fun output houtput => ?_).trans ?_
    · exact houtputs.symm ▸ hsome
    · obtain ⟨ref, label, heq, hmem⟩ := hwithin.projection output (houtputs ▸ houtput)
      refine ⟨ref, label, heq, fun tuple htuple => ?_⟩
      rw [(hbase tuple ((inOrder_perm _ _).subset htuple)).1, hscope]
      exact hmem
    · unfold Layout.yield
      rw [← houtputs]

/-- The base rows of which a request makes records, of joined rows that are sorted by its own keys and
then by those of relations. -/
def Engine.rowsOf (engine : Engine) (table : Table) (args : FindArgs) (layout : Layout)
    (tuples : List Bindings) (keys : List SortKey) : List Row :=
  let paging := engine.paging args
  let base := engine.baseStatement table args paging layout.joinedTables !layout.fansOut
  let own := engine.baseOrder table args paging.backwards layout.joinedTables
  engine.recordRows table args paging layout.fansOut
    (Window.cut base.window ((inOrder (orderClause (own ++ keys)) tuples).map (·.rowOf table.name)))

/-- If the keys of a request put the base rows in order, the keys of relations do not matter where
they order the joined rows. -/
theorem rowsOf_inOrder {table : Table} {args : FindArgs} {layout : Layout} {rows : List Row}
    {own : List SortKey}
    (hown : engine.baseOrder table args (engine.paging args).backwards layout.joinedTables = own)
    (h : PutInOrder own table.name rows) {tuples : List Bindings}
    (htuples : ∀ tuple ∈ tuples, tuple.rowOf table.name ∈ rows) {keys others : List SortKey}
    (hkeys : OrdersOn (tupleOrder (own ++ keys)) (· ∈ tuples))
    (hothers : OrdersOn (tupleOrder (own ++ others)) (· ∈ tuples)) :
    engine.rowsOf table args layout tuples keys = engine.rowsOf table args layout tuples others := by
  subst hown
  unfold Engine.rowsOf
  dsimp only
  rw [h.rowOf_inOrder htuples hkeys hothers]

/-- If a request has no page and its base rows keys of their own, the keys of relations do not matter
but for the order. -/
theorem rowsOf_perm {table : Table} {args : FindArgs} {layout : Layout} {rows : List Row}
    (hsize : engine.settings.pageSize args.take = none) (hskip : args.skip = none)
    (hdistinct : table.distinctColumns args.distinct = [])
    (hown : ∀ one ∈ rows, ∀ other ∈ rows,
      Value.jointKey ((engine.schema.usableKey table.name).map one.value) =
        Value.jointKey ((engine.schema.usableKey table.name).map other.value) → one = other)
    {tuples : List Bindings} (htuples : ∀ tuple ∈ tuples, tuple.rowOf table.name ∈ rows)
    (keys others : List SortKey) :
    (engine.rowsOf table args layout tuples keys).Perm
      (engine.rowsOf table args layout tuples others) := by
  have hbase : ∀ orderBy, ∀ row ∈ (inOrder orderBy tuples).map (·.rowOf table.name), row ∈ rows := by
    intro orderBy row hrow
    obtain ⟨tuple, htuple, rfl⟩ := List.mem_map.mp hrow
    exact htuples tuple ((inOrder_perm _ _).subset htuple)
  have hwindow : ∀ joined paged,
      (engine.baseStatement table args (engine.paging args) joined paged).window = none := by
    intro joined paged
    simp [Engine.baseStatement, Engine.paging, hsize, hskip]
  have hall : ∀ {α : Type} (items : List α),
      pageOf (engine.paging args).skip (engine.paging args).size items = items := by
    intro α items
    simp [pageOf, Engine.paging, hsize, hskip]
  have hfirsts : ∀ rows, engine.recordRows table args (engine.paging args) layout.fansOut rows =
      firstOfEach (fun row : Row =>
        Value.jointKey ((engine.schema.usableKey table.name).map row.value)) [] rows := by
    intro rows
    unfold Engine.recordRows
    dsimp only
    rw [hall, hdistinct]
    exact ite_self _
  unfold Engine.rowsOf
  dsimp only
  rw [hwindow, hfirsts, hfirsts]
  refine firstOfEach_perm ?_ (((inOrder_perm _ _).trans (inOrder_perm _ _).symm).map _)
  exact fun one hone other hother => hown one (hbase _ one hone) other (hbase _ other hother)

/-- Rows with keys of their own keep them beside a row without values. -/
theorem ApartBy.own_of_baseRows {planner : Planner} {table : String} {key : List String}
    (h : ApartBy key (db.rows table)) : ∀ one ∈ planner.baseRows db table,
    ∀ other ∈ planner.baseRows db table,
      Value.jointKey (key.map one.value) = Value.jointKey (key.map other.value) → one = other := by
  have hrows : ∀ one ∈ db.rows table, ∀ other ∈ db.rows table,
      Value.jointKey (key.map one.value) = Value.jointKey (key.map other.value) → one = other :=
    fun one hone other hother => List.inj_on_of_nodup_map h.apart hone hother
  have hnone : ∀ row ∈ db.rows table,
      Value.jointKey (key.map row.value) ≠ Value.jointKey (key.map (Row.value [])) := by
    intro row hrow heq
    obtain ⟨column, hcolumn, hvalue⟩ := h.present row hrow
    refine hvalue (Value.eq_null_of_jointKey ?_ _ (List.mem_map_of_mem hcolumn))
    rw [heq, List.map_map]
    rfl
  unfold Planner.baseRows
  split
  · intro one hone other hother heq
    rcases List.mem_cons.mp hone with rfl | hone <;> rcases List.mem_cons.mp hother with rfl | hother
    · rfl
    · exact absurd heq.symm (hnone other hother)
    · exact absurd heq (hnone one hone)
    · exact hrows one hone other hother heq
  · exact hrows

section Requests

variable {table : Table} (hschema : engine.schema.Consistent)
  (hknown : engine.schema.table? table.name = some table)

include hschema hknown

/-- Requests that join relations, and differ in orderings of relations alone, make their records of
the same joined rows, which their keys order if these rows can be sorted. -/
theorem exists_found_joined {bare : FindArgs} (hjoins : engine.Joins table bare)
    (hkeyed : engine.schema.usableKey table.name ≠ []) :
    let plan := engine.planFor table bare
    let own := engine.baseOrder table bare (engine.paging bare).backwards plan.1.joinedTables
    let fields := (engine.shapeFor table bare).fields
    ∃ tuples : List Bindings,
      (∀ tuple ∈ tuples, tuple.rowOf table.name ∈ plan.2.baseRows db table.name) ∧
      ∀ args : FindArgs, args.unordered = bare →
        ((engine.findMany table.name args).Sortable db →
          OrdersOn (tupleOrder (own ++ engine.relationKeys table args)) (· ∈ tuples)) ∧
        (engine.findMany table.name args).Gives db.run fun records =>
          records.map (·.shown fields []) =
            let found := (engine.rowsOf table bare plan.1 tuples
              (engine.relationKeys table args)).map (·.recordOf fields)
            if (engine.paging bare).backwards then found.reverse else found := by
  intro plan own fields
  have hwithin := fun args => @Shape.layout_within engine.schema (engine.shapeFor table args)
    table.name (table.distinctColumns args.distinct)
  obtain ⟨tuples, hbase, hrun⟩ := @exists_joinedTuples db engine table bare (engine.paging bare)
    plan.1 plan.2 (hwithin bare).1 (hwithin bare).2
  refine ⟨tuples, hbase, ?_⟩
  rintro args rfl
  have hproper := engine.schema.shape_proper table.name args.selected args.included args.omitted
  have hbegins : (engine.planFor table args).1.Begins engine.schema table.name :=
    Shape.layout_begins hschema hproper _
  obtain ⟨hlayout, hplanner⟩ := Prod.ext_iff.mp (@planFor_unordered engine table args)
  dsimp only at hlayout hplanner
  obtain ⟨horders, hasked⟩ := hrun args _ rfl hlayout.symm (hplanner ▸ (hwithin args).2)
    (hbegins.projection_ne_nil (hbegins.key_eq ▸ hkeyed))
  have hwindow : (engine.joinedStatement table args.unordered (engine.paging args.unordered) plan.1
      plan.2).window = (engine.baseStatement table args.unordered (engine.paging args.unordered)
        plan.1.joinedTables (!plan.1.fansOut)).window := by
    rw [joinedStatement_frame]
  have hfound := findJoined_base hschema hknown hproper (engine.paging args) (hplanner ▸ rfl) hkeyed
    hasked
  rw [← cut_map, ← Layout.fansOut_unordered, ← hlayout, hwindow, hplanner] at hfound
  rw [findMany_joined hknown ((joins_unordered table args).mp hjoins),
    show fields = _ from fields_unordered table args]
  refine ⟨fun hsortable => horders ?_, gives_turned_shown hfound _⟩
  rw [hplanner]
  exact Load.Sortable.of_query hsortable.of_bind

omit hschema in
/-- If they do not join relations, they find the same records. -/
theorem exists_found_unjoined {bare : FindArgs} (hjoins : ¬ engine.Joins table bare) :
    ∃ found : List Record, ∀ args : FindArgs, args.unordered = bare →
      (engine.findMany table.name args).Gives db.run fun records =>
        records.map (·.shown (engine.shapeFor table bare).fields []) = found := by
  let fields := (engine.shapeFor table bare).fields
  let names := (engine.shapeFor table bare).relations.map (·.1)
  obtain ⟨rows, hrun⟩ := (separateStatement_wellScoped engine table bare (engine.paging bare)
    (withHidden fields (table.linkColumns names))).run_ok db
  let found := rows.map fun row => row.toRecord.shown fields []
  refine ⟨if (engine.paging bare).backwards then found.reverse else found, ?_⟩
  rintro args rfl
  have hproper := engine.schema.shape_proper table.name args.selected args.included args.omitted
  have hfields : (engine.shapeFor table args).fields = fields := (fields_unordered table args).symm
  have hnames : (engine.shapeFor table args).relations.map (·.1) = names := by
    simp only [names]
    rw [shapeFor_unordered, Shape.names_unordered]
  rw [← hfields, ← hnames] at hrun
  have hfound := findSeparately_base hproper (engine.paging args) hrun
  rw [findMany_unjoined hknown ((joins_unordered table args).not.mp hjoins), fields_unordered]
  exact gives_turned_shown (hfields ▸ hfound) _

/-- So what requests find that differ in orderings of relations alone depends on the keys that joined
relations bring along, and not on these if the other keys put the base rows in order. -/
theorem exists_found (bare : FindArgs) (hkeyed : engine.schema.usableKey table.name ≠ []) :
    let plan := engine.planFor table bare
    let own := engine.baseOrder table bare (engine.paging bare).backwards plan.1.joinedTables
    ∃ found : List SortKey → List Record,
      (∀ args : FindArgs, args.unordered = bare →
        (engine.findMany table.name args).Gives db.run fun records =>
          records.map (·.shown (engine.shapeFor table bare).fields []) =
            found (engine.relationKeys table args)) ∧
      (¬ engine.Joins table bare → ∀ keys others, found keys = found others) ∧
      (PutInOrder own table.name (plan.2.baseRows db table.name) →
        ∀ args other : FindArgs, args.unordered = bare → other.unordered = bare →
          (engine.findMany table.name args).Sortable db →
          (engine.findMany table.name other).Sortable db →
            found (engine.relationKeys table args) = found (engine.relationKeys table other)) ∧
      (engine.settings.pageSize bare.take = none → bare.skip = none →
        table.distinctColumns bare.distinct = [] →
        ApartBy (engine.schema.usableKey table.name) (db.rows table.name) →
          ∀ keys others, (found keys).Perm (found others)) := by
  intro plan own
  by_cases hjoins : engine.Joins table bare
  · obtain ⟨tuples, hbase, hgives⟩ := @exists_found_joined db engine table hschema hknown bare hjoins
      hkeyed
    let found := fun keys : List SortKey =>
      let records := (engine.rowsOf table bare plan.1 tuples keys).map
        (·.recordOf (engine.shapeFor table bare).fields)
      if (engine.paging bare).backwards then records.reverse else records
    refine ⟨found, fun args hargs => (hgives args hargs).2, fun hnone => absurd hjoins hnone,
      fun hsorted args other hargs hother hsortable hsortableOther => ?_,
      fun hsize hskip hdistinct hapart keys others => ?_⟩
    · have horders := (hgives args hargs).1 hsortable
      have hordersOther := (hgives other hother).1 hsortableOther
      simp only [found, rowsOf_inOrder rfl hsorted hbase horders hordersOther]
    · have hrows := @rowsOf_perm engine table bare plan.1 _ hsize hskip hdistinct
        hapart.own_of_baseRows tuples hbase keys others
      have hrecords := hrows.map (·.recordOf (engine.shapeFor table bare).fields)
      dsimp only [found]
      split
      · exact (List.reverse_perm _).trans (hrecords.trans (List.reverse_perm _).symm)
      · exact hrecords
  · obtain ⟨found, hgives⟩ := @exists_found_unjoined db engine table hknown bare hjoins
    exact ⟨fun _ => found, hgives, fun _ _ _ => rfl, fun _ _ _ _ _ _ _ => rfl,
      fun _ _ _ _ _ _ => List.Perm.refl found⟩

end Requests

/-- **Orderings of included relations.**  Take two requests to a table with a key that differ in the
orderings of their relations alone.  Each returns where its rows can be sorted.  The records that they
return show the same fields of the table, one after the other, if both can sort their rows and the
sort keys of the requests put the base rows of their joined rows in strict order, or if the relations
are not joined that are ordered otherwise.  If the requests have neither a page nor distinct columns,
and the rows of the table are told apart by their keys, the fields of the records are at least the
same but for their order. -/
theorem relation_orders_apart {schema : Schema} (h : schema.Reachable) (settings : Settings)
    (db : Database) {table : Table} (hknown : schema.table? table.name = some table)
    (hkeyed : schema.usableKey table.name ≠ []) {args other : FindArgs}
    (hsame : args.unordered = other.unordered) :
    let engine : Engine := ⟨schema, settings⟩
    let find := fun args : FindArgs =>
      ((engine.findMany table.name args).hold Database.source db).result
    let fields := fun records : List Record =>
      records.map (·.shown (engine.shapeFor table args).fields [])
    let plan := engine.planFor table args
    let keys := engine.baseOrder table args (engine.paging args).backwards plan.1.joinedTables
    (engine.findMany table.name args).ReturnsOn db ∧
    (engine.findMany table.name other).ReturnsOn db ∧
    ∀ records others, find args = .ok records → find other = .ok others →
      ((engine.findMany table.name args).Sortable db →
        (engine.findMany table.name other).Sortable db →
        PutInOrder keys table.name (plan.2.baseRows db table.name) →
          fields records = fields others) ∧
      (¬ engine.Joins table args ∨
          engine.relationKeys table args = engine.relationKeys table other →
        fields records = fields others) ∧
      (settings.pageSize args.take = none → args.skip = none →
        table.distinctColumns args.distinct = [] →
        ApartBy (schema.usableKey table.name) (db.rows table.name) →
          (fields records).Perm (fields others)) := by
  intro engine find fields plan keys
  have hfields : ∀ records : List Record, fields records =
      records.map (·.shown (engine.shapeFor table args.unordered).fields []) := by
    intro records
    rw [fields_unordered]
  obtain ⟨found, hgives, hunjoined, hsettled, hperm⟩ := @exists_found db engine table h.consistent
    hknown args.unordered hkeyed
  rw [planFor_unordered, Layout.joinedTables_unordered] at hsettled
  rw [joins_unordered] at hunjoined
  refine ⟨findMany_returnsOn h.consistent hknown args db,
    findMany_returnsOn h.consistent hknown other db, fun records others hfound hfoundOther => ?_⟩
  have hrecords := (hgives args rfl).of_result hfound
  have hothers := (hgives other hsame.symm).of_result hfoundOther
  rw [← hfields] at hrecords hothers
  rw [hrecords, hothers]
  refine ⟨fun hsortable hsortableOther hsorted => ?_, fun hsettledKeys => ?_,
    fun hsize hskip hdistinct hapart => ?_⟩
  · exact hsettled hsorted args other rfl hsame.symm hsortable hsortableOther
  · rcases hsettledKeys with hnone | hkeys
    · exact hunjoined hnone _ _
    · rw [hkeys]
  · exact hperm hsize hskip hdistinct hapart _ _

/-- Authors with a post each, of whom the second has the post with the first title. -/
def titledRows : Database :=
  [("Author", [[("id", .integer 1), ("name", .text "Ann")],
      [("id", .integer 2), ("name", .text "Bob")]]),
   ("Post", [[("authorId", .integer 1), ("id", .integer 1), ("title", .text "Keys")],
      [("authorId", .integer 2), ("id", .integer 2), ("title", .text "Joins")]])]

/-- A request for authors with the ids of their posts, either in an order or not. -/
def titledPosts (own order : Option SortRequest) : FindArgs :=
  { orderBy := own
    included := some [("posts", .relation
      { selected := some [("id", .flag true)], orderBy := order })]
    strategy := some .join }

/-- In the order of their ids the authors stand the same whether their posts are ordered or not. -/
theorem relation_orders_apart_blog :
    let find := fun order =>
      ((Engine.findMany ⟨Schema.ofDecls blogTables, {}⟩ "Author"
        (titledPosts (some (.by "id" .ascending)) order)).hold Database.source titledRows).result
    let fields := fun records : List Record => records.map (·.shown ["id", "name"] [])
    ∃ records others, find (some (.by "title" .ascending)) = .ok records ∧ find none = .ok others ∧
      fields records = fields others := by
  intro find fields
  let engine : Engine := ⟨Schema.ofDecls blogTables, {}⟩
  let args := titledPosts (some (.by "id" .ascending)) (some (.by "title" .ascending))
  obtain ⟨known, hknown, hname⟩ := exists_blog_author
  have hplan : ∀ table ∈ engine.schema.table? "Author",
      let plan := engine.planFor table args
      (engine.shapeFor table args).fields = ["id", "name"] ∧
        engine.baseOrder table args (engine.paging args).backwards plan.1.joinedTables =
          [⟨⟨"Author", "id"⟩, .ascending, none⟩] ∧
        plan.2.baseRows titledRows table.name = titledRows.rows "Author" := by
    decide +kernel
  obtain ⟨hfields, horder, hrows⟩ := hplan known hknown
  have hsorted : PutInOrder [⟨⟨"Author", "id"⟩, .ascending, none⟩] "Author"
      (titledRows.rows "Author") := .of_integers (by decide +kernel) (by decide +kernel)
  rw [← horder, ← hrows, ← hname] at hsorted
  have hsortable : ∀ order ∈ [some (.by "title" .ascending), none],
      (engine.findMany "Author"
        (titledPosts (some (.by "id" .ascending)) order)).Sortable titledRows := by
    decide +kernel
  obtain ⟨hreturns, hreturnsOther, hfound⟩ :=
    @relation_orders_apart _ reachable_blog {} titledRows known (hname ▸ hknown)
      (by rw [hname]; decide +kernel) args (titledPosts (some (.by "id" .ascending)) none) rfl
  rw [hname] at hreturns hreturnsOther hfound
  have hargs := hsortable _ List.mem_cons_self
  have hother := hsortable none (List.mem_cons_of_mem _ List.mem_cons_self)
  obtain ⟨records, hrecords⟩ := hreturns hargs
  obtain ⟨others, hothers⟩ := hreturnsOther hother
  have hsame := (hfound records others hrecords hothers).1 hargs hother
  rw [hfields] at hsame
  rw [hname] at hsorted
  exact ⟨records, others, hrecords, hothers, hsame hsorted⟩

/-- In no order of their own the authors stand in the order of their posts, if these are ordered. -/
theorem relation_order_turns_owners :
    let ids := fun order =>
      ((Engine.findMany ⟨Schema.ofDecls blogTables, {}⟩ "Author"
        (titledPosts none order)).hold Database.source titledRows).result.toOption.map
          (List.map (·.scalar "id"))
    ids none = some [.integer 1, .integer 2] ∧
      ids (some (.by "title" .ascending)) = some [.integer 2, .integer 1] := by
  decide +kernel

end NestedQuery
