import NestedQuery.Proofs.BaseRecords
import NestedQuery.Proofs.IncludedAlone

/-!
# Distinct records of a base table

A base statement groups the rows of its table by the distinct columns, keeps the
first row of every group as the table has them, and then sorts the rows that it
kept.  Where joined rows may repeat records, a statement sorts all of them, and
the records folded from them are made distinct in that order.  Each keeps one
record of every group; it is the same one if the first row that the table has of
a group is also the first of the group in order.
-/

namespace NestedQuery

variable {db : Database} {engine : Engine}

/-! ### First rows and order -/

/-- Where a relation holds from each item to the later ones, it holds from the first item of a key to
the others. -/
theorem first_related {α : Type} {key : α → String} {related : α → α → Prop} {items : List α}
    (h : items.Pairwise related) {seen : List String} {first other : α}
    (hfirst : first ∈ firstOfEach key seen items) (hother : other ∈ items)
    (hkey : key other = key first) : other = first ∨ related first other := by
  induction items generalizing seen with
  | nil => cases hother
  | cons item rest ih =>
      obtain ⟨hitem, hrest⟩ := List.pairwise_cons.mp h
      have hlater : ∀ known, first ∈ firstOfEach key known rest → (other = item → key item ∈ known) →
          other = first ∨ related first other := by
        intro known hmem hknown
        rcases List.mem_cons.mp hother with rfl | hothers
        · exact absurd (hkey ▸ hknown rfl) ((firstOfEach_keys known rest).2 first hmem)
        · exact ih hrest hmem hothers
      rw [firstOfEach] at hfirst
      split at hfirst
      · next hseen => exact hlater seen hfirst fun _ => List.contains_iff_mem.mp hseen
      · rcases List.mem_cons.mp hfirst with rfl | hmem
        · exact (List.mem_cons.mp hother).imp_right (hitem other)
        · exact hlater _ hmem fun _ => List.mem_cons_self

theorem valueOrder_self (keys : List SortKey) (values : String → Value) :
    valueOrder keys values values = .eq :=
  Ordering.eq_eq_of_eq_swap (valueOrder_swap keys values values)

/-- Of the rows with the same values in the columns the first is also the first in order. -/
def FirstInOrder (keys : List SortKey) (columns : List String) (rows : List Row) : Prop :=
  columns ≠ [] → ∀ first ∈ distinctRows columns rows, ∀ other ∈ rows,
    Value.jointKey (columns.map other.value) = Value.jointKey (columns.map first.value) →
      valueOrder keys first.value other.value ≠ .gt

instance (keys : List SortKey) (columns : List String) (rows : List Row) :
    Decidable (FirstInOrder keys columns rows) :=
  inferInstanceAs (Decidable (columns ≠ [] → _))

theorem rowsInOrder_perm (keys : List SortKey) (rows : List Row) :
    (rowsInOrder keys rows).Perm rows :=
  stableSort_perm _ _

section Order

variable {keys : List SortKey} {table : String} {rows : List Row}
  (h : PutInOrder keys table rows)

include h

theorem PutInOrder.nodup : rows.Nodup := by
  refine h.apart.imp fun {one other} hne heq => hne ?_
  rw [heq]
  exact valueOrder_self keys _

theorem PutInOrder.pairwise_rowsInOrder :
    (rowsInOrder keys rows).Pairwise fun one other => valueOrder keys one.value other.value ≠ .gt := by
  refine h.pairwise_stableSort.imp fun hlt hgt => ?_
  rw [hlt] at hgt
  cases hgt

/-- Rows can be made distinct before or after they are sorted if of those with the same values the
first is also the first in order, and not otherwise.  Then both have, of each group, the row that is
first in the table and in order. -/
theorem PutInOrder.distinct_inOrder_iff (columns : List String) :
    distinctRows columns (rowsInOrder keys rows) = rowsInOrder keys (distinctRows columns rows) ↔
      FirstInOrder keys columns rows := by
  by_cases hcolumns : columns = []
  · refine iff_of_true ?_ fun hne => absurd hcolumns hne
    rw [hcolumns]
    rfl
  let key := fun row : Row => Value.jointKey (columns.map row.value)
  have hfirsts : ∀ rows, distinctRows columns rows = firstOfEach key [] rows :=
    fun rows => if_neg (by simpa using hcolumns)
  have hsorted := h.pairwise_stableSort
  have hmem : ∀ row, row ∈ rowsInOrder keys rows ↔ row ∈ rows :=
    fun row => (rowsInOrder_perm keys rows).mem_iff
  have hfirst : ∀ first ∈ firstOfEach key [] (rowsInOrder keys rows), ∀ other ∈ rows,
      key other = key first → other = first ∨ valueOrder keys first.value other.value = .lt :=
    fun first hfirst other hother => first_related hsorted hfirst ((hmem other).mpr hother)
  rw [hfirsts]
  constructor
  · intro heq _ first hmemFirst other hother hkey hgt
    rw [← (rowsInOrder_perm keys (distinctRows columns rows)).mem_iff, ← heq] at hmemFirst
    rcases hfirst first hmemFirst other hother hkey with rfl | hlt
    · rw [valueOrder_self] at hgt
      cases hgt
    · rw [hlt] at hgt
      cases hgt
  · intro hinOrder
    have hsublist := distinctRows_sublist columns rows
    have hinside := (firstOfEach_sublist key [] (rowsInOrder keys rows))
    have hnodup : (firstOfEach key [] (rowsInOrder keys rows)).Nodup :=
      ((rowsInOrder_perm keys rows).nodup_iff.mpr h.nodup).sublist hinside
    have hsame : ∀ one ∈ firstOfEach key [] (rowsInOrder keys rows),
        ∀ first ∈ distinctRows columns rows, key first = key one → first = one := by
      intro one hone first hmemFirst hkey
      refine (hfirst one hone first (hsublist.subset hmemFirst) hkey).resolve_right fun hlt => ?_
      refine hinOrder hcolumns first hmemFirst one ((hmem one).mp (hinside.subset hone)) hkey.symm ?_
      rw [valueOrder_swap, hlt]
      rfl
    have hperm : (firstOfEach key [] (rowsInOrder keys rows)).Perm (distinctRows columns rows) := by
      refine (List.perm_ext_iff_of_nodup hnodup (h.nodup.sublist hsublist)).mpr fun row => ⟨?_, ?_⟩
      · intro hrow
        rcases exists_firstOfEach key [] ((hmem row).mp (hinside.subset hrow)) with
          hseen | ⟨first, hmemFirst, hkey⟩
        · cases hseen
        · rw [← hfirsts] at hmemFirst
          exact hsame row hrow first hmemFirst hkey ▸ hmemFirst
      · intro hrow
        rcases exists_firstOfEach key [] ((hmem row).mpr (hsublist.subset hrow)) with
          hseen | ⟨one, hone, hkey⟩
        · cases hseen
        · exact hsame one hone row hrow hkey.symm ▸ hone
    refine h.eq_of_perm (fun row hrow => (hmem row).mp (hinside.subset hrow))
      (hperm.trans (rowsInOrder_perm keys _).symm) ?_ ?_
    · exact h.pairwise_rowsInOrder.sublist hinside
    · exact (h.sublist hsublist).pairwise_rowsInOrder

/-- Of joined rows in order, which begin with each row of the table, the first ones of every key
begin with the rows in order. -/
theorem PutInOrder.firsts_inOrder {key : List String} (hapart : ApartBy key rows)
    {tuples : List Bindings} (htuples : ∀ tuple ∈ tuples, tuple.rowOf table ∈ rows)
    (hall : ∀ row ∈ rows, ∃ tuple ∈ tuples, tuple.rowOf table = row) :
    firstOfEach (fun row : Row => Value.jointKey (key.map row.value)) []
        ((inOrder (orderClause keys) tuples).map (·.rowOf table)) =
      rowsInOrder keys rows := by
  have hsorted := h.pairwise_rowOf_own htuples
  have hmem : ∀ row, row ∈ (inOrder (orderClause keys) tuples).map (·.rowOf table) ↔
      row ∈ rows := by
    intro row
    rw [((inOrder_perm _ _).map _).mem_iff, List.mem_map]
    constructor
    · rintro ⟨tuple, htuple, rfl⟩
      exact htuples tuple htuple
    · exact hall row
  generalize (inOrder (orderClause keys) tuples).map (·.rowOf table) = found
    at hsorted hmem ⊢
  have hfirsts := firstOfEach_sublist (fun row : Row => Value.jointKey (key.map row.value)) [] found
  have hown : ∀ one ∈ found, ∀ other ∈ found, Value.jointKey (key.map one.value) =
      Value.jointKey (key.map other.value) → one = other :=
    fun one hone other hother => List.inj_on_of_nodup_map hapart.apart ((hmem one).mp hone)
      ((hmem other).mp hother)
  have hperm : (firstOfEach (fun row : Row => Value.jointKey (key.map row.value)) [] found).Perm
      rows := by
    refine (List.perm_ext_iff_of_nodup (firstOfEach_keys [] found).1.of_map h.nodup).mpr fun row => ?_
    rw [mem_firstOfEach hown, hmem]
  exact h.eq_of_perm (fun row hrow => (hmem row).mp (hfirsts.subset hrow))
    (hperm.trans (rowsInOrder_perm keys rows).symm) (hsorted.sublist hfirsts) h.pairwise_rowsInOrder

end Order

/-! ### Statements -/

/-- Rows of one table are sorted as they are put in order. -/
theorem inOrder_rows {keys : List SortKey} {table : String}
    (hown : ∀ key ∈ keys, key.column.qualifier = table) (rows : List Row) :
    inOrder (orderClause keys) (rows.map fun row => [(table, some row)]) =
      (rowsInOrder keys rows).map fun row => [(table, some row)] := by
  unfold orderClause
  split
  · next hnone =>
      rw [List.isEmpty_iff.mp hnone, rowsInOrder_nil]
      rfl
  · refine (map_stableSort fun one _ other _ => ?_).symm
    rw [tupleOrder_base hown]

/-- A statement over one table that groups by columns keeps the distinct rows and puts them in
order. -/
theorem selectRows_distinct {statement : Select} {columns : List String} {keys : List SortKey}
    (hlabel : statement.label = none) (hjoins : statement.joins = [])
    (hfilter : statement.filter = none)
    (hgroup : statement.groupBy =
      if columns.isEmpty then none else some (columns.map (⟨statement.table, ·⟩)))
    (horder : statement.orderBy = orderClause keys)
    (hown : ∀ key ∈ keys, key.column.qualifier = statement.table) :
    selectRows db statement [] =
      .ok ((rowsInOrder keys (distinctRows columns (db.rows statement.table))).map
        fun row => [(statement.table, some row)]) := by
  obtain ⟨outputs, table, label, joins, filter, groupBy, orderBy, window⟩ := statement
  dsimp only at hlabel hjoins hfilter hgroup horder hown ⊢
  subst hlabel hjoins hfilter hgroup horder
  have hgrouped : groupRows (if columns.isEmpty then none else some (columns.map (⟨table, ·⟩))) []
      ((db.rows table).map fun row => [(table, some row)]) =
        .ok ((distinctRows columns (db.rows table)).map fun row => [(table, some row)]) := by
    unfold distinctRows
    split
    · rfl
    · rw [@groupRows_ok _ _ _ fun bindings => columns.map (bindings.rowOf table).value]
      · rw [firstOfEach_map]
        simp only [Bindings.rowOf_cons_self, Option.getD_some]
      · intro tuple htuple
        obtain ⟨row, -, rfl⟩ := List.mem_map.mp htuple
        have hvalue : ∀ ref ∈ columns.map (⟨table, ·⟩ : String → ColumnRef),
            Bindings.value ([(table, some row)] ++ []) ref = .ok (row.value ref.name) := by
          intro ref href
          obtain ⟨column, -, rfl⟩ := List.mem_map.mp href
          exact Bindings.value_of_some (by simp) column
        rw [Bindings.values, mapM_ok hvalue, List.map_map, Bindings.rowOf_cons_self]
        rfl
  have hsorted : sortRows (orderClause keys) []
      ((distinctRows columns (db.rows table)).map fun row => [(table, some row)]) =
        .ok ((rowsInOrder keys (distinctRows columns (db.rows table))).map
          fun row => [(table, some row)]) := by
    rw [← inOrder_rows hown]
    refine sortRows_inOrder fun known hknown key hkey tuple htuple => ?_
    obtain ⟨row, -, rfl⟩ := List.mem_map.mp htuple
    rw [orderClause_some hknown] at hkey
    rw [hown key hkey]
    exact List.mem_cons_self
  rw [selectRows]
  simp only [Option.getD_none, joinAll, keepRows, pure, Except.pure, bind, Except.bind, hgrouped,
    hsorted]

/-! ### Requests -/

/-- Without filter and cursor a base statement keeps all rows. -/
theorem baseStatement_unfiltered (engine : Engine) (table : Table) {args : FindArgs}
    (hfilter : args.filter = none) (hcursor : args.cursor = none) (paging : Paging) (joined : JoinedTables)
    (paged : Bool) : (engine.baseStatement table args paging joined paged).filter = none := by
  simp [Engine.baseStatement, hfilter, hcursor, Schema.predicate?, SelectOf.andWhere?]

section Found

variable {table : Table} {args : FindArgs} {shape : Shape} {paging : Paging}
  (hproper : shape.Proper engine.schema table.name) (hfilter : args.filter = none)
  (hcursor : args.cursor = none)
  (hsorted : PutInOrder (engine.baseOrder table args paging.backwards []) table.name
    (db.rows table.name))

include hproper hfilter hcursor hsorted

/-- By separate statements the rows of a table are made distinct and then put in order. -/
theorem findSeparately_distinct (hsome : shape.fields ≠ []) :
    (engine.findSeparately table args paging shape).Gives db.run fun records =>
      records.map (·.shown shape.fields []) =
        (pageOf paging.skip paging.size
          (rowsInOrder (engine.baseOrder table args paging.backwards [])
            (distinctRows (table.distinctColumns args.distinct) (db.rows table.name)))).map
              (·.recordOf shape.fields) := by
  let columns := withHidden shape.fields (table.linkColumns (shape.relations.map (·.1)))
  let statement : Select := { engine.baseStatement table args paging [] true with
    outputs := plainOutputs table.name columns }
  obtain ⟨hjoins, -, htable, hlabel⟩ := baseStatement_frame engine table args paging [] true
  have hcolumns : shape.fields ⊆ columns := fun field hfield => mem_withHidden.mpr (Or.inl hfield)
  have hselected := @selectRows_distinct db statement (table.distinctColumns args.distinct)
    (engine.baseOrder table args paging.backwards []) hlabel hjoins
    (baseStatement_unfiltered engine table hfilter hcursor paging [] true)
    (by
      rw [show statement.table = table.name from htable]
      cases hdistinct : table.distinctColumns args.distinct <;>
        simp [statement, Engine.baseStatement, hdistinct])
    rfl (by rw [show statement.table = table.name from htable]; exact hsorted.own)
  obtain ⟨field, hfield⟩ := List.exists_mem_of_ne_nil _ hsome
  have hrun := run_of_selected (List.ne_nil_of_mem (hcolumns hfield))
    (by rw [show statement.table = table.name from htable]) hselected
  intro records hrecords
  rw [findSeparately_base hproper paging hrun records hrecords, List.map_map,
    @pageOf_eq_cut engine table args, show statement.table = table.name from htable]
  refine List.map_congr_left fun row _ => ?_
  exact Record.Mirrors.shown ⟨(row.toRecord_only_mirrors columns).sorted, fun field hfield =>
    (row.toRecord_only_mirrors columns).bound field (hcolumns hfield)⟩

/-- By a joined statement they are put in order and then made distinct.  The statement neither
filters nor cuts: it sorts all joined rows. -/
theorem findJoined_distinct (hschema : engine.schema.Consistent)
    (hknown : engine.schema.table? table.name = some table) {layout : Layout} {planner : Planner}
    (hplan : shape.layout engine.schema table.name (table.distinctColumns args.distinct) =
      (layout, planner))
    (hplain : shape.Throughout engine.schema (fun _ branch _ => branch.WithoutClauses) table.name)
    (horder : ∀ order, args.orderBy = some order → order.Avoids (shape.relations.map (·.1)))
    (hfans : layout.fansOut = true) (hkeyed : engine.schema.usableKey table.name ≠ [])
    (hapart : ApartBy (engine.schema.usableKey table.name) (db.rows table.name)) :
    (engine.findJoined table args paging layout planner).Gives db.run fun records =>
      records.map (·.shown shape.fields []) =
        (pageOf paging.skip paging.size (distinctRows (table.distinctColumns args.distinct)
          (rowsInOrder (engine.baseOrder table args paging.backwards [])
            (db.rows table.name)))).map (·.recordOf shape.fields) := by
  let distinct := table.distinctColumns args.distinct
  have hbegins : layout.Begins engine.schema table.name := by
    have := Shape.layout_begins hschema hproper distinct
    rwa [hplan] at this
  have hplanned : shape.Planned engine.schema table.name layout := by
    have := Shape.layout_planned hschema hproper distinct
    rwa [hplan] at this
  obtain ⟨hlinked, hwithin⟩ : planner.Linked table.name ∧
      layout.Within (planner.scope table.name) := by
    have := @Shape.layout_within engine.schema shape table.name distinct
    rwa [hplan] at this
  have hjoins : planner.joins = layout.joins engine.schema := by
    have := (@Shape.layout_joins engine.schema shape table.name distinct).1
    rwa [hplan] at this
  have hleft : ∀ join ∈ planner.joins, join.clause.kind = .left := by
    intro join hjoin
    rw [hjoins] at hjoin
    obtain ⟨⟨-, branch, hclauses, hkind⟩, -⟩ := hplanned.mem_joins hplain join hjoin
    exact hkind.trans hclauses.joinKind
  have hkeys : engine.baseOrder table args paging.backwards layout.joinedTables =
      engine.baseOrder table args paging.backwards [] :=
    baseOrder_unjoined horder (fun name hname => lookup_joinedTables layout fun hmem =>
      hname (hplanned.names_subset hmem)) paging.backwards
  have hframe := joinedStatement_eq (hplanned.clauses_none hplain 0) table args paging planner
  have hpassed := baseStatement_unfiltered engine table hfilter hcursor paging
    layout.joinedTables (!layout.fansOut)
  have htuples : engine.joinedTuples db table args paging layout planner =
      inOrder (orderClause (engine.baseOrder table args paging.backwards []))
        (planner.tuples db table.name) := by
    have hall : (planner.tuples db table.name).filter (db.passes none) =
        planner.tuples db table.name := List.filter_eq_self.mpr fun _ _ => rfl
    unfold Engine.joinedTuples
    rw [hframe]
    dsimp only
    rw [hpassed, hall, ← hkeys]
    rfl
  have hwindow : (engine.joinedStatement table args paging layout planner).window = none := by
    rw [hframe, hfans]
    simp [Engine.baseStatement]
  have hrun := @run_joined db engine table args paging layout planner hwithin hlinked hbegins
    (fun join hjoin => Or.inl (hleft join hjoin)) (hbegins.key_eq ▸ hapart) (Or.inl hfans)
  rw [hwindow, htuples] at hrun
  have hbase : ∀ tuple ∈ planner.tuples db table.name,
      tuple.rowOf table.name ∈ db.rows table.name := by
    intro tuple htuple
    obtain ⟨row, hrow, more, rfl⟩ := planner.tuples_over db table.name tuple htuple
    rwa [Bindings.rowOf_cons_self]
  have hall : ∀ row ∈ db.rows table.name,
      ∃ tuple ∈ planner.tuples db table.name, tuple.rowOf table.name = row := by
    intro row hrow
    obtain ⟨tuple, htuple⟩ := List.exists_mem_of_ne_nil _
      (@extensions_ne_nil db _ (List.forall_mem_map.mpr hleft) [(table.name, some row)])
    refine ⟨tuple, List.mem_flatMap.mpr ⟨row, hrow, htuple⟩, ?_⟩
    obtain ⟨more, rfl, -⟩ := extension_begins htuple
    exact Bindings.rowOf_cons_self _ _ _
  have hfirsts := hsorted.firsts_inOrder hapart hbase hall
  intro records hrecords
  rw [findJoined_base hschema hknown hproper paging hplan hkeyed hrun records hrecords,
    Engine.recordRows, hfans]
  exact congrArg (fun rows => List.map (·.recordOf shape.fields) (pageOf paging.skip paging.size
    (distinctRows distinct rows))) hfirsts

end Found

/-- One relation is joined if it is not of many to many; a relation to many then fans out. -/
theorem joins_one {schema : Schema} (hschema : schema.Consistent) {table : Table}
    (hknown : schema.table? table.name = some table) {name : String} {relation : Relation}
    (hrelation : table.relation? name = some relation) {branch : Branch} {fields : List String}
    {excluded : List String} {layout : Layout}
    (h : Shape.Planned schema ⟨fields, excluded, [(name, branch)]⟩ table.name layout) :
    (relation.kind = .manyToMany → layout.joins schema = []) ∧
      (relation.kind ≠ .manyToMany → layout.joins schema ≠ [] ∧
        (relation.kind.isToMany = true → layout.fansOut = true)) := by
  have hfound : schema.relation? table.name name = some relation := by
    rw [Schema.relation?, hknown]
    exact hrelation
  obtain ⟨target, htarget, -⟩ := (hschema.resolves hknown hrelation).target
  cases h with
  | intro htable _ _ _ _ _ hrelations =>
      obtain ⟨_, _, _, _, _, _, _, _, joined, deferred⟩ := layout
      cases htable
      rw [Layout.joins, Layout.fansOut]
      cases hrelations with
      | joined hjoinable _ _ hrest =>
          obtain ⟨hother, hkind, -⟩ := joinable?_eq_some hjoinable
          rw [hfound, Option.some_inj] at hother
          subst hother
          refine ⟨fun hmany => absurd hmany hkind, fun _ => ⟨?_, fun hmany => ?_⟩⟩
          · rw [branchJoins_cons hfound]
            exact List.cons_ne_nil _ _
          · rw [branchesFanOut, hmany]
            rfl
      | deferred hjoinable _ hrest =>
          cases hrest
          refine ⟨fun _ => rfl, fun hkind => ?_⟩
          rw [Planner.joinable?, hfound] at hjoinable
          simp [hkind, htarget] at hjoinable

section OneRelation

variable {table : Table} {name : String} {relation : Relation} {choice : Choice RelationArgs}
  {order : SortRequest} (hschema : engine.schema.Consistent)
  (hknown : engine.schema.table? table.name = some table) (hname : table.hasColumn name = false)
  (hrelation : table.relation? name = some relation) (hmany : relation.kind.isToMany = true)
  (hchoice : choice.args? = some {}) (hkeyed : engine.schema.usableKey table.name ≠ [])
  (hapart : ApartBy (engine.schema.usableKey table.name) (db.rows table.name))
  (horder : order.Avoids [name])

include hschema hknown hname hrelation hmany hchoice hkeyed hapart horder

/-- A request for distinct records with one included relation to many sorts the rows of the table
before it makes them distinct if it joins the relation, and else afterwards. -/
theorem findMany_distinct (distinct : List String) (take : Option Int) (skip : Option Nat)
    (strategy : LoadStrategy) :
    let args : FindArgs :=
      { distinct := some distinct, orderBy := some order, included := some [(name, choice)], take,
        skip, strategy := some strategy }
    let paging := engine.paging args
    let keys := engine.baseOrder table args paging.backwards []
    let columns := table.distinctColumns (some distinct)
    let rows := db.rows table.name
    PutInOrder keys table.name rows →
    (engine.findMany table.name args).Gives db.run fun records =>
      records.map (·.shown table.columnNames []) =
        let found := (pageOf paging.skip paging.size
          (if strategy = .join ∧ relation.kind ≠ .manyToMany
            then distinctRows columns (rowsInOrder keys rows)
            else rowsInOrder keys (distinctRows columns rows))).map (·.recordOf table.columnNames)
        if paging.backwards then found.reverse else found := by
  intro args paging keys columns rows hsorted
  let branch := RelationArgs.branch engine.schema relation.target {}
  let shape : Shape := { fields := table.columnNames, relations := [(name, branch)] }
  have hshape : engine.schema.shape table.name args.selected args.included args.omitted = shape :=
    shape_asking hknown hname hrelation hchoice
  have hproper : shape.Proper engine.schema table.name :=
    hshape ▸ engine.schema.shape_proper table.name _ _ _
  have hplain : shape.Throughout engine.schema (fun _ branch _ => branch.WithoutClauses)
      table.name := by
    have hbare : branch.shape.relations = [] := by
      simp only [branch, RelationArgs.branch_eq, Schema.shape]
      cases engine.schema.table? relation.target <;> rfl
    rw [Shape.Throughout]
    refine branchesThroughout_iff.mpr (List.forall_mem_singleton.mpr fun known _ => ?_)
    refine ⟨⟨rfl, rfl, rfl, rfl, rfl, rfl⟩, ?_⟩
    generalize branch.shape = beneath at hbare
    obtain ⟨_, _, _⟩ := beneath
    cases hbare
    rw [Shape.Throughout, branchesThroughout]
    trivial
  have hsome : shape.fields ≠ [] := by
    obtain ⟨column, hcolumn⟩ := List.exists_mem_of_ne_nil _ hkeyed
    have hhas := hasColumn_of_usableKey hcolumn
    rw [Schema.hasColumn, hknown, Option.any_some] at hhas
    exact List.ne_nil_of_mem (mem_columnNames.mpr hhas)
  have hplanned := Shape.layout_planned hschema hproper columns
  have hjoins := (@Shape.layout_joins engine.schema shape table.name columns).1
  obtain ⟨hlinked, hdirect⟩ := joins_one hschema hknown hrelation hplanned
  rw [← hjoins] at hlinked hdirect
  have hplan : engine.planFor table args = shape.layout engine.schema table.name columns := by
    unfold Engine.planFor Engine.shapeFor
    rw [hshape]
  by_cases hjoin : strategy = .join ∧ relation.kind ≠ .manyToMany
  · obtain ⟨hnonempty, hfans⟩ := hdirect hjoin.2
    have hjoined : engine.Joins table args := by
      refine ⟨hjoin.1, ?_⟩
      rw [hplan]
      simpa using hnonempty
    rw [findMany_joined hknown hjoined, if_pos hjoin, hplan]
    exact gives_turned_shown (findJoined_distinct hproper rfl rfl hsorted hschema hknown rfl hplain
      (fun asked hasked => Option.some_inj.mp hasked ▸ horder) (hfans hmany) hkeyed hapart)
        paging.backwards
  · have hunjoined : ¬ engine.Joins table args := by
      rintro ⟨hstrategy, hnonempty⟩
      refine hjoin ⟨hstrategy, fun hkind => ?_⟩
      rw [hplan, hlinked hkind] at hnonempty
      cases hnonempty
    rw [findMany_unjoined hknown hunjoined, if_neg hjoin,
      show engine.shapeFor table args = shape from hshape]
    exact gives_turned_shown (findSeparately_distinct hproper rfl rfl hsorted hsome) paging.backwards

end OneRelation

/-- **Distinct records by either strategy.**  Take a table whose rows are told apart by their keys,
distinct columns, an ordering by its columns that puts the rows in strict order, one included
relation to many without arguments, and any page.  By separate statements the records found are
those of the distinct rows, put in order; by a joined statement they are those of the rows in order,
made distinct.  So both find the same records if of the rows with the same distinct values the first
in the table is also the first in order. -/
theorem distinct_by_strategy {schema : Schema} (h : schema.Reachable) (settings : Settings)
    (db : Database) {table : Table} (hknown : schema.table? table.name = some table) {name : String}
    {relation : Relation} (hname : table.hasColumn name = false)
    (hrelation : table.relation? name = some relation) (hmany : relation.kind.isToMany = true)
    {choice : Choice RelationArgs} (hchoice : choice.args? = some {})
    (hkeyed : schema.usableKey table.name ≠ [])
    (hapart : ApartBy (schema.usableKey table.name) (db.rows table.name)) (distinct : List String)
    {order : SortRequest} (horder : order.Avoids [name]) (take : Option Int) (skip : Option Nat) :
    let engine : Engine := ⟨schema, settings⟩
    let args := fun strategy : LoadStrategy =>
      ({ distinct := some distinct, orderBy := some order, included := some [(name, choice)], take,
         skip, strategy := some strategy } : FindArgs)
    let paging := engine.paging (args .join)
    let keys := engine.baseOrder table (args .join) paging.backwards []
    let columns := table.distinctColumns (some distinct)
    let rows := db.rows table.name
    let find := fun strategy =>
      ((engine.findMany table.name (args strategy)).hold Database.source db).result
    let fields := fun records : List Record => records.map (·.shown table.columnNames [])
    let page := fun rows : List Row =>
      let records := (pageOf paging.skip paging.size rows).map (·.recordOf table.columnNames)
      if paging.backwards then records.reverse else records
    PutInOrder keys table.name rows →
    ∃ joined separate, find .join = .ok joined ∧ find .query = .ok separate ∧
      fields separate = page (rowsInOrder keys (distinctRows columns rows)) ∧
      fields joined = page (if relation.kind = .manyToMany
        then rowsInOrder keys (distinctRows columns rows)
        else distinctRows columns (rowsInOrder keys rows)) ∧
      (FirstInOrder keys columns rows → fields joined = fields separate) := by
  intro engine args paging keys columns rows find fields page hsorted
  have hgives := fun strategy => @findMany_distinct db engine table name relation choice order
    h.consistent hknown hname hrelation hmany hchoice hkeyed hapart horder distinct take skip strategy
      hsorted
  obtain ⟨joined, hfoundJoined, hjoined⟩ := findMany_result h.consistent hknown (hgives .join)
  obtain ⟨separate, hfoundSeparate, hseparate⟩ := findMany_result h.consistent hknown (hgives .query)
  have hjoinedRows : fields joined = page (if relation.kind = .manyToMany
      then rowsInOrder keys (distinctRows columns rows)
      else distinctRows columns (rowsInOrder keys rows)) := by
    refine hjoined.trans (congrArg page ?_)
    by_cases hkind : relation.kind = .manyToMany
    · rw [if_pos hkind, if_neg fun hjoin => hjoin.2 hkind]
    · rw [if_neg hkind, if_pos ⟨rfl, hkind⟩]
  have hseparateRows : fields separate = page (rowsInOrder keys (distinctRows columns rows)) :=
    hseparate.trans (congrArg page (if_neg fun hjoin => nomatch hjoin.1))
  refine ⟨joined, separate, hfoundJoined, hfoundSeparate, hseparateRows, hjoinedRows, fun hfirst => ?_⟩
  rw [hjoinedRows, hseparateRows, (hsorted.distinct_inOrder_iff columns).mpr hfirst, ite_self]

/-- Authors of whom two have one name. -/
def namedRows : Database :=
  [("Author", [[("id", .integer 1), ("name", .text "Ann")],
    [("id", .integer 2), ("name", .text "Bob")], [("id", .integer 3), ("name", .text "Ann")]])]

/-- What the table of the authors is to a request that orders its distinct records by the id. -/
theorem exists_author : ∃ known : Table,
    (Schema.ofDecls blogTables).table? known.name = some known ∧ known.name = "Author" ∧
      known.hasColumn "posts" = false ∧
      known.relation? "posts" = some (.oneToMany "posts" "Post" "id" "authorId") ∧
      known.columnNames = ["id", "name"] ∧ known.distinctColumns (some ["name"]) = ["name"] ∧
      Engine.baseOrder ⟨Schema.ofDecls blogTables, {}⟩ known
        { orderBy := some (.by "id" .ascending) } false [] = [⟨⟨"Author", "id"⟩, .ascending, none⟩] := by
  obtain ⟨known, hknown, hname⟩ := exists_blog_author
  have htable : ((Schema.ofDecls blogTables).table? "Author").map (fun table =>
      (table.hasColumn "posts", table.relation? "posts", table.columnNames,
        table.distinctColumns (some ["name"]),
        Engine.baseOrder ⟨Schema.ofDecls blogTables, {}⟩ table
          { orderBy := some (.by "id" .ascending) } false [])) =
      some (false, some (.oneToMany "posts" "Post" "id" "authorId"), ["id", "name"], ["name"],
        [⟨⟨"Author", "id"⟩, .ascending, none⟩]) := by
    decide +kernel
  rw [hknown, Option.map_some, Option.some_inj] at htable
  simp only [Prod.mk.injEq] at htable
  exact ⟨known, hname.symm ▸ hknown, hname, htable⟩

/-- In ascending order either strategy finds the authors with their posts alike, one of each name. -/
theorem distinct_by_strategy_blog :
    let find := fun strategy : LoadStrategy =>
      ((Engine.findMany ⟨Schema.ofDecls blogTables, {}⟩ "Author"
        { distinct := some ["name"], orderBy := some (.by "id" .ascending)
          included := some [("posts", .flag true)]
          strategy := some strategy }).hold Database.source namedRows).result
    let fields := fun records : List Record => records.map (·.shown ["id", "name"] [])
    ∃ joined separate, find .join = .ok joined ∧ find .query = .ok separate ∧
      fields joined = fields separate := by
  intro find fields
  obtain ⟨known, hknown, hname, hcolumn, hrelation, hcolumns, hdistinct, hkeys⟩ := exists_author
  have hsorted : PutInOrder [⟨⟨"Author", "id"⟩, .ascending, none⟩] "Author"
      (namedRows.rows "Author") := .of_integers (by decide +kernel) (by decide +kernel)
  rw [← hkeys, ← hname] at hsorted
  have hfirst : FirstInOrder [⟨⟨"Author", "id"⟩, .ascending, none⟩] ["name"]
      (namedRows.rows "Author") := by decide +kernel
  rw [← hkeys, ← hdistinct, ← hname] at hfirst
  obtain ⟨joined, separate, hjoined, hseparate, -, -, hsame⟩ :=
    @distinct_by_strategy _ reachable_blog {} namedRows known hknown "posts" _ hcolumn hrelation rfl
      (.flag true) rfl (by rw [hname]; decide +kernel) (by rw [hname]; decide +kernel) ["name"]
      (.by "id" .ascending) (by decide) none none hsorted
  rw [hname] at hjoined hseparate
  rw [hcolumns] at hsame
  exact ⟨joined, separate, hjoined, hseparate, hsame hfirst⟩

/-- In descending order separate statements keep the author of a name that the table has first, and
a joined statement the one that is first in order. -/
theorem distinct_keeps_first_of_table :
    let find := fun strategy : LoadStrategy =>
      ((Engine.findMany ⟨Schema.ofDecls blogTables, {}⟩ "Author"
        { distinct := some ["name"], orderBy := some (.by "id" .descending)
          included := some [("posts", .flag true)]
          strategy := some strategy }).hold Database.source namedRows).result
    ∃ joined separate, find .join = .ok joined ∧ find .query = .ok separate ∧
      joined.map (·.scalar "id") = [.integer 3, .integer 2] ∧
      separate.map (·.scalar "id") = [.integer 2, .integer 1] :=
  ⟨_, _, rfl, rfl, by decide, by decide⟩

end NestedQuery
