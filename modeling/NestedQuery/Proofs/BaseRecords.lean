import NestedQuery.Proofs.FoundRecords
import NestedQuery.Proofs.PlannedJoins

/-!
# What records show of their base rows

Of the records that a request finds, the fields of the base table depend on
little.  Joined rows are grouped by the key of their base row, in the order of
first appearance; the page is cut from the groups; and loading and stripping
leave fields alone.  So two joined statements whose rows begin with the same
base rows, one after the other, show the same fields, whatever stands beside
these rows.
-/

namespace NestedQuery

variable {schema : Schema} {db : Database} {engine : Engine}

/-! ### Fields of a record -/

/-- Sorted records that have the same fields show the same of them. -/
theorem shown_congr {one other : Record} (hone : Dict.Sorted one) (hother : Dict.Sorted other)
    {fields : List String} (h : ∀ field ∈ fields, one.lookup field = other.lookup field) :
    one.shown fields [] = other.shown fields [] := by
  refine Dict.Sorted.ext (hone.filter _) (hother.filter _) fun name => ?_
  rw [Record.lookup_shown, Record.lookup_shown]
  split
  · next hname => exact h name (by simpa using hname)
  · rfl

/-- A record that mirrors columns of a row shows them. -/
theorem Record.Mirrors.shown {record : Record} {row : Row} {columns : List String}
    (h : record.Mirrors row columns) : record.shown columns [] = row.recordOf columns := by
  refine Dict.Sorted.ext (h.sorted.filter _) (Dict.sorted_ofPairs _) fun name => ?_
  rw [Record.lookup_shown, Row.lookup_recordOf]
  by_cases hname : name ∈ columns
  · rw [if_pos (by simpa using hname), if_pos hname, h.bound name hname]
  · rw [if_neg (by simpa using hname), if_neg hname]

theorem Row.recordOf_mirrors (row : Row) (columns : List String) :
    (row.recordOf columns).Mirrors row columns := by
  refine ⟨Dict.sorted_ofPairs _, fun column hcolumn => ?_⟩
  rw [Row.lookup_recordOf, if_pos hcolumn]

theorem Record.Mirrors.subset {record : Record} {row : Row} {fields columns : List String}
    (h : record.Mirrors row columns) (hfields : fields ⊆ columns) : record.Mirrors row fields :=
  ⟨h.sorted, fun field hfield => h.bound field (hfields hfield)⟩

/-- Of some columns of a row fewer can be shown. -/
theorem Row.recordOf_shown (row : Row) {fields columns : List String} (h : fields ⊆ columns) :
    (row.recordOf columns).shown fields [] = row.recordOf fields :=
  ((row.recordOf_mirrors columns).subset h).shown

/-! ### Rows that make records -/

/-- The first row of every combination of values of the columns; all without columns. -/
def distinctRows (columns : List String) (rows : List Row) : List Row :=
  if columns.isEmpty then rows
  else firstOfEach (fun row : Row => Value.jointKey (columns.map row.value)) [] rows

theorem distinctRows_sublist (columns : List String) (rows : List Row) :
    (distinctRows columns rows).Sublist rows := by
  unfold distinctRows
  split
  · exact List.Sublist.refl rows
  · exact firstOfEach_sublist _ _ _

/-- Records of rows are made distinct as the rows are. -/
theorem distinctBy_recordOf {distinct columns : List String} (h : distinct ⊆ columns)
    (rows : List Row) : distinctBy distinct (rows.map (·.recordOf columns)) =
      (distinctRows distinct rows).map (·.recordOf columns) := by
  unfold distinctBy distinctRows
  split
  · rfl
  · rw [firstOfEach_map]
    have hkey : ∀ row : Row, Value.jointKey (distinct.map (row.recordOf columns).scalar) =
        Value.jointKey (distinct.map row.value) :=
      fun row => congrArg _ (List.map_congr_left fun column hcolumn =>
        (row.recordOf_mirrors columns).scalar (h hcolumn))
    simp only [hkey]

/-- The rows of which records are made, of the base rows that joined rows begin with: one for every
key, distinct and paged where rows may repeat records. -/
def Engine.recordRows (engine : Engine) (table : Table) (args : FindArgs) (paging : Paging)
    (fansOut : Bool) (rows : List Row) : List Row :=
  let firsts := firstOfEach (fun row : Row =>
    Value.jointKey ((engine.schema.usableKey table.name).map row.value)) [] rows
  if fansOut then
    pageOf paging.skip paging.size (distinctRows (table.distinctColumns args.distinct) firsts)
  else firsts

/-- Items with keys of their own are all first of their keys. -/
theorem mem_firstOfEach {α : Type} {key : α → String} {items : List α}
    (h : ∀ one ∈ items, ∀ other ∈ items, key one = key other → one = other) {item : α} :
    item ∈ firstOfEach key [] items ↔ item ∈ items := by
  have hsublist := firstOfEach_sublist key [] items
  refine ⟨fun hitem => hsublist.subset hitem, fun hitem => ?_⟩
  rcases exists_firstOfEach key [] hitem with hseen | ⟨first, hfirst, hkey⟩
  · cases hseen
  · exact h first (hsublist.subset hfirst) item hitem hkey ▸ hfirst

/-- So of them the first ones are the same, however the items stand. -/
theorem firstOfEach_perm {α : Type} {key : α → String} {items others : List α}
    (h : ∀ one ∈ items, ∀ other ∈ items, key one = key other → one = other)
    (hperm : items.Perm others) :
    (firstOfEach key [] items).Perm (firstOfEach key [] others) := by
  have hothers : ∀ one ∈ others, ∀ other ∈ others, key one = key other → one = other :=
    fun one hone other hother => h one (hperm.mem_iff.mpr hone) other (hperm.mem_iff.mpr hother)
  refine (List.perm_ext_iff_of_nodup (firstOfEach_keys [] items).1.of_map
    (firstOfEach_keys [] others).1.of_map).mpr fun item => ?_
  rw [mem_firstOfEach h, mem_firstOfEach hothers, hperm.mem_iff]

/-! ### The order of base rows -/

/-- Rows in the order of sort keys. -/
def rowsInOrder (keys : List SortKey) (rows : List Row) : List Row :=
  stableSort (fun one other => valueOrder keys one.value other.value) rows

theorem rowsInOrder_nil (rows : List Row) : rowsInOrder [] rows = rows :=
  stableSort_of_same fun _ _ _ _ => rfl

/-- Sorting and then keeping some of the rows is keeping them and then sorting. -/
theorem rowsInOrder_filter {keys : List SortKey} {rows : List Row}
    (h : ∀ key ∈ keys, Value.Ordered (rows.map (·.value key.column.name))) (keep : Row → Bool) :
    rowsInOrder keys (rows.filter keep) = (rowsInOrder keys rows).filter keep :=
  (sortOrder_orders keys h).stableSort_filter keep

/-- The selected rows are those that the predicate is true of, in the order of the keys. -/
theorem selected_inOrder (table : String) (filter : Option Expr) (keys : List SortKey) :
    db.selected table filter (orderClause keys) =
      rowsInOrder keys ((db.rows table).filter fun row => db.passes filter [(table, some row)]) := by
  rw [selected_eq]
  cases keys with
  | nil => exact (rowsInOrder_nil _).symm
  | cons key rest => rfl

/-- Without a filter all rows are selected. -/
theorem selected_all (table : String) (keys : List SortKey) :
    db.selected table none (orderClause keys) = rowsInOrder keys (db.rows table) := by
  rw [selected_inOrder]
  exact congrArg _ (List.filter_eq_self.mpr fun _ _ => rfl)

section Order

variable {keys : List SortKey} {table : String} {rows : List Row}
  (h : PutInOrder keys table rows)

include h

/-- Rows that keys put in order are settled by being in order. -/
theorem PutInOrder.eq_of_perm {one other : List Row} (hone : one ⊆ rows) (hperm : one.Perm other)
    (hfirst : one.Pairwise fun a b => valueOrder keys a.value b.value ≠ .gt)
    (hsecond : other.Pairwise fun a b => valueOrder keys a.value b.value ≠ .gt) : one = other := by
  refine hperm.eq_of_pairwise ?_ hfirst hsecond
  intro a b ha hb hab hba
  refine h.eq_of_order (hone ha) (hone (hperm.symm.subset hb)) ?_
  rw [valueOrder_swap] at hba
  cases hvalue : valueOrder keys a.value b.value with
  | eq => rfl
  | gt => exact absurd hvalue hab
  | lt =>
      rw [hvalue] at hba
      exact absurd rfl hba

/-- Joined rows that are sorted by keys of the base table first, and by others then, stand in the
order of their base rows. -/
theorem PutInOrder.pairwise_rowOf {tuples : List Bindings} {more : List SortKey}
    (horders : OrdersOn (tupleOrder (keys ++ more)) (· ∈ tuples)) :
    ((inOrder (orderClause (keys ++ more)) tuples).map (·.rowOf table)).Pairwise
      fun one other => valueOrder keys one.value other.value ≠ .gt := by
  rw [List.pairwise_map]
  unfold orderClause
  split
  · next hnone =>
      rw [List.isEmpty_iff, List.append_eq_nil_iff] at hnone
      rw [hnone.1]
      exact List.pairwise_of_forall fun _ _ hgt => nomatch hgt
  · refine horders.pairwise_stableSort.imp fun {one other} hle hgt => hle ?_
    rw [tupleOrder_append, tupleOrder_rowOf h.own, hgt]
    rfl

/-- So do joined rows that are sorted by keys of the base table alone. -/
theorem PutInOrder.pairwise_rowOf_own {tuples : List Bindings}
    (htuples : ∀ tuple ∈ tuples, tuple.rowOf table ∈ rows) :
    ((inOrder (orderClause keys) tuples).map (·.rowOf table)).Pairwise
      fun one other => valueOrder keys one.value other.value ≠ .gt := by
  have horders := ordersOn_rowOf h.own h.ordered htuples
  rw [← List.append_nil keys] at horders ⊢
  simpa using h.pairwise_rowOf horders

/-- So the base rows of joined rows stand alike, by whatever else the joined rows are sorted. -/
theorem PutInOrder.rowOf_inOrder {tuples : List Bindings}
    (htuples : ∀ tuple ∈ tuples, tuple.rowOf table ∈ rows) {more others : List SortKey}
    (horders : OrdersOn (tupleOrder (keys ++ more)) (· ∈ tuples))
    (hothers : OrdersOn (tupleOrder (keys ++ others)) (· ∈ tuples)) :
    (inOrder (orderClause (keys ++ more)) tuples).map (·.rowOf table) =
      (inOrder (orderClause (keys ++ others)) tuples).map (·.rowOf table) := by
  refine h.eq_of_perm ?_ ?_ (h.pairwise_rowOf horders) (h.pairwise_rowOf hothers)
  · intro row hrow
    obtain ⟨tuple, htuple, rfl⟩ := List.mem_map.mp hrow
    exact htuples tuple ((inOrder_perm _ _).subset htuple)
  · exact ((inOrder_perm _ _).trans (inOrder_perm _ _).symm).map _

end Order

/-! ### Folding -/

/-- The group of the first item of a key begins with it. -/
theorem head?_of_first {α : Type} {key : α → String} {first : α} {seen : List String}
    {items : List α} (h : first ∈ firstOfEach key seen items) :
    (items.filter fun item => key item == key first).head? = some first := by
  induction items generalizing seen with
  | nil => cases h
  | cons item rest ih =>
      have hother : first ∈ firstOfEach key (key item :: seen) rest →
          key item ≠ key first := fun hmem heq =>
        (firstOfEach_keys (key item :: seen) rest).2 first hmem (heq ▸ List.mem_cons_self)
      rw [firstOfEach] at h
      split at h
      · next hseen =>
          have hne : key item ≠ key first := fun heq =>
            (firstOfEach_keys seen rest).2 first h (heq ▸ List.contains_iff_mem.mp hseen)
          rw [List.filter_cons_of_neg (by simpa using hne)]
          exact ih h
      · rcases List.mem_cons.mp h with rfl | hmem
        · rw [List.filter_cons_of_pos (by simp), List.head?_cons]
        · rw [List.filter_cons_of_neg (by simpa using hother hmem)]
          exact ih hmem

theorem Layout.sorted_fold (layout : Layout) (group : List Row) :
    Dict.Sorted (layout.fold group) :=
  (Dict.sorted_ofPairs _).putAll _

theorem Layout.sorted_assemble (layout : Layout) (rows : List Row) :
    ∀ record ∈ layout.assemble rows, Dict.Sorted record := by
  rw [layout.assemble_eq]
  exact List.forall_mem_map.mpr fun group _ => layout.sorted_fold group

/-- Of their base columns folded records show the first base row of every key. -/
theorem Layout.Begins.assemble_shown {layout : Layout} {table : String}
    (h : layout.Begins schema table) (hkey : layout.key ≠ []) {columns : List String}
    (hcolumns : columns ⊆ layout.columns)
    (hnew : ∀ column ∈ columns, column ∉ layout.relations.map (·.name)) (tuples : List Bindings) :
    (layout.assemble (tuples.map layout.yield)).map (·.shown columns []) =
      (firstOfEach (fun row : Row => Value.jointKey (layout.key.map row.value)) []
        (tuples.map (·.rowOf table))).map (·.recordOf columns) := by
  have hgroup : ∀ tuple : Bindings,
      Value.jointKey (layout.key.map (tuple.rowOf table).value) = layout.groupKey tuple := by
    intro tuple
    rw [Layout.groupKey, h.identity_yield hkey]
  rw [h.assemble_yield, groupsOf, List.map_map, List.map_map, firstOfEach_map, List.map_map]
  simp only [hgroup]
  refine List.map_congr_left fun first hfirst => ?_
  refine Record.Mirrors.shown ⟨layout.sorted_fold _, fun column hcolumn => ?_⟩
  refine h.lookup_fold ?_ (hcolumns hcolumn) (hnew column hcolumn)
  rw [List.head?_map, head?_of_first hfirst, Option.map_some]

/-! ### Loading and stripping -/

/-- Loading what was put off changes the entries of relations alone. -/
theorem loadDeferred_others {shape : Shape} {table : String} {layout : Layout}
    (hplanned : shape.Planned schema table layout) (hproper : shape.Proper schema table)
    (records : List Record) :
    (layout.loadDeferred schema records).Gives db.run fun load =>
      ∀ record, Dict.Sorted record → Dict.Sorted (load record) ∧
        ∀ field ∈ shape.fields, (load record).lookup field = record.lookup field := by
  obtain ⟨hcolumns, hnodup, hbranches⟩ := Shape.proper_iff.mp hproper
  cases hplanned with
  | @intro fields excluded relations _ _ htable _ _ _ _ _ hrelations =>
      obtain ⟨hjoined, hdeferred, -⟩ := hrelations.nodup hnodup
      obtain ⟨layoutTable, _, _, _, _, _, _, _, joined, deferred⟩ := layout
      cases htable
      rw [Layout.loadDeferred]
      refine Load.Gives.bind (loadBranches_gives (hrelations.deferred_proper hbranches) hdeferred
        records) fun here hhere => ?_
      refine Load.Gives.bind (loadDeferredBranches_gives hrelations hbranches hjoined _)
        fun beneath hbeneath => ?_
      refine Load.gives_pure fun record hsorted =>
        ⟨hbeneath.sorted _ (hhere.sorted record hsorted), fun field hfield => ?_⟩
      have hnone : field ∉ relations.map (·.1) := fields_disjoint hcolumns hbranches field hfield
      have hnames := hrelations.names_perm.subset
      rw [hbeneath.others _ _ fun hmem => hnone (hnames (List.mem_append_left _ hmem)),
        hhere.others _ _ fun hmem => hnone (hnames (List.mem_append_right _ hmem))]

/-- Stripping keeps the fields. -/
theorem strip_shown {shape : Shape} {table : String} {layout : Layout}
    (hplanned : shape.Planned schema table layout) (hproper : shape.Proper schema table)
    {record : Record} (hsorted : Dict.Sorted record) :
    (layout.strip record).shown shape.fields [] = record.shown shape.fields [] := by
  obtain ⟨hcolumns, -, hbranches⟩ := Shape.proper_iff.mp hproper
  cases hplanned with
  | @intro fields excluded relations _ _ _ hfields _ _ _ _ hrelations =>
      have hjoined : ∀ field ∈ fields, field ∉ layout.relations.map (·.name) :=
        fun field hfield hmem => fields_disjoint hcolumns hbranches field hfield
          (hrelations.names_perm.subset (List.mem_append_left _ hmem))
      obtain ⟨_, _, _, layoutFields, _, _, _, _, joined, deferred⟩ := layout
      cases hfields
      rw [Layout.strip]
      obtain ⟨hnames, hothers⟩ := stripBranches_others joined
        (record.shown layoutFields (joined.map (·.name) ++ deferred.map (·.1)))
      refine shown_congr (Dict.sorted_of_names hnames.symm (hsorted.filter _)) hsorted
        fun field hfield => ?_
      rw [hothers field (hjoined field hfield), Record.lookup_shown, if_pos (by simp [hfield])]

/-! ### Requests -/

/-- The layout of a shape carries the extra columns that the table has. -/
theorem Shape.layout_carries (shape : Shape) {table : Table}
    (hknown : schema.table? table.name = some table) {extra : List String}
    (hextra : ∀ column ∈ extra, table.hasColumn column = true) :
    extra ⊆ (shape.layout schema table.name extra).1.columns := by
  have hnamed : ∀ (layout : Layout) taken, (layout.nameOutputs taken).1.columns = layout.columns := by
    rintro ⟨_, _, _, _, _, _, _, _, _, _⟩ taken
    rw [Layout.nameOutputs]
  intro column hcolumn
  obtain ⟨fields, excluded, relations⟩ := shape
  change column ∈ (Layout.nameOutputs (Shape.plan schema ⟨fields, excluded, relations⟩ table.name
    table.name "" extra {}).1 []).1.columns
  rw [hnamed, Shape.plan]
  refine mem_withHidden.mpr (Or.inr (List.mem_append_left _ (List.mem_append_right _ ?_)))
  refine List.mem_filter.mpr ⟨hcolumn, ?_⟩
  rw [hknown, Option.any_some]
  exact hextra column hcolumn

/-- The shape of the records of a request. -/
def Engine.shapeFor (engine : Engine) (table : Table) (args : FindArgs) : Shape :=
  engine.schema.shape table.name args.selected args.included args.omitted

/-- The plan of a request: the layout of its joined statement, and the joins. -/
def Engine.planFor (engine : Engine) (table : Table) (args : FindArgs) : Layout × Planner :=
  (engine.shapeFor table args).layout engine.schema table.name
    (table.distinctColumns args.distinct)

theorem planFor_planned (hschema : engine.schema.Consistent) (table : Table) (args : FindArgs) :
    (engine.shapeFor table args).PlannedAs engine.schema table.name (engine.planFor table args).1
      (engine.planFor table args).2 :=
  Shape.planned_as hschema (engine.schema.shape_proper _ _ _ _) rfl

/-- Whether a request loads relations by joins. -/
def Engine.Joins (engine : Engine) (table : Table) (args : FindArgs) : Prop :=
  args.strategy.getD engine.settings.strategy = .join ∧
    (!(engine.planFor table args).2.joins.isEmpty) = true

section Found

variable {table : Table} {args : FindArgs} {shape : Shape} (hschema : engine.schema.Consistent)
  (hknown : engine.schema.table? table.name = some table)
  (hproper : shape.Proper engine.schema table.name)

include hschema hknown hproper

/-- By a joined statement the fields of the records found are those of the base rows that its rows
begin with.  What is cut from the records is cut from the rows that they show. -/
theorem findJoined_base (paging : Paging) {layout : Layout} {planner : Planner}
    (hplan : shape.layout engine.schema table.name (table.distinctColumns args.distinct) =
      (layout, planner)) (hkey : engine.schema.usableKey table.name ≠ []) {tuples : List Bindings}
    (hrun : db.run (engine.joinedStatement table args paging layout planner) =
      .ok (tuples.map layout.yield)) :
    (engine.findJoined table args paging layout planner).Gives db.run fun records =>
      records.map (·.shown shape.fields []) =
        (engine.recordRows table args paging layout.fansOut
          (tuples.map (·.rowOf table.name))).map (·.recordOf shape.fields) := by
  let distinct := table.distinctColumns args.distinct
  have hdistinct : ∀ column ∈ distinct, table.hasColumn column = true :=
    fun column hcolumn => (List.mem_filter.mp hcolumn).2
  have hcarried : distinct ⊆ layout.columns := by
    have := shape.layout_carries hknown hdistinct
    rwa [hplan] at this
  have hbegins : layout.Begins engine.schema table.name := by
    have := Shape.layout_begins hschema hproper distinct
    rwa [hplan] at this
  have hplanned : shape.Planned engine.schema table.name layout := by
    have := Shape.layout_planned hschema hproper distinct
    rwa [hplan] at this
  have hfields : shape.fields ++ distinct ⊆ layout.columns := by
    refine List.append_subset.mpr ⟨?_, hcarried⟩
    rw [← hplanned.fields_eq]
    exact List.Subset.trans (List.subset_append_left _ _) hbegins.carried
  have hnew : ∀ column ∈ shape.fields ++ distinct, column ∉ layout.relations.map (·.name) := by
    intro column hcolumn hmem
    obtain ⟨entry, hentry, rfl⟩ := List.mem_map.mp (hplanned.names_subset hmem)
    have hnone := (branchesProper_iff.mp (Shape.proper_iff.mp hproper).2.2 entry hentry).1
    rcases List.mem_append.mp hcolumn with hfield | hextra
    · rw [(Shape.proper_iff.mp hproper).1 _ hfield] at hnone
      cases hnone
    · rw [Schema.hasColumn, hknown, Option.any_some, hdistinct _ hextra] at hnone
      cases hnone
  have hassembled := hbegins.assemble_shown (hbegins.key_eq ▸ hkey) hfields hnew tuples
  have hsorted := layout.sorted_assemble (tuples.map layout.yield)
  unfold Engine.findJoined
  refine Load.gives_ask hrun ?_
  dsimp only
  generalize layout.assemble (tuples.map layout.yield) = records at hassembled hsorted ⊢
  have hpaged : (if layout.fansOut then
      pageOf paging.skip paging.size (distinctBy distinct records) else records).map
        (·.shown (shape.fields ++ distinct) []) =
      (engine.recordRows table args paging layout.fansOut
        (tuples.map (·.rowOf table.name))).map (·.recordOf (shape.fields ++ distinct)) := by
    unfold Engine.recordRows
    rw [hbegins.key_eq] at hassembled
    cases layout.fansOut with
    | false => exact hassembled
    | true =>
        have hkeeps : ∀ column ∈ distinct, ∀ record : Record,
            (record.shown (shape.fields ++ distinct) []).scalar column = record.scalar column :=
          fun column hcolumn record => record.scalar_shown [] (List.mem_append_right _ hcolumn)
        rw [if_pos rfl, if_pos rfl, pageOf_map, pageOf_map, ← distinctBy_map hkeeps, hassembled,
          distinctBy_recordOf (List.subset_append_right _ _)]
  have hsubset : (if layout.fansOut then
      pageOf paging.skip paging.size (distinctBy distinct records) else records) ⊆ records := by
    split
    · exact List.Subset.trans (pageOf_subset _ _ _) (distinctBy_subset _ _)
    · exact List.Subset.refl _
  refine Load.Gives.bind (loadDeferred_others hplanned hproper _) fun load hload => ?_
  refine Load.gives_pure ?_
  have hcut := congrArg (List.map (Record.shown · shape.fields [])) hpaged
  rw [List.map_map, List.map_map] at hcut
  rw [List.map_map]
  refine Eq.trans (List.map_congr_left fun record hrecord => ?_)
    (hcut.trans (List.map_congr_left fun row _ => ?_))
  · obtain ⟨hloaded, hothers⟩ := hload record (hsorted record (hsubset hrecord))
    rw [Function.comp_apply, strip_shown hplanned hproper hloaded, Function.comp_apply,
      Record.shown_shown _ (List.subset_append_left _ _) (List.Subset.refl _)]
    exact shown_congr hloaded (hsorted record (hsubset hrecord)) hothers
  · exact row.recordOf_shown (List.subset_append_left _ _)

omit hschema hknown in
/-- By separate statements they are those of the rows of the base statement. -/
theorem findSeparately_base (paging : Paging) {rows : List Row}
    (hrun : db.run { engine.baseStatement table args paging [] true with
        outputs := plainOutputs table.name (withHidden shape.fields
          (table.linkColumns (shape.relations.map (·.1)))) } = .ok rows) :
    (engine.findSeparately table args paging shape).Gives db.run fun records =>
      records.map (·.shown shape.fields []) =
        rows.map fun row => row.toRecord.shown shape.fields [] := by
  obtain ⟨hcolumns, hnodup, hbranches⟩ := Shape.proper_iff.mp hproper
  have hcarries := run_plain_carries rfl hrun
  unfold Engine.findSeparately
  refine Load.gives_ask hrun ?_
  refine Load.Gives.bind (loadBranches_gives hbranches hnodup _) fun load hload => ?_
  refine Load.gives_pure ?_
  rw [List.map_map, List.map_map]
  refine List.map_congr_left fun row hrow => ?_
  have hsorted := (hcarries row hrow).sorted
  rw [Function.comp_apply, Function.comp_apply,
    Record.shown_shown _ (List.Subset.refl _) (List.nil_subset _)]
  exact shown_congr (hload.sorted _ hsorted) hsorted fun field hfield =>
    hload.others _ _ (fields_disjoint hcolumns hbranches field hfield)

end Found

/-- A request finds by joins or by separate statements, and turns around what it finds backwards. -/
theorem findMany_joined {table : Table} (hknown : engine.schema.table? table.name = some table)
    {args : FindArgs} (hjoins : engine.Joins table args) :
    engine.findMany table.name args = do
      let plan := engine.planFor table args
      let found ← engine.findJoined table args (engine.paging args) plan.1 plan.2
      return if (engine.paging args).backwards then found.reverse else found := by
  unfold Engine.findMany
  rw [hknown]
  exact if_pos hjoins

theorem findMany_unjoined {table : Table} (hknown : engine.schema.table? table.name = some table)
    {args : FindArgs} (hjoins : ¬ engine.Joins table args) :
    engine.findMany table.name args = do
      let found ←
        engine.findSeparately table args (engine.paging args) (engine.shapeFor table args)
      return if (engine.paging args).backwards then found.reverse else found := by
  unfold Engine.findMany
  rw [hknown]
  exact if_neg hjoins

/-- Turned round, what is found shows its fields turned round. -/
theorem gives_turned_shown {load : Load (List Record)} {fields : List String} {records : List Record}
    (h : load.Gives db.run fun found => found.map (·.shown fields []) = records) (backwards : Bool) :
    (do let found ← load; return if backwards then found.reverse else found : Load _).Gives db.run
      fun found => found.map (·.shown fields []) = if backwards then records.reverse else records := by
  refine gives_turned fun found hfound => ?_
  rw [← h found hfound]
  cases backwards with
  | false => rfl
  | true => exact List.map_reverse

end NestedQuery
