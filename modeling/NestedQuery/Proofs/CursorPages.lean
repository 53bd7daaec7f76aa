import NestedQuery.Proofs.FoundRecords
import NestedQuery.Proofs.PlannedJoins

/-!
# Pages by cursor

A cursor leaves out base rows, and a page size cuts what is left.  Whatever is
joined or loaded beside the base rows, a page is therefore found in the unpaged
result: the records that come after the cursor, as many as the page holds.  The
unpaged result stands in the order of its sort keys.
-/

namespace NestedQuery

variable {schema : Schema} {db : Database} {engine : Engine}

/-! ### Fields of found records -/

/-- Under all other names a record stays as it is. -/
theorem lookup_loadedBeneath : ∀ {relations : List (JoinedBranchOf Layout)} {name : String},
    name ∉ relations.map (·.name) → ∀ (record : Record),
    (loadedBeneath schema db relations record).lookup name = record.lookup name
  | [], name, h, record => by
      rw [loadedBeneath]
  | ⟨other, _, _, layout⟩ :: rest, name, h, record => by
      rw [List.map_cons, List.mem_cons, not_or] at h
      rw [loadedBeneath, lookup_loadedBeneath h.2, Dict.lookup_adjust_of_ne h.1]

/-- Loading and stripping keep the fields of a record. -/
theorem scalar_strip_loaded {shape : Shape} {table : String} {layout : Layout}
    (hplanned : shape.Planned schema table layout) (hproper : shape.Proper schema table)
    (record : Record) {field : String} (hfield : field ∈ shape.fields) :
    (layout.strip (layout.loaded schema db record)).scalar field = record.scalar field := by
  obtain ⟨hcolumns, -, hbranches⟩ := Shape.proper_iff.mp hproper
  cases hplanned with
  | @intro fields excluded relations _ _ _ hfields _ _ _ _ hrelations =>
      have hnone : field ∉ relations.map (·.1) := fields_disjoint hcolumns hbranches field hfield
      have hnames := hrelations.names_perm.subset
      have hjoined : field ∉ layout.relations.map (·.name) :=
        fun hmem => hnone (hnames (List.mem_append_left _ hmem))
      have hdeferred : field ∉ layout.deferred.map (·.1) :=
        fun hmem => hnone (hnames (List.mem_append_right _ hmem))
      obtain ⟨_, _, _, layoutFields, _, _, _, _, joined, deferred⟩ := layout
      cases hfields
      rw [Layout.strip, Layout.loaded, Record.scalar, Record.scalar]
      rw [(stripBranches_others joined _).2 field hjoined, Record.lookup_shown,
        List.contains_iff_mem.mpr hfield, Bool.true_or, if_pos rfl, lookup_loadedBeneath hjoined,
        lookup_loadedBranches hdeferred]

/-- So do attaching relations to the record of a row and dropping its hidden columns. -/
theorem scalar_shown_loaded {shape : Shape} {table : String} (hproper : shape.Proper schema table)
    (row : Row) (hidden : List String) {field : String} (hfield : field ∈ shape.fields) :
    ((loadedBranches schema db shape.relations table
      (row.only (withHidden shape.fields hidden)).toRecord).shown shape.fields
        (shape.relations.map (·.1))).scalar field = row.value field := by
  obtain ⟨hcolumns, -, hbranches⟩ := Shape.proper_iff.mp hproper
  rw [Record.scalar, Record.lookup_shown, List.contains_iff_mem.mpr hfield, Bool.true_or,
    if_pos rfl, lookup_loadedBranches (fields_disjoint hcolumns hbranches _ hfield)]
  exact (row.toRecord_only_mirrors _).scalar (mem_withHidden.mpr (Or.inl hfield))

/-! ### Requests for the whole and for a page -/

/-- The request asks for all records that its filter allows. -/
structure FindArgs.Whole (args : FindArgs) : Prop where
  cursor : args.cursor = none
  take : args.take = none
  skip : args.skip = none
  distinct : args.distinct = none

section Whole

variable {args : FindArgs} (h : args.Whole) (hmost : engine.settings.maxTake = none)

include h hmost

theorem FindArgs.Whole.paging : engine.paging args = ⟨none, none, false⟩ := by
  rw [Engine.paging, Settings.pageSize, h.take, h.skip, hmost]
  rfl

/-- The records of the whole are folded from all its joined rows. -/
theorem FindArgs.Whole.foldedRecords (table : Table) (layout : Layout) (planner : Planner) :
    engine.foldedRecords db table args (engine.paging args) layout planner =
      layout.assemble ((engine.joinedTuples db table args (engine.paging args) layout planner).map
        layout.yield) := by
  have hwindow : (engine.joinedStatement table args (engine.paging args) layout planner).window =
      none := by
    rw [joinedStatement_frame, h.paging hmost]
    simp [Engine.baseStatement]
  unfold Engine.foldedRecords
  rw [hwindow, h.paging hmost]
  exact ite_self _

end Whole

/-- Whether values come after an optional cursor. -/
def precededBy (cursor : Option Cursor) (value : String → Value) : Bool :=
  cursor.all fun cursor => cursor.precedes value

/-- Whether a cursor precedes a row depends on the columns that it knows. -/
theorem precededBy_congr {cursor : Option Cursor} {one other : String → Value}
    (h : ∀ known, cursor = some known → ∀ pair ∈ known, one pair.1 = other pair.1) :
    precededBy cursor one = precededBy cursor other := by
  cases cursor with
  | none => rfl
  | some known =>
      simp only [precededBy, Option.all_some, Cursor.precedes]
      rw [Bool.eq_iff_iff, List.all_eq_true, List.all_eq_true]
      refine forall₂_congr fun pair hpair => ?_
      rw [h known rfl pair hpair]

/-- The predicate of a cursor passes the rows behind it. -/
theorem passes_precededBy {table : Table} {cursor : Option Cursor}
    (h : ∀ known, cursor = some known → ∀ pair ∈ known, table.hasColumn pair.1 = true) (row : Row)
    (more : Bindings) :
    db.passes (cursor.bind (table.cursorPredicate? · false)) ((table.name, some row) :: more) =
      precededBy cursor row.value := by
  cases cursor with
  | none => rfl
  | some cursor => exact passes_cursor (h cursor rfl) row more

/-- A request for all records and one for a page of them, both in the order of the same keys
whatever is joined, under no greatest page. -/
structure Pages (engine : Engine) (table : Table) (keys : List SortKey) (args page : FindArgs)
    (size : Nat) : Prop where
  unbounded : engine.settings.maxTake = none
  whole : args.Whole
  asks : page = { args with orderBy := page.orderBy, cursor := page.cursor, take := some size }
  order : ∀ joined, engine.baseOrder table args false joined = keys
  pageOrder : ∀ joined, engine.baseOrder table page false joined = keys

namespace Pages

variable {table : Table} {keys : List SortKey} {args page : FindArgs} {size : Nat}
  (h : Pages engine table keys args page size)

include h

theorem paging_whole : engine.paging args = ⟨none, none, false⟩ :=
  h.whole.paging h.unbounded

theorem paging_page : engine.paging page = ⟨some size, none, false⟩ := by
  have htake : page.take = some (size : Int) := by
    rw [h.asks]
  have hskip : page.skip = none := by
    rw [h.asks]
    exact h.whole.skip
  have hforward : decide ((size : Int) < 0) = false := by simp
  simp [Engine.paging, Settings.pageSize, htake, hskip, h.unbounded, hforward]

theorem same : page.selected = args.selected ∧ page.included = args.included ∧
    page.omitted = args.omitted ∧ page.strategy = args.strategy ∧ page.filter = args.filter ∧
    page.distinct = none := by
  rw [h.asks]
  exact ⟨rfl, rfl, rfl, rfl, rfl, h.whole.distinct⟩

/-! ### The joined statement -/

section Joined

variable {layout : Layout} {planner : Planner} (hwithin : layout.Within (planner.scope table.name))
  (hordered : OrdersOn (tupleOrder (keys ++ (layout.clauses engine.schema 0).1.keys))
    (· ∈ planner.tuples db table.name))

include hordered

/-- The joined rows of the whole are in the order of the keys and the keys of relations. -/
theorem pairwise_joinedTuples :
    (engine.joinedTuples db table args (engine.paging args) layout planner).Pairwise
      fun one other => tupleOrder (keys ++ (layout.clauses engine.schema 0).1.keys) one other ≠ .gt := by
  unfold Engine.joinedTuples
  dsimp only
  rw [joinedStatement_frame, h.paging_whole]
  dsimp only
  rw [h.order]
  have hmem := (@List.filter_sublist _ (db.passes (engine.joinedStatement table args
    (engine.paging args) layout planner).filter) (planner.tuples db table.name)).subset
  rw [joinedStatement_frame, h.paging_whole] at hmem
  generalize (planner.tuples db table.name).filter _ = tuples at hmem ⊢
  generalize keys ++ (layout.clauses engine.schema 0).1.keys = all at hordered ⊢
  unfold orderClause
  split
  · next hnone =>
      rw [List.isEmpty_iff.mp hnone]
      exact List.pairwise_of_forall fun _ _ => by simp [tupleOrder, sortOrder]
  · exact (hordered.mono fun tuple htuple => hmem htuple).pairwise_stableSort

include hwithin

/-- The joined rows of a page are those of the whole that come after its cursor. -/
theorem joinedTuples_page :
    engine.joinedTuples db table page (engine.paging page) layout planner =
      (engine.joinedTuples db table args (engine.paging args) layout planner).filter
        (db.passes (page.cursor.bind (table.cursorPredicate? · false))) := by
  obtain ⟨-, -, -, -, hfilter, -⟩ := h.same
  have hpasses : ∀ tuple ∈ planner.tuples db table.name,
      db.passes (engine.joinedStatement table page (engine.paging page) layout planner).filter tuple =
        (db.passes (engine.joinedStatement table args (engine.paging args) layout planner).filter
          tuple && db.passes (page.cursor.bind (table.cursorPredicate? · false)) tuple) := by
    intro tuple htuple
    have htrue : db.passes none tuple = true := rfl
    rw [passes_joinedStatement hwithin htuple, passes_joinedStatement hwithin htuple, hfilter,
      h.paging_whole, h.paging_page, h.whole.cursor, Option.bind_none, htrue, Bool.and_true,
      Bool.and_right_comm]
  have hsame : (engine.joinedStatement table page (engine.paging page) layout planner).orderBy =
      (engine.joinedStatement table args (engine.paging args) layout planner).orderBy := by
    rw [joinedStatement_frame, joinedStatement_frame, h.paging_whole, h.paging_page]
    dsimp only
    rw [h.order, h.pageOrder]
  unfold Engine.joinedTuples
  dsimp only
  rw [hsame]
  refine Eq.trans (congrArg _ ?_) (inOrder_filter ?_ _)
  · rw [List.filter_filter]
    refine List.filter_congr fun tuple htuple => ?_
    rw [hpasses tuple htuple, Bool.and_comm]
  · intro found hfound
    rw [joinedStatement_frame, h.paging_whole] at hfound
    rw [orderClause_some hfound, h.order]
    exact hordered.mono fun tuple htuple => (List.mem_filter.mp htuple).1

end Joined

section Folded

variable {layout : Layout} {planner : Planner}
  (hordered : OrdersOn (tupleOrder (keys ++ (layout.clauses engine.schema 0).1.keys))
    (· ∈ planner.tuples db table.name))
  (hbegins : layout.Begins engine.schema table.name)
  (hapart : ApartBy layout.key (db.rows table.name))

include hordered hbegins hapart

/-- They are in the order of the keys. -/
theorem foldedRecords_pairwise (hkeys : PutInOrder keys table.name (db.rows table.name))
    (hshown : ∀ key ∈ keys, key.column.name ∈ layout.fields) :
    (engine.foldedRecords db table args (engine.paging args) layout planner).Pairwise
      fun before after => valueOrder keys before.scalar after.scalar = .lt := by
  rw [h.whole.foldedRecords h.unbounded]
  refine hbegins.assemble_pairwise hapart
    (joinedTuples_over table args (engine.paging args) layout planner)
    (h.pairwise_joinedTuples hordered) ?_
  intro one hone other hother hne more others horder before after hbefore hafter
  rw [tupleOrder_append, tupleOrder_base hkeys.own] at horder
  rw [valueOrder_congr (fun key hkey => hbefore _ (hshown key hkey))
    fun key hkey => hafter _ (hshown key hkey)]
  cases hvalue : valueOrder keys one.value other.value with
  | lt => rfl
  | eq => exact absurd (hkeys.eq_of_order hone hother hvalue) hne
  | gt =>
      rw [hvalue] at horder
      exact absurd rfl horder

/-- The records of a page are those of the whole that come after its cursor, as many as it
holds. -/
theorem foldedRecords_page (hwithin : layout.Within (planner.scope table.name))
    (hsingle : layout.fansOut = false → ∀ row ∈ db.rows table.name,
      (extensions db (planner.joins.map PlannedJoin.clause) [(table.name, some row)]).length ≤ 1)
    (hcursor : ∀ known, page.cursor = some known → ∀ pair ∈ known,
      pair.1 ∈ layout.fields ∧ table.hasColumn pair.1 = true) :
    engine.foldedRecords db table page (engine.paging page) layout planner =
      ((engine.foldedRecords db table args (engine.paging args) layout planner).filter
        fun record => precededBy page.cursor record.scalar).take size := by
  have hcolumns : ∀ known, page.cursor = some known → ∀ pair ∈ known,
      table.hasColumn pair.1 = true := fun known hknown pair hpair => (hcursor known hknown pair hpair).2
  have htuples := @joinedTuples_over db engine table args (engine.paging args) layout planner
  have hnodup : layout.fansOut = false →
      ((engine.joinedTuples db table args (engine.paging args) layout planner).map
        layout.groupKey).Nodup := by
    intro hfans
    have hall : ((planner.tuples db table.name).map layout.groupKey).Nodup := by
      refine hbegins.groupKeys_nodup hapart ?_ (hsingle hfans)
      intro row _ tuple htuple
      obtain ⟨more, hmore, -⟩ := extension_begins htuple
      exact ⟨more, hmore⟩
    refine ((inOrder_perm _ _).map _).nodup_iff.mpr ?_
    exact hall.sublist (List.filter_sublist.map _)
  have hwindow : (engine.joinedStatement table page (engine.paging page) layout planner).window =
      if layout.fansOut then none else some ⟨some size, none⟩ := by
    rw [joinedStatement_frame, h.paging_page]
    cases layout.fansOut <;> simp [Engine.baseStatement]
  rw [h.whole.foldedRecords h.unbounded]
  unfold Engine.foldedRecords
  rw [h.joinedTuples_page hwithin hordered, hwindow]
  generalize engine.joinedTuples db table args (engine.paging args) layout planner = tuples
    at hnodup htuples ⊢
  have hfilter : layout.assemble ((tuples.filter
        (db.passes (page.cursor.bind (table.cursorPredicate? · false)))).map layout.yield) =
      (layout.assemble (tuples.map layout.yield)).filter
        fun record => precededBy page.cursor record.scalar := by
    refine hbegins.assemble_filter hapart htuples
      (fun row _ more => passes_precededBy hcolumns row more) ?_
    intro row _ record hrecord
    exact precededBy_congr fun known hknown pair hpair =>
      hrecord pair.1 (hcursor known hknown pair hpair).1
  rw [h.paging_page]
  dsimp only
  cases hfans : layout.fansOut with
  | true =>
      rw [if_pos rfl, if_pos rfl]
      exact congrArg (List.take size) hfilter
  | false =>
      rw [if_neg Bool.false_ne_true, if_neg Bool.false_ne_true]
      refine (hbegins.assemble_take ?_ size).trans (congrArg (List.take size) hfilter)
      exact (hnodup hfans).sublist (List.filter_sublist.map _)

end Folded

/-! ### The base statement -/

section Shown

variable (hkeys : PutInOrder keys table.name (db.rows table.name))

include hkeys

/-- The rows of the whole are in the order of the keys. -/
theorem shownRows_pairwise : (engine.shownRows db table args (engine.paging args)).Pairwise
    fun one other => valueOrder keys one.value other.value = .lt := by
  unfold Engine.shownRows
  rw [h.paging_whole]
  simp only [Engine.baseStatement]
  rw [h.order]
  exact hkeys.selected_pairwise _

/-- The rows of a page are those of the whole that come after its cursor, as many as it holds. -/
theorem shownRows_page (hcursor : ∀ known, page.cursor = some known → ∀ pair ∈ known,
      table.hasColumn pair.1 = true) :
    engine.shownRows db table page (engine.paging page) =
      ((engine.shownRows db table args (engine.paging args)).filter
        fun row => precededBy page.cursor row.value).take size := by
  obtain ⟨-, -, -, -, hfilter, -⟩ := h.same
  have hpasses : ∀ row ∈ db.rows table.name,
      db.passes (engine.baseStatement table page (engine.paging page) [] true).filter
          [(table.name, some row)] =
        (db.passes (engine.baseStatement table args (engine.paging args) [] true).filter
          [(table.name, some row)] && precededBy page.cursor row.value) := by
    intro row _
    have htrue : db.passes none [(table.name, some row)] = true := rfl
    rw [passes_baseStatement List.mem_cons_self (noTables_within _) (List.Subset.refl _),
      passes_baseStatement List.mem_cons_self (noTables_within _) (List.Subset.refl _), hfilter,
      h.paging_page, passes_precededBy hcursor row, h.whole.cursor, Option.bind_none, htrue,
      Bool.and_true]
  have hwhole : (engine.baseStatement table args (engine.paging args) [] true).window = none ∧
      (engine.baseStatement table args (engine.paging args) [] true).orderBy = orderClause keys := by
    rw [h.paging_whole]
    simp only [Engine.baseStatement]
    rw [h.order]
    exact ⟨rfl, rfl⟩
  have hpage : (engine.baseStatement table page (engine.paging page) [] true).window =
        some ⟨some size, none⟩ ∧
      (engine.baseStatement table page (engine.paging page) [] true).orderBy = orderClause keys := by
    rw [h.paging_page]
    simp only [Engine.baseStatement]
    rw [h.pageOrder]
    exact ⟨rfl, rfl⟩
  unfold Engine.shownRows
  dsimp only
  rw [hwhole.1, hwhole.2, hpage.1, hpage.2, selected_filter ?_ hpasses]
  · rfl
  · intro known hknown
    rw [orderClause_some hknown]
    exact hkeys.ordered

end Shown

end Pages

/-! ### Records found -/

/-- What is found forwards is not turned around. -/
theorem gives_forwards {load : Load (List Record)} {found : List Record → Prop}
    (h : load.Gives db.run found) {backwards : Bool} (hbackwards : backwards = false) :
    (do let records ← load; return if backwards then records.reverse else records : Load _).Gives
      db.run found := by
  subst hbackwards
  exact gives_turned h

/-- The whole finds records of rows of a table in strict order of the keys, and the page those of
them that come after its cursor, as many as it holds. -/
def Splits (db : Database) (table : String) (fields : List String) (keys : List SortKey)
    (cursor : Option Cursor) (size : Nat) (whole part : Load (List Record)) : Prop :=
  ∃ records : List Record,
    (∀ record ∈ records, ∃ row ∈ db.rows table,
      ∀ field ∈ fields, record.scalar field = row.value field) ∧
    records.Pairwise (fun before after => valueOrder keys before.scalar after.scalar = .lt) ∧
    whole.Gives db.run (· = records) ∧
    part.Gives db.run
      (· = (records.filter fun record => precededBy cursor record.scalar).take size)

section Splits

variable {table : String} {fields : List String} {keys : List SortKey} {cursor : Option Cursor}
  {size : Nat} {whole part : Load (List Record)}

/-- A run of pages that goes forwards is split as it is found. -/
theorem Splits.forwards (h : Splits db table fields keys cursor size whole part)
    {first second : Bool} (hfirst : first = false) (hsecond : second = false) :
    Splits db table fields keys cursor size
      (do let records ← whole; return if first then records.reverse else records)
      (do let records ← part; return if second then records.reverse else records) := by
  obtain ⟨records, hrows, hordered, hwhole, hpart⟩ := h
  exact ⟨records, hrows, hordered, gives_forwards hwhole hfirst, gives_forwards hpart hsecond⟩

/-- Items that are finished into records with the same values split as their records do. -/
theorem Splits.of_items {α : Type} (items : List α) (value : α → String → Value)
    (finish : α → Record)
    (hvalue : ∀ item, ∀ field ∈ fields, (finish item).scalar field = value item field)
    (hkeys : ∀ key ∈ keys, key.column.name ∈ fields)
    (hcursor : ∀ known, cursor = some known → ∀ pair ∈ known, pair.1 ∈ fields)
    (hrows : ∀ item ∈ items, ∃ row ∈ db.rows table,
      ∀ field ∈ fields, value item field = row.value field)
    (hordered : items.Pairwise fun one other => valueOrder keys (value one) (value other) = .lt)
    (hwhole : whole.Gives db.run (· = items.map finish))
    (hpart : part.Gives db.run
      (· = ((items.filter fun item => precededBy cursor (value item)).take size).map finish)) :
    Splits db table fields keys cursor size whole part := by
  refine ⟨items.map finish, ?_, List.pairwise_map.mpr (hordered.imp ?_), hwhole, ?_⟩
  · intro record hrecord
    obtain ⟨item, hitem, rfl⟩ := List.mem_map.mp hrecord
    obtain ⟨row, hrow, hshows⟩ := hrows item hitem
    exact ⟨row, hrow, fun field hfield => (hvalue item field hfield).trans (hshows field hfield)⟩
  · intro one other horder
    rw [← horder]
    exact valueOrder_congr (fun key hkey => hvalue one _ (hkeys key hkey))
      fun key hkey => hvalue other _ (hkeys key hkey)
  · have hkept : (items.filter fun item => precededBy cursor (value item)) =
        items.filter fun item => precededBy cursor (finish item).scalar := by
      refine List.filter_congr fun item _ => precededBy_congr ?_
      exact fun known hknown pair hpair => (hvalue item _ (hcursor known hknown pair hpair)).symm
    rw [hkept, List.map_take] at hpart
    rwa [List.filter_map]

/-- On a database the results are such records. -/
theorem Splits.results (h : Splits db table fields keys cursor size whole part)
    (hwhole : whole.Asks SelectOf.WellScoped) (hpart : part.Asks SelectOf.WellScoped) :
    ∃ records : List Record,
      (∀ record ∈ records, ∃ row ∈ db.rows table,
        ∀ field ∈ fields, record.scalar field = row.value field) ∧
      records.Pairwise (fun before after => valueOrder keys before.scalar after.scalar = .lt) ∧
      (whole.hold Database.source db).result = .ok records ∧
      (part.hold Database.source db).result =
        .ok ((records.filter fun record => precededBy cursor record.scalar).take size) := by
  obtain ⟨records, hrows, hordered, hall, hsome⟩ := h
  obtain ⟨found, hfound⟩ := (hwhole.hold_ok fun statement hscoped => hscoped.run_ok db).1
  obtain ⟨others, hothers⟩ := (hpart.hold_ok fun statement hscoped => hscoped.run_ok db).1
  refine ⟨records, hrows, hordered, ?_, ?_⟩
  · rw [hfound, hall found ((Load.hold_result _ db).symm.trans hfound)]
  · rw [hothers, hsome others ((Load.hold_result _ db).symm.trans hothers)]

end Splits

/-- What a request joins allows to find a page in the whole: all joins are left joins, related rows
are sorted by comparable values, and a relation to one record joins at most one row. -/
structure LeftJoined (engine : Engine) (db : Database) (table : Table) (args : FindArgs) :
    Prop where
  left : (engine.schema.shape table.name args.selected args.included args.omitted).Throughout
    engine.schema (fun _ branch _ => branch.joinKind = .left) table.name
  sorts : (engine.schema.shape table.name args.selected args.included args.omitted).Throughout
    engine.schema (SortsByOrdered engine.schema db) table.name
  once : matchesOnce db
    ((engine.schema.shape table.name args.selected args.included args.omitted).layout engine.schema
      table.name []).2.joins ((db.rows table.name).map fun row => [(table.name, some row)])

/-- Nothing is compared where nothing is sorted. -/
theorem sortsByOrdered_of_unsorted {shape : Shape} {table : String}
    (h : shape.Throughout schema (fun _ branch _ => branch.orderBy.isNone = true) table) :
    shape.Throughout schema (SortsByOrdered schema db) table := by
  refine h.mono fun table branch relation hnone request hrequest => ?_
  rw [hrequest] at hnone
  cases hnone

/-- Where a branch sorts by comparable values, so it does when it is loaded on its own. -/
theorem SortsByOrdered.alone (hschema : schema.Consistent) {table : String} {branch : Branch}
    {relation : Relation} (h : SortsByOrdered schema db table branch relation) :
    SortsAlone schema db table branch relation := by
  intro target htarget key hkey
  have hname : target.name = relation.target := hschema.table_name htarget
  rw [hname] at hkey ⊢
  rcases mem_sortKeys hkey h (fun name under hunder => nomatch hunder) with hown | hjoined
  · exact hown.2
  · obtain ⟨name, under, hunder, -⟩ := hjoined
    cases hunder

namespace Pages

variable {table : Table} {keys : List SortKey} {args page : FindArgs} {size : Nat}
  (h : Pages engine table keys args page size) (hschema : engine.schema.Consistent)
  (hdb : db.Valid) (hknown : engine.schema.table? table.name = some table)
  (hjoined : LeftJoined engine db table args)
  (hkeys : PutInOrder keys table.name (db.rows table.name))

include h hschema hdb hknown hjoined hkeys

/-- By a joined statement a page is found in the whole. -/
theorem findJoined_splits
    (hapart : ApartBy (engine.schema.usableKey table.name) (db.rows table.name)) :
    let shape := engine.schema.shape table.name args.selected args.included args.omitted
    let plan := shape.layout engine.schema table.name []
    (∀ key ∈ keys, key.column.name ∈ shape.fields) →
    (∀ known, page.cursor = some known → ∀ pair ∈ known, pair.1 ∈ shape.fields) →
    Splits db table.name shape.fields keys page.cursor size
      (engine.findJoined table args (engine.paging args) plan.1 plan.2)
      (engine.findJoined table page (engine.paging page) plan.1 plan.2) := by
  intro shape plan hshown hcursor
  have hproper : shape.Proper engine.schema table.name :=
    engine.schema.shape_proper table.name args.selected args.included args.omitted
  have hbegins : plan.1.Begins engine.schema table.name := Shape.layout_begins hschema hproper []
  have hplanned : shape.Planned engine.schema table.name plan.1 :=
    Shape.layout_planned hschema hproper []
  obtain ⟨hlinked, hwithin⟩ : plan.2.Linked table.name ∧
      plan.1.Within (plan.2.scope table.name) := Shape.layout_within shape table.name []
  obtain ⟨hjoins, hlabels⟩ : plan.2.joins = plan.1.joins engine.schema ∧
      (plan.2.joins.map (·.label)).Nodup := Shape.layout_joins shape table.name []
  have hmem := hplanned.mem_joins hjoined.left
  rw [← hjoins] at hmem
  have hrowwise : ∀ join ∈ plan.2.joins, Rowwise join.clause := by
    intro join hjoin
    obtain ⟨⟨owner, branch, hleft, hkind⟩, -⟩ := hmem join hjoin
    exact Or.inl (hkind.trans hleft)
  have hsorts : shape.Throughout engine.schema (SortsAlone engine.schema db) table.name :=
    hjoined.sorts.mono fun _ _ _ hsorts => hsorts.alone hschema
  have hordered : OrdersOn (tupleOrder (keys ++ (plan.1.clauses engine.schema 0).1.keys))
      (· ∈ plan.2.tuples db table.name) := by
    refine tupleOrder_orders hlabels hkeys ?_
    rw [hjoins]
    exact hplanned.clause_keys hjoined.sorts 0
  have hsingle : plan.1.fansOut = false → ∀ row ∈ db.rows table.name,
      (extensions db (plan.2.joins.map PlannedJoin.clause) [(table.name, some row)]).length ≤ 1 :=
    fun hfans row hrow => extensions_single hjoined.once
      (fun join hjoin => (hmem join hjoin).2 hfans) _ (List.mem_map_of_mem hrow)
  have hfields : plan.1.fields = shape.fields := hplanned.fields_eq
  have hkey : ApartBy plan.1.key (db.rows table.name) := by
    rwa [hbegins.key_eq]
  have hcolumns : ∀ known, page.cursor = some known → ∀ pair ∈ known,
      pair.1 ∈ plan.1.fields ∧ table.hasColumn pair.1 = true := by
    intro known hpage pair hpair
    have hfield := hcursor known hpage pair hpair
    refine ⟨hfields ▸ hfield, ?_⟩
    have hcolumn := (Shape.proper_iff.mp hproper).1 pair.1 hfield
    rwa [Schema.hasColumn, hknown] at hcolumn
  refine Splits.of_items (engine.foldedRecords db table args (engine.paging args) plan.1 plan.2)
    Record.scalar (fun record => plan.1.strip (plan.1.loaded engine.schema db record))
    (fun record field hfield => scalar_strip_loaded hplanned hproper record hfield) hshown hcursor
    ?_ (h.foldedRecords_pairwise hordered hbegins hkey hkeys fun key hmemKey => ?_) ?_ ?_
  · intro record hrecord
    rw [h.whole.foldedRecords h.unbounded] at hrecord
    rw [← hfields]
    exact hbegins.row_of_record hkey
      (joinedTuples_over table args (engine.paging args) plan.1 plan.2) hrecord
  · rw [hfields]
    exact hshown key hmemKey
  · exact findJoined_loaded hschema hdb hproper hsorts (engine.paging args) rfl hrowwise hkey
      h.whole.distinct
  · rw [← h.foldedRecords_page hordered hbegins hkey hwithin hsingle hcolumns]
    obtain ⟨-, -, -, -, -, hdistinct⟩ := h.same
    exact findJoined_loaded hschema hdb hproper hsorts (engine.paging page) rfl hrowwise hkey hdistinct

/-- So it is by separate statements. -/
theorem findSeparately_splits :
    let shape := engine.schema.shape table.name args.selected args.included args.omitted
    (∀ key ∈ keys, key.column.name ∈ shape.fields) →
    (∀ known, page.cursor = some known → ∀ pair ∈ known, pair.1 ∈ shape.fields) →
    Splits db table.name shape.fields keys page.cursor size
      (engine.findSeparately table args (engine.paging args) shape)
      (engine.findSeparately table page (engine.paging page) shape) := by
  intro shape hshown hcursor
  have hproper : shape.Proper engine.schema table.name :=
    engine.schema.shape_proper table.name args.selected args.included args.omitted
  have hsorts : shape.Throughout engine.schema (SortsAlone engine.schema db) table.name :=
    hjoined.sorts.mono fun _ _ _ hsorts => hsorts.alone hschema
  have hcolumns : ∀ known, page.cursor = some known → ∀ pair ∈ known,
      table.hasColumn pair.1 = true := by
    intro known hpage pair hpair
    have hcolumn := (Shape.proper_iff.mp hproper).1 pair.1 (hcursor known hpage pair hpair)
    rwa [Schema.hasColumn, hknown] at hcolumn
  obtain ⟨-, -, -, -, -, hdistinct⟩ := h.same
  refine Splits.of_items (engine.shownRows db table args (engine.paging args)) Row.value
    (fun row => (loadedBranches engine.schema db shape.relations table.name
      (row.only (withHidden shape.fields (table.linkColumns (shape.relations.map (·.1))))).toRecord).shown
        shape.fields (shape.relations.map (·.1)))
    (fun row field hfield => scalar_shown_loaded hproper row _ hfield) hshown hcursor
    (fun row hrow => ⟨row, shownRows_subset hrow, fun _ _ => rfl⟩) (h.shownRows_pairwise hkeys) ?_ ?_
  · exact findSeparately_loaded hschema hdb hproper hsorts hknown (engine.paging args) h.whole.distinct
  · rw [← h.shownRows_page hkeys hcolumns]
    exact findSeparately_loaded hschema hdb hproper hsorts hknown (engine.paging page) hdistinct

/-- A page that a request finds lies in the whole. -/
theorem findMany_splits :
    let shape := engine.schema.shape table.name args.selected args.included args.omitted
    let plan := shape.layout engine.schema table.name []
    (plan.2.joins ≠ [] → ApartBy (engine.schema.usableKey table.name) (db.rows table.name)) →
    (∀ key ∈ keys, key.column.name ∈ shape.fields) →
    (∀ known, page.cursor = some known → ∀ pair ∈ known, pair.1 ∈ shape.fields) →
    Splits db table.name shape.fields keys page.cursor size (engine.findMany table.name args)
      (engine.findMany table.name page) := by
  intro shape plan hapart hshown hcursor
  obtain ⟨hselected, hincluded, homitted, hstrategy, -, hdistinct⟩ := h.same
  unfold Engine.findMany
  rw [hknown]
  dsimp only
  have hforwards : (engine.paging args).backwards = false ∧ (engine.paging page).backwards = false := by
    rw [h.paging_whole, h.paging_page]
    exact ⟨rfl, rfl⟩
  have hcolumns : table.distinctColumns none = [] := rfl
  rw [hselected, hincluded, homitted, hstrategy, hdistinct, h.whole.distinct, hcolumns]
  split
  · next hjoin =>
      have hjoins : plan.2.joins ≠ [] := by
        intro hnone
        have hempty : (!plan.2.joins.isEmpty) = true := hjoin.2
        rw [hnone] at hempty
        cases hempty
      exact (h.findJoined_splits hschema hdb hknown hjoined hkeys (hapart hjoins) hshown
        hcursor).forwards hforwards.1 hforwards.2
  · exact (h.findSeparately_splits hschema hdb hknown hjoined hkeys hshown
      hcursor).forwards hforwards.1 hforwards.2

/-- On a database the whole is records in the order of the keys, and a page those of them that come
after its cursor, as many as it holds. -/
theorem findMany_page :
    let shape := engine.schema.shape table.name args.selected args.included args.omitted
    let plan := shape.layout engine.schema table.name []
    let find := fun args => ((engine.findMany table.name args).hold Database.source db).result
    (plan.2.joins ≠ [] → ApartBy (engine.schema.usableKey table.name) (db.rows table.name)) →
    (∀ key ∈ keys, key.column.name ∈ shape.fields) →
    (∀ known, page.cursor = some known → ∀ pair ∈ known, pair.1 ∈ shape.fields) →
    ∃ records : List Record,
      (∀ record ∈ records, ∃ row ∈ db.rows table.name,
        ∀ field ∈ shape.fields, record.scalar field = row.value field) ∧
      records.Pairwise (fun before after => valueOrder keys before.scalar after.scalar = .lt) ∧
      find args = .ok records ∧
      find page =
        .ok ((records.filter fun record => precededBy page.cursor record.scalar).take size) := by
  intro shape plan find hapart hshown hcursor
  exact (h.findMany_splits hschema hdb hknown hjoined hkeys hapart hshown hcursor).results
    (findMany_asks hschema hknown args) (findMany_asks hschema hknown page)

end Pages

end NestedQuery
