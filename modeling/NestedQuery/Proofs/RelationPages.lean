import NestedQuery.Proofs.DistinctRelations
import NestedQuery.Proofs.RecordBlocks

/-!
# Pages of an included relation

The order and the page of a relation are applied in different places: a joined
statement sorts all pairs of a base row and a related row, by the keys of the base
table first, and each list is read off the order of the pairs; a follow-up
statement sorts the target alone, and each list is what is left of it for one
owner.  As sorting is stable and the keys order the values, both are the related
rows of the one owner, sorted and then cut.
-/

namespace NestedQuery

variable {schema : Schema} {db : Database}

/-! ### One joined relation -/

/-- The layout joins one relation to its table, and nothing beneath that one. -/
structure Layout.JoinsOnly (layout : Layout) (joined : JoinedBranch) : Prop where
  relations : layout.relations = [joined]
  deferred : layout.deferred = []
  beneath : joined.layout.relations = []
  after : joined.layout.deferred = []

/-- The only relation of a shape is joined if it can be. -/
theorem Shape.Planned.joins_only {shape : Shape} {table : String} {layout : Layout}
    (h : shape.Planned schema table layout) {name : String} {branch : Branch}
    (hshape : shape.relations = [(name, branch)]) (hflat : branch.shape.relations = [])
    {relation : Relation} (hjoinable : Planner.joinable? schema table name = some relation) :
    ∃ leaf, layout.JoinsOnly ⟨name, relation.kind.isToMany, branch, leaf⟩ ∧
      branch.shape.Planned schema relation.target leaf ∧ leaf.isBase = false := by
  cases h with
  | @intro fields excluded relations _ _ _ _ _ _ _ _ hrelations =>
      cases hshape
      generalize hjoined : layout.relations = joined at hrelations
      generalize hdeferred : layout.deferred = deferred at hrelations
      cases hrelations with
      | deferred hnone _ _ => cases hjoinable.symm.trans hnone
      | @joined _ _ _ _ _ leaf _ _ hfound hleaf hlead hrest =>
          cases hjoinable.symm.trans hfound
          cases hrest
          refine ⟨leaf, ⟨hjoined, hdeferred, ?_, ?_⟩, hleaf, by simpa [Layout.isBase] using hlead⟩
          all_goals
            obtain ⟨⟨_, _, _⟩, _, _, _, _, _, _⟩ := branch
            cases hflat
            cases hleaf with
            | intro _ _ _ _ _ _ hbeneath =>
                generalize leaf.relations = beneath at hbeneath ⊢
                generalize leaf.deferred = after at hbeneath ⊢
                cases hbeneath
                rfl

section JoinsOnly

variable {layout : Layout} {joined : JoinedBranch} (h : layout.JoinsOnly joined)

include h

theorem Layout.JoinsOnly.joins {relation : Relation}
    (hrelation : schema.relation? layout.table joined.name = some relation) :
    layout.joins schema = [⟨relation, joined.name, layout.qualifier, joined.layout.qualifier,
      joined.branch.joinKind⟩] := by
  obtain ⟨hrelations, -, hbeneath, -⟩ := h
  obtain ⟨_, _, _, _, _, _, _, _, _, _⟩ := layout
  obtain ⟨name, isToMany, branch, ⟨_, _, _, _, _, _, _, _, _, _⟩⟩ := joined
  cases hrelations
  cases hbeneath
  rw [Layout.joins, branchJoins_cons hrelation, Layout.joins, branchJoins, branchJoins]
  rfl

/-- A relation without a filter brings only its ordering along. -/
theorem Layout.JoinsOnly.clauses (hfilter : joined.branch.filter = none) (n : Nat) :
    (layout.clauses schema n).1 = ⟨[], schema.sortKeys joined.layout.table joined.layout.qualifier
      joined.branch.orderBy []⟩ := by
  obtain ⟨hrelations, -, hbeneath, -⟩ := h
  obtain ⟨_, _, _, _, _, _, _, _, _, _⟩ := layout
  obtain ⟨name, isToMany, branch, ⟨_, _, _, _, _, _, _, _, _, _⟩⟩ := joined
  cases hrelations
  cases hbeneath
  dsimp only at hfilter
  simp [Layout.clauses, branchClauses, hfilter, Schema.predicate?, Layout.joinedTables, branchTables,
    BranchClauses.append]

/-- There is nothing to load, and stripping drops what records do not show. -/
theorem Layout.JoinsOnly.strip_loaded (record : Record) :
    layout.strip (layout.loaded schema db record) =
      Dict.adjust joined.name (Node.mapRecords fun child => child.shown joined.layout.fields [])
        (record.shown layout.fields [joined.name]) := by
  obtain ⟨hrelations, hdeferred, hbeneath, hafter⟩ := h
  obtain ⟨_, _, _, _, _, _, _, _, _, _⟩ := layout
  obtain ⟨name, isToMany, branch, ⟨_, _, _, _, _, _, _, _, _, _⟩⟩ := joined
  cases hrelations
  cases hdeferred
  cases hbeneath
  cases hafter
  have hsame : ∀ node : Node, node.mapRecords (fun child => child) = node := by
    rintro (_ | _ | _) <;> simp [Node.mapRecords]
  simp [Layout.loaded, loadedBranches, loadedBeneath, Layout.strip, stripBranches, hsame, Dict.adjust]

end JoinsOnly

/-! ### Sort keys under another name -/

/-- A sort key by the column of that name under another qualifier. -/
def SortKey.under (qualifier : String) (key : SortKey) : SortKey :=
  { key with column := ⟨qualifier, key.column.name⟩ }

theorem keySortKeys_under (known : Table) (qualifier other key : String) (spec : SortSpec) :
    schema.keySortKeys known qualifier [] key spec =
      (schema.keySortKeys known other [] key spec).map (·.under qualifier) := by
  unfold Schema.keySortKeys
  split
  · cases spec <;> rfl
  · rfl

/-- Where nothing is joined an ordering has the same sort keys under every name of the table. -/
theorem sortKeys_under (table qualifier other : String) (order : Option SortRequest) :
    schema.sortKeys table qualifier order [] =
      (schema.sortKeys table other order []).map (·.under qualifier) := by
  unfold Schema.sortKeys
  split
  · simp only [List.map_flatMap, ← keySortKeys_under]
  · rfl

/-- Keys order values under any qualifier. -/
theorem valueOrder_under (qualifier : String) (keys : List SortKey) (one other : String → Value) :
    valueOrder (keys.map (·.under qualifier)) one other = valueOrder keys one other := by
  unfold valueOrder
  induction keys with
  | nil => rfl
  | cons key rest ih =>
      simp only [List.map_cons, sortOrder, ih]
      rfl

theorem rowsInOrder_under (qualifier : String) (keys : List SortKey) (rows : List Row) :
    rowsInOrder (keys.map (·.under qualifier)) rows = rowsInOrder keys rows := by
  simp only [rowsInOrder, valueOrder_under]

/-! ### Blocks of one relation -/

theorem Relation.linked_sublist {relation : Relation} (hdirect : relation.junction = none)
    (row : Row) : (relation.linked db row).Sublist (db.rows relation.target) := by
  rw [Relation.linked, hdirect]
  exact List.filter_sublist

/-- A base row beside a related row, or beside none. -/
def Row.beside (row : Row) (table label : String) (found : Option Row) : Bindings :=
  [(table, some row), (label, found)]

theorem Row.rowOf_beside (row : Row) {table label : String} (hlabel : label ≠ table)
    (found : Option Row) : (row.beside table label found).rowOf label = found.getD [] := by
  simp [Row.beside, Bindings.rowOf, Dict.lookup_cons, hlabel]

/-- The joined rows of a base row with one relation, sorted by keys of the base table and then by
keys of the relation, are those of the sorted related rows. -/
theorem inOrder_beside {table label : String} {own keys : List SortKey}
    (hown : ∀ key ∈ own, key.column.qualifier = table)
    (hkeys : ∀ key ∈ keys, key.column.qualifier = label) (hlabel : label ≠ table) (row : Row)
    (rows : List Row) :
    inOrder (orderClause (own ++ keys)) ((orNone rows).map (row.beside table label)) =
      (orNone (rowsInOrder keys rows)).map (row.beside table label) := by
  have horder : ∀ one other : Row,
      tupleOrder (own ++ keys) (row.beside table label (some one))
        (row.beside table label (some other)) = valueOrder keys one.value other.value := by
    intro one other
    rw [tupleOrder_append, tupleOrder_rowOf hkeys, row.rowOf_beside hlabel, row.rowOf_beside hlabel,
      Row.beside, Row.beside, tupleOrder_base hown, valueOrder_self]
    rfl
  by_cases hnone : rows = []
  · subst hnone
    unfold rowsInOrder
    rw [stableSort_nil]
    unfold inOrder
    split <;> simp [orNone]
  · have hsorted : rowsInOrder keys rows ≠ [] := by
      rw [Ne, ← List.length_eq_zero_iff, (rowsInOrder_perm keys rows).length_eq]
      simpa using hnone
    rw [orNone_of_ne_nil hnone, orNone_of_ne_nil hsorted, List.map_map, List.map_map]
    unfold orderClause
    split
    · next hempty =>
        rw [List.isEmpty_iff, List.append_eq_nil_iff] at hempty
        rw [hempty.2, rowsInOrder_nil]
        rfl
    · refine (map_stableSort fun one _ other _ => ?_).symm
      rw [Function.comp_apply, Function.comp_apply, horder]

/-- With one left join the joined rows of a base row pair it with its related rows. -/
theorem Planner.block_one {planner : Planner} {join : PlannedJoin} (hjoins : planner.joins = [join])
    (hkind : join.kind = .left) (hdirect : join.relation.junction = none) {table : String}
    (hsource : join.source = table) (hlabel : join.label ≠ table) (row : Row) :
    planner.block db table row =
      (orNone (join.relation.linked db row)).map (row.beside table join.label) := by
  have hbesides := @besides_linked db join hdirect [(table, some row)] (some row)
    (by simp [hsource]) (by simpa [Dict.names] using hlabel)
  simp only [List.append_nil] at hbesides
  rw [Planner.block, hjoins, List.map_singleton, extensions]
  simp only [PlannedJoin.clause, hkind]
  rw [hbesides, List.flatMap_map]
  exact List.map_eq_flatMap.symm

/-- Values are in order if among those that are not null they are. -/
theorem Value.Ordered.of_present {values others : List Value} (h : Value.Ordered others)
    (hmem : ∀ value ∈ values, value ≠ .null → value ∈ others) : Value.Ordered values :=
  fun a ha b hb c hc hna hnb hnc =>
    h a (hmem a ha hna) b (hmem b hb hnb) c (hmem c hc hnc) hna hnb hnc

/-- Keys with values in order, of the base table or of the relation, order the pairs. -/
theorem ordersOn_beside {table label : String} (hlabel : label ≠ table) {keys : List SortKey}
    {rows others : List Row} {related : Row → List Row} (hrelated : ∀ row ∈ rows, related row ⊆ others)
    (hkeys : ∀ key ∈ keys,
      key.column.qualifier = table ∧ Value.Ordered (rows.map (·.value key.column.name)) ∨
        key.column.qualifier = label ∧ Value.Ordered (others.map (·.value key.column.name))) :
    OrdersOn (tupleOrder keys)
      (· ∈ rows.flatMap fun row => (orNone (related row)).map (row.beside table label)) := by
  refine ordersOn_sortOrder keys (fun (tuple : Bindings) key => tuple.cell key.column)
    fun key hkey => ?_
  rcases hkeys key hkey with ⟨hown, hordered⟩ | ⟨hother, hordered⟩
  · refine hordered.of_present (List.forall_mem_map.mpr fun tuple htuple _ => ?_)
    obtain ⟨row, hrow, hmem⟩ := List.mem_flatMap.mp htuple
    obtain ⟨found, -, rfl⟩ := List.mem_map.mp hmem
    rw [show key.column = ⟨table, key.column.name⟩ by rw [← hown], Row.beside,
      Bindings.cell_cons_self]
    exact List.mem_map_of_mem hrow
  · refine hordered.of_present (List.forall_mem_map.mpr fun tuple htuple hnull => ?_)
    obtain ⟨row, hrow, hmem⟩ := List.mem_flatMap.mp htuple
    obtain ⟨found, hfound, rfl⟩ := List.mem_map.mp hmem
    rw [show key.column = ⟨label, key.column.name⟩ by rw [← hother], Bindings.cell_eq,
      row.rowOf_beside hlabel] at hnull ⊢
    rcases mem_orNone hfound with ⟨rfl, -⟩ | ⟨other, hother, rfl⟩
    · exact absurd rfl hnull
    · exact List.mem_map_of_mem (hrelated row hrow hother)

section Folded

variable {layout : Layout} {joined : JoinedBranch} (h : layout.JoinsOnly joined)
  (hshows : layout.Shows joined.layout) {table : String} (hlabel : joined.layout.qualifier ≠ table)
  (hbase : joined.layout.isBase = false)

include h hshows hlabel hbase

/-- Related rows that are told apart make a record each, and no row makes none. -/
theorem Layout.JoinsOnly.assemble_beside (row : Row) {rows : List Row}
    (hapart : ApartBy joined.layout.key rows) :
    joined.layout.assemble (((orNone rows).map (row.beside table joined.layout.qualifier)).map
        layout.yield) = rows.map (·.recordOf joined.layout.columns) := by
  have hrow := fun found => row.rowOf_beside hlabel found
  rw [hshows.assemble_yield]
  by_cases hnone : rows = []
  · have habsent : joined.layout.isPresent [] = false := by
      rw [Layout.isPresent, hbase, Bool.false_or, List.any_eq_false]
      exact fun column _ => by simp [Row.value, Value.isNull]
    subst hnone
    simp [orNone, hrow, habsent, groupsOf, firstOfEach]
  · let tuples := rows.map fun other => row.beside table joined.layout.qualifier (some other)
    have hpresent : (tuples.filter fun tuple =>
        joined.layout.isPresent (tuple.rowOf joined.layout.qualifier)) = tuples := by
      refine List.filter_eq_self.mpr (List.forall_mem_map.mpr fun other hother => ?_)
      rw [hrow]
      exact hapart.isPresent hother
    have hkeys : (tuples.map fun tuple =>
        joined.layout.rowKey (tuple.rowOf joined.layout.qualifier)).Nodup := by
      have hmap : (tuples.map fun tuple =>
          joined.layout.rowKey (tuple.rowOf joined.layout.qualifier)) =
            rows.map joined.layout.rowKey := by
        rw [List.map_map]
        exact List.map_congr_left fun other _ => by rw [Function.comp_apply, hrow, Option.getD_some]
      exact hmap ▸ hapart.rowKeys_nodup
    rw [orNone_of_ne_nil hnone, List.map_map]
    change List.map _ (groupsOf _ (tuples.filter _)) = _
    rw [hpresent, groupsOf_nodup hkeys, List.map_map, List.map_map]
    refine List.map_congr_left fun other _ => ?_
    have hcolumns := hshows.columnValues_yield
      (row.beside table joined.layout.qualifier (some other)) []
    rw [hrow] at hcolumns
    simp only [Function.comp_apply, Layout.fold, h.beneath, assembleBranches]
    exact hcolumns

/-- The record of a base row holds the page of the records of its related rows. -/
theorem Layout.JoinsOnly.fold_beside {schema : Schema} (hbegins : layout.Begins schema table)
    (row : Row) {rows : List Row} (hapart : ApartBy joined.layout.key rows) :
    layout.fold (((orNone rows).map (row.beside table joined.layout.qualifier)).map layout.yield) =
      Dict.put joined.name (.ofRelated joined.isToMany
        (joined.branch.page (rows.map (·.recordOf joined.layout.columns))))
          (row.recordOf layout.columns) := by
  have hassemble := h.assemble_beside hshows hlabel hbase row hapart
  obtain ⟨name, isToMany, branch, leaf⟩ := joined
  rw [Layout.fold, h.relations, assembleBranches, assembleBranches, hassemble]
  obtain ⟨found, rest, hfound⟩ := List.exists_cons_of_ne_nil (orNone_ne_nil rows)
  rw [hfound, List.map_cons, hbegins.shows.columnValues_yield, hbegins.qualifier_eq, Row.beside,
    Bindings.rowOf_cons_self, Option.getD_some]
  rfl

end Folded

/-! ### Records with one relation -/

/-- The record of a row with the page of the records of its related rows, sorted by keys. -/
def BranchOf.owner (branch : Branch) (db : Database) (relation : Relation) (name : String)
    (fields : List String) (keys : List SortKey) (row : Row) : Record :=
  Dict.put name (.ofRelated relation.kind.isToMany (branch.page
    ((rowsInOrder keys (relation.linked db row)).map (·.recordOf branch.shape.fields))))
    (row.recordOf fields)

/-- Dropping hidden columns leaves an entry and the fields. -/
theorem Record.Mirrors.shown_put {record : Record} {row : Row} {columns fields : List String}
    (h : record.Mirrors row columns) (hfields : fields ⊆ columns) (name : String)
    (node : Node) : Record.shown (Dict.put name node record) fields [name] =
      Dict.put name node (row.recordOf fields) := by
  refine Dict.Sorted.ext ((h.sorted.put _ _).filter _) ((Dict.sorted_ofPairs _).put _ _)
    fun other => ?_
  rw [Record.lookup_shown, Dict.lookup_put, Dict.lookup_put]
  by_cases hother : other = name
  · simp [hother]
  · rw [if_neg hother, if_neg hother, Row.recordOf, Dict.lookup_ofPairs_map]
    by_cases hmem : other ∈ fields
    · rw [if_pos (by simp [hmem]), if_pos hmem]
      exact h.bound other (hfields hmem)
    · rw [if_neg (by simp [hmem, hother]), if_neg hmem]

section Records

variable {name : String} {relation : Relation} {branch : Branch} (hdistinct : branch.distinct = none)

include hdistinct

/-- Folded and stripped, the joined rows of a base row make the record. -/
theorem Layout.JoinsOnly.owner_eq {layout leaf : Layout}
    (h : layout.JoinsOnly ⟨name, relation.kind.isToMany, branch, leaf⟩)
    (hfields : layout.fields ⊆ layout.columns) (hleaf : leaf.fields ⊆ leaf.columns)
    (hshape : leaf.fields = branch.shape.fields)
    (keys : List SortKey) (row : Row) :
    layout.strip (layout.loaded schema db (Dict.put name (.ofRelated relation.kind.isToMany
      (branch.page ((rowsInOrder keys (relation.linked db row)).map (·.recordOf leaf.columns))))
        (row.recordOf layout.columns))) =
      branch.owner db relation name layout.fields keys row := by
  rw [h.strip_loaded, (row.recordOf_mirrors layout.columns).shown_put hfields]
  dsimp only
  rw [(row.recordOf_mirrors layout.fields).sorted.adjust_put, Node.mapRecords_ofRelated, ← page_map,
    List.map_map]
  · have hshown : ((fun child : Record => child.shown leaf.fields []) ∘ fun other : Row =>
        other.recordOf leaf.columns) = fun other => other.recordOf branch.shape.fields :=
      funext fun other => hshape ▸ other.recordOf_shown hleaf
    rw [hshown]
    rfl
  · rw [hdistinct]
    exact fun _ hmem => nomatch hmem

omit hdistinct

/-- The related records of an owner are those of its related rows, in the order of the keys. -/
theorem recordsFor_eq {target : Table} (htarget : schema.table? target.name = some target)
    (hname : target.name = relation.target) (hdirect : relation.junction = none)
    (hfilter : branch.filter = none) {table : String} (hkeyed : relation.Keyed db table)
    (hordered : ∀ key ∈ schema.sortKeys relation.target relation.target branch.orderBy [],
      Value.Ordered ((db.rows relation.target).map (·.value key.column.name)))
    {row : Row} (hrow : row ∈ db.rows table) :
    relation.recordsFor schema db branch (row.value relation.fromColumn) =
      (rowsInOrder (schema.sortKeys relation.target relation.target branch.orderBy [])
        (relation.linked db row)).map
          fun other => (other.only (target.branchColumns branch relation.toColumn)).toRecord := by
  have hcandidates : db.candidates schema target branch =
      rowsInOrder (schema.sortKeys relation.target relation.target branch.orderBy [])
        (db.rows relation.target) := by
    rw [Database.candidates, hfilter, hname]
    exact selected_all _ _
  have hsubset : db.candidates schema target branch ⊆ db.rows relation.target := by
    rw [← hname]
    exact candidates_subset
  have hreached := hkeyed.reached_direct hdirect hrow hsubset
  rw [Relation.recordsFor, ← hname, htarget]
  dsimp only
  rw [hreached, hcandidates, hname, ← rowsInOrder_filter hordered, Relation.linked, hdirect]

/-- Loaded and shown, the record of a base row holds the page of these records. -/
theorem owner_of_loaded {target : Table} (hflat : branch.shape.relations = []) {table : String}
    (hrelation : schema.relation? table name = some relation) {keys : List SortKey} {row : Row}
    (hrecords : relation.recordsFor schema db branch (row.value relation.fromColumn) =
      (rowsInOrder keys (relation.linked db row)).map
        fun other => (other.only (target.branchColumns branch relation.toColumn)).toRecord)
    {record : Record} {columns fields : List String} (hmirrors : record.Mirrors row columns)
    (hfields : fields ⊆ columns) (hfrom : relation.fromColumn ∈ columns) :
    (loadedBranches schema db [(name, branch)] table record).shown fields [name] =
      branch.owner db relation name fields keys row := by
  have hloaded : ∀ other : Row, branch.shape.loaded schema db relation.target
      (other.only (target.branchColumns branch relation.toColumn)).toRecord =
        other.recordOf branch.shape.fields := by
    intro other
    have hshown := ((other.toRecord_only_mirrors
      (target.branchColumns branch relation.toColumn)).subset fun field hfield =>
        mem_withHidden.mpr (Or.inl hfield)).shown
    generalize branch.shape = shape at hflat hshown
    obtain ⟨_, _, _⟩ := shape
    cases hflat
    exact hshown
  rw [loadedBranches_cons hrelation, loadedBranches_nil]
  dsimp only [id_eq]
  rw [hmirrors.scalar hfrom, hrecords, hmirrors.shown_put hfields, List.map_map, BranchOf.owner]
  simp only [Function.comp_def, hloaded]

end Records

/-! ### Requests -/

/-- What it takes for either strategy to page the one relation of a request alike: it is a direct
relation to many with nothing beneath it, by default a left join, neither filtered nor made
distinct; the clauses of the request leave it alone and bring no page along; rows are told apart by
primary keys, linked by values that are equal if their keys are, and sorted by columns with values of
one kind; and the table is not named like the join. -/
structure PagesOne (engine : Engine) (db : Database) (table : Table) (args : FindArgs)
    (name : String) (branch : Branch) (relation : Relation) : Prop where
  relations : (engine.shapeFor table args).relations = [(name, branch)]
  flat : branch.shape.relations = []
  known : table.relation? name = some relation
  many : relation.kind.isToMany = true
  direct : relation.junction = none
  left : branch.joinKind = .left
  unfiltered : branch.filter = none
  repeated : branch.distinct = none
  whole : args.Whole
  filter : ∀ filter, args.filter = some filter → filter.Avoids [name]
  orderBy : ∀ order, args.orderBy = some order → order.Avoids [name]
  apart : ApartBy (engine.schema.usableKey table.name) (db.rows table.name)
  related : ApartBy (engine.schema.usableKey relation.target) (db.rows relation.target)
  keyed : relation.Keyed db table.name
  sorted : ∀ key ∈ engine.baseOrder table args false [],
    Value.OneKind ((db.rows table.name).map (·.value key.column.name))
  relatedSorted : ∀ key ∈ engine.schema.sortKeys relation.target relation.target branch.orderBy [],
    Value.OneKind ((db.rows relation.target).map (·.value key.column.name))
  labels : ∀ join ∈ (engine.planFor table args).2.joins, join.label ≠ table.name

section Requests

variable {engine : Engine} {table : Table} {args : FindArgs} {name : String} {branch : Branch}
  {relation : Relation} (h : PagesOne engine db table args name branch relation)

include h

/-- They leave the strategy open. -/
theorem PagesOne.with_strategy (strategy : Option LoadStrategy) :
    PagesOne engine db table { args with strategy } name branch relation :=
  ⟨h.relations, h.flat, h.known, h.many, h.direct, h.left, h.unfiltered, h.repeated,
    ⟨h.whole.cursor, h.whole.take, h.whole.skip, h.whole.distinct⟩, h.filter, h.orderBy, h.apart,
    h.related, h.keyed, h.sorted, h.relatedSorted, h.labels⟩

theorem PagesOne.paging : engine.paging args = ⟨engine.settings.maxTake, none, false⟩ := by
  unfold Engine.paging Settings.pageSize
  rw [h.whole.take, h.whole.skip]
  cases engine.settings.maxTake <;> rfl

variable (hknown : engine.schema.table? table.name = some table)

include hknown

theorem PagesOne.known_relation : engine.schema.relation? table.name name = some relation := by
  rw [Schema.relation?, hknown]
  exact h.known

variable (hschema : engine.schema.Consistent)

include hschema

/-- The related rows are among the rows of a known table. -/
theorem PagesOne.target : ∃ target, engine.schema.table? target.name = some target ∧
    target.name = relation.target := by
  obtain ⟨target, htarget, -⟩ := (hschema.resolves hknown h.known).target
  have hname := hschema.table_name htarget
  exact ⟨target, hname ▸ htarget, hname⟩

theorem PagesOne.joinable :
    Planner.joinable? engine.schema table.name name = some relation := by
  obtain ⟨target, htarget, hname⟩ := h.target hknown hschema
  have hkind : relation.kind ≠ .manyToMany := by
    intro hkind
    have := (hschema.resolves hknown h.known).junction hkind
    rw [h.direct] at this
    cases this
  rw [Planner.joinable?, h.known_relation hknown]
  simp [hkind, ← hname, htarget]

/-- The keys of the relation order its rows. -/
theorem PagesOne.sorts : (engine.shapeFor table args).Throughout engine.schema
    (SortsAlone engine.schema db) table.name := by
  have hbranch : branchesThroughout engine.schema (SortsAlone engine.schema db) [(name, branch)]
      table.name := by
    refine branchesThroughout_iff.mpr (List.forall_mem_singleton.mpr fun known hfound => ?_)
    rw [h.known_relation hknown, Option.some_inj] at hfound
    subst hfound
    refine ⟨fun target htarget key hkey => ?_, ?_⟩
    · have hname := hschema.table_name htarget
      rw [hname] at hkey ⊢
      exact (h.relatedSorted key hkey).ordered
    · have hflat := h.flat
      generalize branch.shape = shape at hflat
      obtain ⟨_, _, _⟩ := shape
      cases hflat
      rw [Shape.Throughout, branchesThroughout]
      trivial
  have hrelations := h.relations
  generalize engine.shapeFor table args = shape at hrelations
  obtain ⟨_, _, _⟩ := shape
  cases hrelations
  rw [Shape.Throughout]
  exact hbranch

/-- The plan of such a request joins the relation to its table, and nothing else. -/
theorem PagesOne.exists_leaf {layout : Layout} {planner : Planner}
    (hplanned : (engine.shapeFor table args).PlannedAs engine.schema table.name layout planner)
    (hlabels : ∀ join ∈ planner.joins, join.label ≠ table.name) :
    ∃ leaf, layout.JoinsOnly ⟨name, relation.kind.isToMany, branch, leaf⟩ ∧
      branch.shape.Planned engine.schema relation.target leaf ∧ leaf.isBase = false ∧
      leaf.qualifier ≠ table.name ∧ layout.fansOut = true ∧
      planner.joins = [⟨relation, name, table.name, leaf.qualifier, branch.joinKind⟩] := by
  obtain ⟨leaf, hone, hleaf, hbase⟩ :=
    hplanned.planned.joins_only h.relations h.flat (h.joinable hknown hschema)
  have hjoins : planner.joins = [⟨relation, name, table.name, leaf.qualifier, branch.joinKind⟩] := by
    rw [hplanned.joins_eq, hone.joins (hplanned.planned.table_eq.symm ▸ h.known_relation hknown),
      hplanned.begins.qualifier_eq]
  refine ⟨leaf, hone, hleaf, hbase, ?_, ?_, hjoins⟩
  · rw [hjoins] at hlabels
    exact hlabels _ List.mem_cons_self
  · have hrelations := hone.relations
    obtain ⟨_, _, _, _, _, _, _, _, _, _⟩ := layout
    cases hrelations
    rw [Layout.fansOut, branchesFanOut, h.many]
    rfl

section Joined

variable {layout leaf : Layout} {planner : Planner}
  (hplanned : (engine.shapeFor table args).PlannedAs engine.schema table.name layout planner)
  (hone : layout.JoinsOnly ⟨name, relation.kind.isToMany, branch, leaf⟩)
  (hleaf : branch.shape.Planned engine.schema relation.target leaf) (hbase : leaf.isBase = false)
  (hlabel : leaf.qualifier ≠ table.name) (hfans : layout.fansOut = true)
  (hjoins : planner.joins = [⟨relation, name, table.name, leaf.qualifier, branch.joinKind⟩])

include hone hleaf hfans

variable (planner) in
/-- The statement sorts by the keys of the request, then by those of the relation, and cuts no
window. -/
theorem PagesOne.statement_clauses :
    let base := engine.baseStatement table args ⟨none, none, false⟩ [] true
    let statement := engine.joinedStatement table args (engine.paging args) layout planner
    statement.filter = base.filter ∧ statement.window = none ∧
      statement.orderBy = orderClause (engine.baseOrder table args false [] ++
        (engine.schema.sortKeys relation.target relation.target branch.orderBy []).map
          (·.under leaf.qualifier)) := by
  intro base
  have hjoinedTables : ∀ known, known ∉ [name] → layout.joinedTables.lookup known = none := by
    intro known hne
    refine lookup_joinedTables layout fun hmem => hne ?_
    rwa [hone.relations] at hmem
  have hframe := joinedStatement_frame engine table args (engine.paging args) layout planner
  rw [hone.clauses h.unfiltered, hfans,
    baseStatement_unjoined hschema hknown h.filter h.orderBy hjoinedTables,
    baseOrder_unjoined h.orderBy hjoinedTables, h.paging, sortKeys_under _ _ relation.target,
    hleaf.table_eq] at hframe
  dsimp only at hframe ⊢
  rw [h.paging, hframe]
  exact ⟨rfl, rfl, rfl⟩

include hplanned hlabel hbase hjoins

/-- Folded, the joined rows make the records of the base rows that the request shows. -/
theorem PagesOne.foldedRecords :
    ∃ rows : List Row, rows.Perm (engine.shownRows db table args ⟨none, none, false⟩) ∧
      engine.foldedRecords db table args (engine.paging args) layout planner =
        pageOf none engine.settings.maxTake (rows.map fun row => Dict.put name
          (.ofRelated relation.kind.isToMany (branch.page ((rowsInOrder
            (engine.schema.sortKeys relation.target relation.target branch.orderBy [])
              (relation.linked db row)).map (·.recordOf leaf.columns)))) (row.recordOf layout.columns)) := by
  obtain ⟨hfilter, hwindow, horder⟩ := h.statement_clauses hknown hschema planner hone hleaf hfans
  let base := engine.baseStatement table args ⟨none, none, false⟩ [] true
  let test := fun row => db.passes base.filter [(table.name, some row)]
  let own := engine.baseOrder table args false []
  let keys := engine.schema.sortKeys relation.target relation.target branch.orderBy []
  have hbegins := hplanned.begins
  have hclauses : base.ClausesWithin [table.name] :=
    baseStatement_within engine table args _ true List.mem_cons_self (noTables_within _)
  have hblock : ∀ row, planner.block db table.name row =
      (orNone (relation.linked db row)).map (row.beside table.name leaf.qualifier) :=
    Planner.block_one hjoins h.left h.direct rfl hlabel
  have hown : ∀ key ∈ own, key.column.qualifier = table.name := by
    intro key hkey
    have hsome : base.orderBy = some own := by
      change orderClause own = some own
      exact if_neg (by simpa using List.ne_nil_of_mem hkey)
    exact List.mem_singleton.mp (hclauses.orderBy own hsome key hkey)
  have hjoined : ⟨name, relation.kind.isToMany, branch, leaf⟩ ∈ layout.relations := by
    rw [hone.relations]
    exact List.mem_cons_self
  have hshows : layout.Shows leaf :=
    Layout.shows_joined hbegins.named hbegins.outputNames hjoined hleaf.key_subset
  have hpasses : ∀ row, ∀ tuple ∈ planner.block db table.name row,
      db.passes base.filter tuple = test row := by
    intro row tuple htuple
    obtain ⟨more, rfl⟩ := planner.begins_block table.name row tuple htuple
    exact passes_base hclauses.filter row more
  have htest : ∀ row, (planner.block db table.name row).any (db.passes base.filter) = test row := by
    intro row
    obtain ⟨tuple, htuple⟩ := List.exists_mem_of_ne_nil _ (show planner.block db table.name row ≠ [] by
      rw [hblock]
      simpa using orNone_ne_nil _)
    rw [Bool.eq_iff_iff, List.any_eq_true]
    exact ⟨fun ⟨other, hother, hkeep⟩ => hpasses row other hother ▸ hkeep,
      fun hkeep => ⟨tuple, htuple, (hpasses row tuple htuple).trans hkeep⟩⟩
  have hapart : ApartBy layout.key (db.rows table.name) := hbegins.key_eq ▸ h.apart
  have hrelated : ApartBy leaf.key (db.rows relation.target) := hleaf.key_eq ▸ h.related
  have hperm := planner.leadingRows_perm hapart.rowKeys_nodup
    (orderClause (own ++ keys.map (·.under leaf.qualifier))) (db.passes base.filter)
  simp only [htest] at hperm
  refine ⟨_, hperm.trans (selected_perm_filter table.name base.filter base.orderBy).symm, ?_⟩
  unfold Engine.foldedRecords Engine.joinedTuples
  dsimp only
  rw [hfilter, hwindow, horder, hfans, if_pos rfl, h.paging]
  dsimp only
  rw [Window.cut, hbegins.assemble_inOrder hapart.rowKeys_nodup]
  · refine congrArg _ (List.map_congr_left fun row hrow => ?_)
    obtain ⟨hmem, hkept⟩ := List.mem_filter.mp (hperm.subset hrow)
    have hall : (planner.block db table.name row).filter (db.passes base.filter) =
        planner.block db table.name row :=
      List.filter_eq_self.mpr fun tuple htuple => (hpasses row tuple htuple).trans hkept
    have hlinked : (rowsInOrder keys (relation.linked db row)).Perm (relation.linked db row) :=
      rowsInOrder_perm keys _
    have hsome : ApartBy leaf.key (rowsInOrder keys (relation.linked db row)) :=
      (hrelated.sublist (Relation.linked_sublist h.direct row)).perm hlinked
    have hunder : ∀ key ∈ keys.map (·.under leaf.qualifier), key.column.qualifier = leaf.qualifier :=
      List.forall_mem_map.mpr fun _ _ => rfl
    rw [hall, hblock, inOrder_beside hown hunder hlabel, rowsInOrder_under]
    exact hone.fold_beside hshows hlabel hbase hbegins row hsome
  · intro found hfound
    rw [orderClause_some hfound]
    have hordered : OrdersOn (tupleOrder (own ++ keys.map (·.under leaf.qualifier)))
        (· ∈ (db.rows table.name).flatMap fun row =>
          (orNone (relation.linked db row)).map (row.beside table.name leaf.qualifier)) :=
      ordersOn_beside hlabel (fun row _ => (Relation.linked_sublist h.direct row).subset)
        (List.forall_mem_append.mpr ⟨fun key hkey => Or.inl ⟨hown key hkey, (h.sorted key hkey).ordered⟩,
          List.forall_mem_map.mpr fun key hkey => Or.inr ⟨rfl, (h.relatedSorted key hkey).ordered⟩⟩)
    refine hordered.mono fun tuple htuple => ?_
    obtain ⟨row, hrow, hmem⟩ := List.mem_flatMap.mp (List.mem_filter.mp htuple).1
    exact List.mem_flatMap.mpr ⟨row, hrow, (hblock row) ▸ hmem⟩

end Joined

variable (hdb : db.Valid)

include hdb

/-- By a joined statement the base rows that the request shows make their records, in some order. -/
theorem PagesOne.findJoined {layout : Layout} {planner : Planner}
    (hplan : engine.planFor table args = (layout, planner)) :
    (engine.findJoined table args (engine.paging args) layout planner).Gives db.run fun records =>
      ∃ rows : List Row, rows.Perm (engine.shownRows db table args ⟨none, none, false⟩) ∧
        records = (pageOf none engine.settings.maxTake rows).map
          (branch.owner db relation name (engine.shapeFor table args).fields
            (engine.schema.sortKeys relation.target relation.target branch.orderBy [])) := by
  have hproper : (engine.shapeFor table args).Proper engine.schema table.name :=
    engine.schema.shape_proper _ _ _ _
  have hlayout : (engine.shapeFor table args).layout engine.schema table.name [] =
      (layout, planner) := by
    rw [← hplan, Engine.planFor, h.whole.distinct]
    rfl
  have hplanned := planFor_planned hschema table args
  have hlabels := h.labels
  rw [hplan] at hplanned hlabels
  obtain ⟨leaf, hone, hleaf, hbase, hlabel, hfans, hjoins⟩ :=
    h.exists_leaf hknown hschema hplanned hlabels
  obtain ⟨rows, hperm, hfolded⟩ :=
    h.foldedRecords hknown hschema hplanned hone hleaf hbase hlabel hfans hjoins
  intro records hrecords
  refine ⟨rows, hperm, ?_⟩
  rw [findJoined_loaded hschema hdb hproper (h.sorts hknown hschema) (engine.paging args) hlayout
    (by rw [hjoins]; exact List.forall_mem_singleton.mpr (Or.inl h.left))
    (hplanned.begins.key_eq ▸ h.apart) h.whole.distinct records hrecords, hfolded, ← pageOf_map,
    List.map_map, ← hplanned.planned.fields_eq]
  refine List.map_congr_left fun row _ => ?_
  exact hone.owner_eq h.repeated hplanned.planned.fields_subset hleaf.fields_subset hleaf.fields_eq
    _ row

/-- By separate statements they make the same records, in the order of the request. -/
theorem PagesOne.findSeparately :
    (engine.findSeparately table args (engine.paging args) (engine.shapeFor table args)).Gives db.run
      fun records => records = (engine.shownRows db table args (engine.paging args)).map
        (branch.owner db relation name (engine.shapeFor table args).fields
          (engine.schema.sortKeys relation.target relation.target branch.orderBy [])) := by
  have hproper : (engine.shapeFor table args).Proper engine.schema table.name :=
    engine.schema.shape_proper _ _ _ _
  obtain ⟨target, htarget, htargetName⟩ := h.target hknown hschema
  have hrelation := h.known_relation hknown
  let keys := engine.schema.sortKeys relation.target relation.target branch.orderBy []
  intro records hrecords
  rw [findSeparately_loaded hschema hdb hproper (h.sorts hknown hschema) hknown (engine.paging args)
    h.whole.distinct records hrecords]
  refine List.map_congr_left fun row hrow => ?_
  have hmem : row ∈ db.rows table.name := shownRows_subset hrow
  have hlink : relation.fromColumn ∈ table.linkColumns [name] :=
    mem_linkColumns hknown List.mem_cons_self hrelation
  rw [h.relations]
  exact owner_of_loaded h.flat hrelation
    (recordsFor_eq htarget htargetName h.direct h.unfiltered h.keyed
      (fun key hkey => (h.relatedSorted key hkey).ordered) hmem)
    (row.toRecord_only_mirrors _) (fun field hfield => mem_withHidden.mpr (Or.inl hfield))
    (mem_withHidden.mpr (Or.inr hlink))

/-- The join strategy finds them by the joined statement. -/
theorem PagesOne.findMany_joined :
    (engine.findMany table.name { args with strategy := some .join }).Gives db.run fun records =>
      ∃ rows : List Row, rows.Perm (engine.shownRows db table args ⟨none, none, false⟩) ∧
        records = (pageOf none engine.settings.maxTake rows).map
          (branch.owner db relation name (engine.shapeFor table args).fields
            (engine.schema.sortKeys relation.target relation.target branch.orderBy [])) := by
  have hjoin := h.with_strategy (some .join)
  have hforwards : (engine.paging { args with strategy := some .join }).backwards = false := by
    rw [hjoin.paging]
  obtain ⟨leaf, -, -, -, -, -, hjoins⟩ :=
    h.exists_leaf hknown hschema (planFor_planned hschema table args) h.labels
  have hbyJoins : engine.Joins table { args with strategy := some .join } := by
    refine ⟨rfl, ?_⟩
    change (!(engine.planFor table args).2.joins.isEmpty) = true
    rw [hjoins]
    rfl
  rw [NestedQuery.findMany_joined hknown hbyJoins]
  exact gives_forwards (hjoin.findJoined hknown hschema hdb rfl) hforwards

/-- The query strategy finds them by separate statements. -/
theorem PagesOne.findMany_separate :
    (engine.findMany table.name { args with strategy := some .query }).Gives db.run fun records =>
      records = (pageOf none engine.settings.maxTake
        (engine.shownRows db table args ⟨none, none, false⟩)).map
          (branch.owner db relation name (engine.shapeFor table args).fields
            (engine.schema.sortKeys relation.target relation.target branch.orderBy [])) := by
  have hquery := h.with_strategy (some .query)
  have hpaging := hquery.paging
  have hwindow : pageOf none engine.settings.maxTake
      (engine.shownRows db table args ⟨none, none, false⟩) =
        engine.shownRows db table args ⟨engine.settings.maxTake, none, false⟩ :=
    pageOf_eq_cut ⟨engine.settings.maxTake, none, false⟩ _
  rw [hwindow]
  refine findMany_separately hknown rfl (by rw [hpaging]) ?_
  have hfound := hquery.findSeparately hknown hschema hdb
  rwa [hpaging] at hfound ⊢

end Requests

/-- **Either strategy pages a relation alike.**  Over a schema that can come about, under all
settings and on every database, take a request that includes one relation, as `PagesOne` has it,
with an ordering and a page of its own.  Both strategies make the record of a base row hold the
page, in the order of the relation, of all related rows; a joined statement may put the base rows
in another order where that of the request leaves it open. -/
theorem relation_pages_agree {schema : Schema} (h : schema.Reachable) (settings : Settings)
    {db : Database} (hdb : db.Valid) {table : Table}
    (hknown : schema.table? table.name = some table) {args : FindArgs} {name : String}
    {branch : Branch} {relation : Relation}
    (hargs : PagesOne ⟨schema, settings⟩ db table args name branch relation) :
    let engine : Engine := ⟨schema, settings⟩
    let find := fun strategy => ((engine.findMany table.name
      { args with strategy := some strategy }).hold Database.source db).result
    let shown := engine.shownRows db table args ⟨none, none, false⟩
    let record := branch.owner db relation name (engine.shapeFor table args).fields
      (schema.sortKeys relation.target relation.target branch.orderBy [])
    ∃ joined : List Row, joined.Perm shown ∧
      find .join = .ok ((pageOf none settings.maxTake joined).map record) ∧
      find .query = .ok ((pageOf none settings.maxTake shown).map record) := by
  intro engine find shown record
  obtain ⟨joined, hjoined, rows, hperm, rfl⟩ := findMany_result h.consistent hknown
    (hargs.findMany_joined hknown h.consistent hdb)
  obtain ⟨others, hothers, rfl⟩ := findMany_result h.consistent hknown
    (hargs.findMany_separate hknown h.consistent hdb)
  exact ⟨rows, hperm, hjoined, hothers⟩

/-- Both strategies give each author the last of its posts in the descending order of their titles. -/
theorem relation_pages_agree_blog :
    let engine : Engine := ⟨Schema.ofDecls blogTables, {}⟩
    let posts : RelationArgs := { orderBy := some (.by "title" .descending), take := some (-1) }
    let args : FindArgs := { included := some [("posts", .relation posts)] }
    let find := fun strategy => ((engine.findMany "Author"
      { args with strategy := some strategy }).hold Database.source blogRows).result
    let branch := posts.branch engine.schema "Post"
    let relation := Relation.oneToMany "posts" "Post" "id" "authorId"
    ∃ known, engine.schema.table? "Author" = some known ∧
      PagesOne engine blogRows known args "posts" branch relation ∧
      let shown := engine.shownRows blogRows known args ⟨none, none, false⟩
      let record := branch.owner blogRows relation "posts" (engine.shapeFor known args).fields
        (engine.schema.sortKeys relation.target relation.target branch.orderBy [])
      ∃ joined : List Row, joined.Perm shown ∧
        find .join = .ok ((pageOf none none joined).map record) ∧
        find .query = .ok ((pageOf none none shown).map record) := by
  intro engine posts args find branch relation
  obtain ⟨known, hknown, hname⟩ := exists_blog_author
  have hargs : PagesOne engine blogRows known args "posts" branch relation := by
    constructor
    case relations =>
      rw [Engine.shapeFor, hname]
      rfl
    case flat => rfl
    case known =>
      have htable : (engine.schema.table? "Author").map (·.relation? "posts") =
          some (some relation) := by decide +kernel
      rwa [hknown, Option.map_some, Option.some_inj] at htable
    case many => rfl
    case direct => rfl
    case left => rfl
    case unfiltered => rfl
    case repeated => rfl
    case whole => exact ⟨rfl, rfl, rfl, rfl⟩
    case filter => exact fun filter hfilter => nomatch hfilter
    case orderBy => exact fun order horder => nomatch horder
    case apart =>
      rw [hname]
      decide +kernel
    case related => decide +kernel
    case keyed =>
      rw [hname]
      decide +kernel
    case sorted => exact fun key hkey => nomatch hkey
    case relatedSorted =>
      have hkeys : engine.schema.sortKeys relation.target relation.target branch.orderBy [] =
          [⟨⟨"Post", "title"⟩, .descending, none⟩] := by decide +kernel
      have hvalues : (blogRows.rows "Post").map (·.value "title") = [.text "Joins", .text "Keys"] := by
        decide +kernel
      rw [hkeys, List.forall_mem_singleton]
      change Value.OneKind ((blogRows.rows "Post").map (·.value "title"))
      rw [hvalues]
      right
      left
      simp
    case labels =>
      have hdistinct : known.distinctColumns args.distinct = [] := rfl
      rw [Engine.planFor, Engine.shapeFor, hname, hdistinct]
      decide +kernel
  have hfound := relation_pages_agree reachable_blog {} (Database.valid_of_entries (by decide +kernel))
    (hname ▸ hknown) hargs
  rw [hname] at hfound
  exact ⟨known, hknown, hargs, hfound⟩

end NestedQuery
