import Mathlib.Data.List.DropRight
import NestedQuery.Proofs.CursorPages
import NestedQuery.Proofs.NamesApart
import NestedQuery.Proofs.RecordWindows

/-!
# Pages from the end

A page of a negative size is found backwards: the statement sorts by the keys of
the request turned round, the page is cut from the front, and the records found
are turned round at the end.  A key that is turned round puts nulls to the other
end, so that it reverses the order of all values.  Keys that put the base rows in
strict order therefore list them backwards when they are turned round, while what
is nested in a record stands as the joins put it, whichever way the page goes.
-/

namespace NestedQuery

variable {db : Database} {engine : Engine}

/-! ### Keys turned round -/

/-- Where nulls go by default depends on the direction, so that they change ends without being
placed as well. -/
theorem SortKey.nullsFirst_reverse (key : SortKey) : key.reverse.nullsFirst = !key.nullsFirst := by
  obtain ⟨column, direction, nulls⟩ := key
  cases direction <;> rcases nulls with _ | _ | _ <;> rfl

theorem SortKey.directed_reverse (key : SortKey) (a b : Value) :
    key.reverse.directed a b = (key.directed a b).swap := by
  obtain ⟨column, direction, nulls⟩ := key
  cases direction with
  | ascending => rfl
  | descending => exact Ordering.swap_swap.symm

theorem SortKey.order_reverse (key : SortKey) (a b : Value) :
    key.reverse.order a b = (key.order a b).swap := by
  rw [SortKey.order_eq, SortKey.order_eq, key.nullsFirst_reverse, key.directed_reverse]
  cases a.isNull <;> cases b.isNull <;> cases key.nullsFirst <;> rfl

/-- Lists of values are in the opposite order under keys that are turned round. -/
theorem sortOrder_reverse (keys : List SortKey) (as bs : List Value) :
    sortOrder (keys.map SortKey.reverse) as bs = (sortOrder keys as bs).swap := by
  induction keys generalizing as bs with
  | nil => rfl
  | cons key rest ih =>
      cases as with
      | nil => cases bs <;> rfl
      | cons a as =>
          cases bs with
          | nil => rfl
          | cons b bs =>
              rw [List.map_cons, sortOrder, sortOrder, key.order_reverse, ih, Ordering.swap_then]

/-- **Keys turned round.**  Whatever their directions are and wherever they place nulls, keys that
are turned round compare two lists of values to the opposite result, as the keys themselves do
with the lists exchanged. -/
theorem turned_keys_compare_backwards (keys : List SortKey) (as bs : List Value) :
    sortOrder (keys.map SortKey.reverse) as bs = (sortOrder keys as bs).swap ∧
      sortOrder (keys.map SortKey.reverse) as bs = sortOrder keys bs as := by
  have hturned := sortOrder_reverse keys as bs
  exact ⟨hturned, hturned.trans (sortOrder_swap keys as bs).symm⟩

/-- Rows of values are in the opposite order under keys that are turned round. -/
theorem valueOrder_reverse (keys : List SortKey) (one other : String → Value) :
    valueOrder (keys.map SortKey.reverse) one other = (valueOrder keys one other).swap := by
  rw [valueOrder, List.map_map, List.map_map]
  exact sortOrder_reverse keys _ _

namespace PutInOrder

variable {keys : List SortKey} {table : String} {rows : List Row}

/-- Keys put rows in order if they do when turned round. -/
theorem reverse (h : PutInOrder keys table rows) :
    PutInOrder (keys.map SortKey.reverse) table rows where
  own := List.forall_mem_map.mpr h.own
  ordered := List.forall_mem_map.mpr h.ordered
  apart := h.apart.imp fun hne heq => hne (by
    rwa [valueOrder_reverse, Ordering.swap_eq_eq] at heq)

/-- They then list them backwards. -/
theorem rowsInOrder_reverse (h : PutInOrder keys table rows) :
    rowsInOrder (keys.map SortKey.reverse) rows = (rowsInOrder keys rows).reverse := by
  refine h.reverse.eq_of_perm (rowsInOrder_perm _ _).subset
    ((rowsInOrder_perm _ _).trans ((rowsInOrder_perm _ _).symm.trans (List.reverse_perm _).symm))
    h.reverse.pairwise_rowsInOrder (List.pairwise_reverse.mpr ?_)
  refine h.pairwise_rowsInOrder.imp fun hle hgt => hle ?_
  rwa [valueOrder_reverse, ← valueOrder_swap] at hgt

/-- No keys put at most one row in order, and then any others do. -/
theorem of_none (h : PutInOrder [] table rows) (hown : ∀ key ∈ keys, key.column.qualifier = table) :
    PutInOrder keys table rows ∧ rowsInOrder keys rows = rows.reverse := by
  rcases rows with _ | ⟨row, _ | ⟨second, rest⟩⟩
  · exact ⟨⟨hown, fun _ _ => nofun, List.Pairwise.nil⟩, stableSort_nil _⟩
  · refine ⟨⟨hown, ?_, List.pairwise_singleton _ _⟩, stableSort_singleton _ _⟩
    intro key _ a ha b hb c hc _ _ _ hab hbc
    rwa [List.mem_singleton.mp ha, List.mem_singleton.mp hb] at *
  · exact absurd rfl (List.rel_of_pairwise_cons h.apart List.mem_cons_self)

end PutInOrder

/-! ### Folding in the order of base rows -/

/-- Joined rows of one base row stay where they are when they are sorted by its columns. -/
theorem inOrder_same {keys : List SortKey} {table : String}
    (hown : ∀ key ∈ keys, key.column.qualifier = table) {row : Row} {tuples : List Bindings}
    (h : ∀ tuple ∈ tuples, tuple.rowOf table = row) : inOrder (orderClause keys) tuples = tuples := by
  unfold orderClause
  split
  · rfl
  · refine stableSort_of_same fun one hone other hother => ?_
    rw [tupleOrder_rowOf hown, h one hone, h other hother, valueOrder_self]

section Blocks

variable {schema : Schema} {layout : Layout} {table : String} {planner : Planner}
  (hbegins : layout.Begins schema table) (hapart : ApartBy layout.key (db.rows table))
  {keys : List SortKey} {keep : Bindings → Bool}
  (hkeys : PutInOrder keys table
    ((db.rows table).filter fun row => (planner.block db table row).any keep))

include hbegins hapart hkeys

/-- Joined rows that are sorted by columns of the base table make the records of the base rows, in
order: each is folded from what is kept of its block. -/
theorem Layout.Begins.assemble_rows :
    layout.assemble ((inOrder (orderClause keys) ((planner.tuples db table).filter keep)).map
        layout.yield) =
      (rowsInOrder keys ((db.rows table).filter fun row => (planner.block db table row).any keep)).map
        fun row => layout.fold (((planner.block db table row).filter keep).map layout.yield) := by
  have hrowOf : ∀ row, ∀ tuple ∈ planner.block db table row, tuple.rowOf table = row := by
    intro row tuple htuple
    obtain ⟨more, rfl⟩ := planner.begins_block table row tuple htuple
    rw [Bindings.rowOf_cons_self, Option.getD_some]
  have hover : ∀ tuple ∈ (planner.tuples db table).filter keep, tuple.rowOf table ∈
      (db.rows table).filter fun row => (planner.block db table row).any keep := by
    intro tuple htuple
    obtain ⟨hmem, hkeep⟩ := List.mem_filter.mp htuple
    obtain ⟨row, hrow, hblock⟩ := List.mem_flatMap.mp hmem
    rw [hrowOf row tuple hblock]
    exact List.mem_filter.mpr ⟨hrow, List.any_eq_true.mpr ⟨tuple, hblock, hkeep⟩⟩
  have hperm := planner.leadingRows_perm hapart.rowKeys_nodup (orderClause keys) keep
  have hsorted : (layout.leadingRows table
      (inOrder (orderClause keys) ((planner.tuples db table).filter keep))).Pairwise
        fun one other => valueOrder keys one.value other.value ≠ .gt :=
    (hkeys.pairwise_rowOf_own hover).sublist (firstOfEach_sublist _ _ _)
  rw [hbegins.assemble_inOrder hapart.rowKeys_nodup,
    hkeys.eq_of_perm hperm.subset (hperm.trans (rowsInOrder_perm _ _).symm) hsorted
      hkeys.pairwise_rowsInOrder]
  · refine List.map_congr_left fun row _ => ?_
    rw [inOrder_same hkeys.own fun tuple htuple =>
      hrowOf row tuple (List.mem_filter.mp htuple).1]
  · intro found hfound
    rw [orderClause_some hfound]
    exact ordersOn_rowOf hkeys.own hkeys.ordered hover

end Blocks

/-! ### Requests -/

/-- An ordering by columns of the table sorts by the same keys whatever is joined. -/
theorem baseOrder_columns {table : Table} (hknown : engine.schema.table? table.name = some table)
    {args : FindArgs} (h : ∀ order, args.orderBy = some order → ∀ entry ∈ order.entries,
      ∀ key ∈ entry, table.hasColumn key.1 = true) (backwards : Bool) (joined : JoinedTables) :
    engine.baseOrder table args backwards joined = engine.baseOrder table args backwards [] := by
  have hkeys : engine.schema.sortKeys table.name table.name args.orderBy joined =
      engine.schema.sortKeys table.name table.name args.orderBy [] := by
    unfold Schema.sortKeys
    rw [hknown]
    cases horder : args.orderBy with
    | none => rfl
    | some order =>
        refine List.flatMap_congr fun entry hentry => List.flatMap_congr fun key hkey => ?_
        have hcolumn := h order horder entry hentry key hkey
        dsimp only [Schema.keySortKeys]
        rw [if_pos hcolumn, if_pos hcolumn]
  unfold Engine.baseOrder
  rw [hkeys]

instance (table : Table) (args : FindArgs) : Decidable (engine.Joins table args) :=
  inferInstanceAs (Decidable (_ ∧ _))

/-- Whether a request keeps a row of its table: if it joins, whether its filter accepts a joined row
that begins with it, and else whether the filter accepts the row. -/
def Engine.keeps (engine : Engine) (db : Database) (table : Table) (args : FindArgs) (row : Row) :
    Bool :=
  if engine.Joins table args then
    let plan := engine.planFor table args
    (plan.2.block db table.name row).any
      (db.passes (engine.joinedStatement table args ⟨none, none, false⟩ plan.1 plan.2).filter)
  else
    db.passes (engine.baseStatement table args ⟨none, none, false⟩ [] true).filter
      [(table.name, some row)]

/-- The rows of its table that a request keeps. -/
def Engine.keptRows (engine : Engine) (db : Database) (table : Table) (args : FindArgs) :
    List Row :=
  (db.rows table.name).filter (engine.keeps db table args)

/-- What a request must be like for its pages to be taken from either end: it has no cursor, no
distinct columns, and relations without clauses, of which those to one match at most one row; rows of
its table are told apart by their key; and it sorts by columns with values of one kind, which put the
rows that it keeps in strict order. -/
structure SortsStrictly (engine : Engine) (db : Database) (table : Table) (args : FindArgs) :
    Prop where
  cursor : args.cursor = none
  distinct : args.distinct = none
  plain : (engine.shapeFor table args).Throughout engine.schema
    (fun _ branch _ => branch.WithoutClauses) table.name
  once : matchesOnce db (engine.planFor table args).2.joins
    ((db.rows table.name).map fun row => [(table.name, some row)])
  apart : ApartBy (engine.schema.usableKey table.name) (db.rows table.name)
  columns : ∀ order, args.orderBy = some order → ∀ entry ∈ order.entries, ∀ key ∈ entry,
    table.hasColumn key.1 = true
  sorted : ∀ key ∈ engine.baseOrder table args false [],
    Value.OneKind ((engine.keptRows db table args).map (·.value key.column.name))
  strict : (engine.keptRows db table args).Pairwise fun one other =>
    valueOrder (engine.baseOrder table args false []) one.value other.value ≠ .eq

section Requests

variable {table : Table} {args : FindArgs} (h : SortsStrictly engine db table args)

include h

/-- Turned round, the order of such a request puts the rows that it keeps in order as well, and
lists them backwards.  Without keys there is one row at most, and the keys of the table come in
instead. -/
theorem SortsStrictly.putInOrder :
    PutInOrder (engine.baseOrder table args false []) table.name (engine.keptRows db table args) ∧
      PutInOrder (engine.baseOrder table args true []) table.name (engine.keptRows db table args) ∧
      rowsInOrder (engine.baseOrder table args true []) (engine.keptRows db table args) =
        (rowsInOrder (engine.baseOrder table args false []) (engine.keptRows db table args)).reverse := by
  have hown : ∀ backwards, ∀ key ∈ engine.baseOrder table args backwards [],
      key.column.qualifier = table.name := fun backwards key hkey => List.mem_singleton.mp
    (baseOrder_scoped engine table args backwards List.mem_cons_self (noTables_within _) key hkey)
  have hforwards : PutInOrder (engine.baseOrder table args false []) table.name
      (engine.keptRows db table args) :=
    ⟨hown false, fun key hkey => (h.sorted key hkey).ordered, h.strict⟩
  refine ⟨hforwards, ?_⟩
  by_cases hasked : engine.baseOrder table args false [] = []
  · rw [hasked] at hforwards ⊢
    rw [rowsInOrder_nil]
    exact hforwards.of_none (hown true)
  · have hreverse : engine.baseOrder table args true [] =
        (engine.baseOrder table args false []).map SortKey.reverse := by
      have hkeys : engine.schema.sortKeys table.name table.name args.orderBy [] ≠ [] := by
        simpa [Engine.baseOrder, h.cursor] using hasked
      simp [Engine.baseOrder, h.cursor, hkeys]
    rw [hreverse]
    exact ⟨hforwards.reverse, hforwards.rowsInOrder_reverse⟩

/-- So its order puts them in order, whichever way it goes. -/
theorem SortsStrictly.putInOrder_either (backwards : Bool) :
    PutInOrder (engine.baseOrder table args backwards []) table.name
      (engine.keptRows db table args) := by
  cases backwards with
  | false => exact h.putInOrder.1
  | true => exact h.putInOrder.2.1

variable (hschema : engine.schema.Consistent)

include hschema

/-- Nothing is sorted beneath, so that nothing is compared. -/
theorem SortsStrictly.sortsAlone : (engine.shapeFor table args).Throughout engine.schema
    (SortsAlone engine.schema db) table.name := by
  have hunsorted := h.plain.mono fun _ branch _ (hclauses : branch.WithoutClauses) =>
    show branch.orderBy.isNone = true by rw [hclauses.orderBy, Option.isNone_none]
  exact (sortsByOrdered_of_unsorted hunsorted).mono fun _ _ _ hsorts => hsorts.alone hschema

variable (hdb : db.Valid) (hknown : engine.schema.table? table.name = some table)

include hdb hknown

section Joined

variable {layout : Layout} {planner : Planner}
  (hplanned : (engine.shapeFor table args).PlannedAs engine.schema table.name layout planner)

include hplanned

omit hschema hdb in
/-- Whichever way it goes, its joined statement keeps the same joined rows. -/
theorem SortsStrictly.joinedTuples_eq (backwards : Bool) :
    engine.joinedTuples db table args ⟨none, none, backwards⟩ layout planner =
      inOrder (orderClause (engine.baseOrder table args backwards []))
        ((planner.tuples db table.name).filter
          (db.passes (engine.joinedStatement table args ⟨none, none, false⟩ layout planner).filter)) := by
  unfold Engine.joinedTuples
  dsimp only
  rw [joinedStatement_eq (hplanned.planned.clauses_none h.plain 0),
    joinedStatement_eq (hplanned.planned.clauses_none h.plain 0)]
  dsimp only [Engine.baseStatement]
  rw [baseOrder_columns hknown h.columns, h.cursor]
  rfl

/-- By a joined statement such a request finds a page of the records of the rows that it keeps, in its
order, each folded from its own joined rows. -/
theorem SortsStrictly.findJoined
    (honce : matchesOnce db planner.joins
      ((db.rows table.name).map fun row => [(table.name, some row)]))
    (hkept : engine.keptRows db table args = (db.rows table.name).filter fun row =>
      (planner.block db table.name row).any
        (db.passes (engine.joinedStatement table args ⟨none, none, false⟩ layout planner).filter)) :
    ∃ record : Row → Record, ∀ paging : Paging,
      (engine.findJoined table args paging layout planner).Gives db.run fun found =>
        found = pageOf paging.skip paging.size
          ((rowsInOrder (engine.baseOrder table args paging.backwards [])
            (engine.keptRows db table args)).map record) := by
  have hmem := hplanned.planned.mem_joins h.plain
  rw [← hplanned.joins_eq] at hmem
  have hkinds : ∀ join ∈ planner.joins, Rowwise join.clause := by
    intro join hjoin
    obtain ⟨⟨-, branch, hplain, hkind⟩, -⟩ := hmem join hjoin
    exact Or.inl (hkind.trans hplain.joinKind)
  have hapart : ApartBy layout.key (db.rows table.name) := hplanned.begins.key_eq ▸ h.apart
  have hdistinct : table.distinctColumns args.distinct = [] := by
    rw [h.distinct]
    rfl
  refine ⟨fun row => layout.strip (layout.loaded engine.schema db (layout.fold
    (((planner.block db table.name row).filter (db.passes (engine.joinedStatement table args
      ⟨none, none, false⟩ layout planner).filter)).map layout.yield))), fun paging => ?_⟩
  have hnodup : layout.fansOut = false →
      ((engine.joinedTuples db table args ⟨none, none, paging.backwards⟩ layout planner).map
        layout.groupKey).Nodup := by
    intro hfans
    have hall : ((planner.tuples db table.name).map layout.groupKey).Nodup :=
      hplanned.begins.groupKeys_nodup hapart (fun row _ => planner.begins_block table.name row)
        fun row hrow => extensions_single honce (fun join hjoin => (hmem join hjoin).2 hfans) _
          (List.mem_map_of_mem hrow)
    exact (((inOrder_perm _ _).map _).nodup_iff).mpr (hall.sublist (List.filter_sublist.map _))
  have hsubset : engine.joinedTuples db table args ⟨none, none, paging.backwards⟩ layout planner ⊆
      planner.tuples db table.name :=
    fun tuple htuple => (List.mem_filter.mp ((inOrder_perm _ _).subset htuple)).1
  intro found hfound
  rw [findJoined_page hschema hdb (engine.schema.shape_proper _ _ _ _) (h.sortsAlone hschema) hplanned
    paging hsubset (selectRows_joined hplanned.within hplanned.linked hkinds (Or.inr h.distinct))
    (hplanned.begins.projection_of_apart hapart (joinedTuples_over table args _ layout planner)) hnodup
    found hfound, hdistinct, h.joinedTuples_eq hknown hplanned]
  have hkeys := h.putInOrder_either paging.backwards
  rw [hkept] at hkeys ⊢
  unfold Layout.found
  rw [hplanned.begins.assemble_rows hapart hkeys]
  dsimp only
  rw [show ∀ records, distinctBy [] records = records from fun _ => rfl, ite_self, List.map_map]
  rfl

end Joined

/-- So it does by separate statements. -/
theorem SortsStrictly.findSeparately (hkept : engine.keptRows db table args =
      (db.rows table.name).filter fun row => db.passes
        (engine.baseStatement table args ⟨none, none, false⟩ [] true).filter
          [(table.name, some row)]) :
    ∃ record : Row → Record, ∀ paging : Paging,
      (engine.findSeparately table args paging (engine.shapeFor table args)).Gives db.run fun found =>
        found = pageOf paging.skip paging.size
          ((rowsInOrder (engine.baseOrder table args paging.backwards [])
            (engine.keptRows db table args)).map record) := by
  refine ⟨fun row => (loadedBranches engine.schema db (engine.shapeFor table args).relations
    table.name (row.only (withHidden (engine.shapeFor table args).fields (table.linkColumns
      ((engine.shapeFor table args).relations.map (·.1))))).toRecord).shown
        (engine.shapeFor table args).fields ((engine.shapeFor table args).relations.map (·.1)),
    fun paging found hfound => ?_⟩
  have hrows : engine.shownRows db table args paging =
      pageOf paging.skip paging.size (rowsInOrder (engine.baseOrder table args paging.backwards [])
        (engine.keptRows db table args)) := by
    rw [@pageOf_eq_cut engine table args _ paging, hkept, ← selected_inOrder, Engine.shownRows]
    dsimp only [Engine.baseStatement]
    rw [h.cursor]
    rfl
  rw [findSeparately_loaded hschema hdb (engine.schema.shape_proper _ _ _ _) (h.sortsAlone hschema)
    hknown paging h.distinct found hfound, hrows, pageOf_map]
  rfl

/-- By either strategy the records that such a request finds are those of the rows that it keeps, a
page from the end being found backwards and turned round. -/
theorem SortsStrictly.exists_records (hmost : engine.settings.maxTake = none) :
    ∃ record : Row → Record, ∀ (take : Option Int) (skip : Option Nat),
      (engine.findMany table.name { args with take, skip }).Gives db.run fun found =>
        let backwards := take.any (· < 0)
        let page := pageOf skip (take.map Int.natAbs)
          ((rowsInOrder (engine.baseOrder table args backwards []) (engine.keptRows db table args)).map
            record)
        found = if backwards then page.reverse else page := by
  have hpaging : ∀ (take : Option Int) (skip : Option Nat),
      engine.paging { args with take, skip } = ⟨take.map Int.natAbs, skip, take.any (· < 0)⟩ := by
    intro take skip
    unfold Engine.paging Settings.pageSize
    rw [hmost]
    cases take <;> rfl
  by_cases hjoins : engine.Joins table args
  · obtain ⟨record, hrecord⟩ := h.findJoined hschema hdb hknown (planFor_planned hschema table args)
      h.once (List.filter_congr fun row _ => by rw [Engine.keeps, if_pos hjoins])
    refine ⟨record, fun take skip => ?_⟩
    rw [findMany_joined hknown (show engine.Joins table { args with take, skip } from hjoins),
      hpaging take skip, planFor_page, findJoined_args]
    have hgives := hrecord ⟨take.map Int.natAbs, skip, take.any (· < 0)⟩
    dsimp only at hgives ⊢
    exact gives_turned_eq hgives _
  · obtain ⟨record, hrecord⟩ := h.findSeparately hschema hdb hknown
      (List.filter_congr fun row _ => by rw [Engine.keeps, if_neg hjoins])
    refine ⟨record, fun take skip => ?_⟩
    rw [findMany_unjoined hknown (show ¬ engine.Joins table { args with take, skip } from hjoins),
      hpaging take skip]
    have hgives := hrecord ⟨take.map Int.natAbs, skip, take.any (· < 0)⟩
    dsimp only at hgives ⊢
    exact gives_turned_eq hgives _

end Requests

/-- Cut from the front of what is listed backwards and turned round, a page is the end of what is left
of it without what is skipped at the end. -/
theorem reverse_pageOf_reverse {α : Type} (skip : Option Nat) (count : Nat) (items : List α) :
    (pageOf skip (some count) items.reverse).reverse = lastOf count (items.rdrop (skip.getD 0)) := by
  change _ = (items.rdrop (skip.getD 0)).rtake count
  rw [List.rtake_eq_reverse_take_reverse, List.rdrop_eq_reverse_drop_reverse, List.reverse_reverse]
  rfl

/-- **Pages from the end.**  Over a schema that can come about, under settings without a greatest page
and on every database of valid values, take a request as `SortsStrictly` has it, with any filter and
by either strategy.  With a negative size it finds, in the order of the request and with the same
nested records, the end of what it finds without a page: of that it leaves out as many records at the
end as are to be skipped, and keeps as many as the size says. -/
theorem page_from_end {schema : Schema} (h : schema.Reachable) {settings : Settings}
    (hmost : settings.maxTake = none) {db : Database} (hdb : db.Valid) {table : Table}
    (hknown : schema.table? table.name = some table) {args : FindArgs}
    (hargs : SortsStrictly ⟨schema, settings⟩ db table args) (count : Nat) (skip : Option Nat) :
    let engine : Engine := ⟨schema, settings⟩
    let find := fun args => ((engine.findMany table.name args).hold Database.source db).result
    ∃ records, find { args with take := none, skip := none } = .ok records ∧
      find { args with take := some (-count), skip } =
        .ok (lastOf count (records.rdrop (skip.getD 0))) := by
  intro engine find
  obtain ⟨record, hrecords⟩ := hargs.exists_records h.consistent hdb hknown hmost
  obtain ⟨whole, hwhole, rfl⟩ := findMany_result h.consistent hknown (hrecords none none)
  obtain ⟨page, hpage, rfl⟩ := findMany_result h.consistent hknown (hrecords (some (-count)) skip)
  refine ⟨_, hwhole, hpage.trans (congrArg _ ?_)⟩
  dsimp only [Option.any_none, Option.any_some, Option.map_none, Option.map_some]
  rw [Int.natAbs_neg, Int.natAbs_natCast]
  cases count with
  | zero =>
      change [] = lastOf 0 _
      rw [lastOf, Nat.sub_zero, List.drop_length]
  | succ count =>
      have hbackwards : decide (-((count + 1 : Nat) : Int) < 0) = true := by
        rw [decide_eq_true_iff]
        omega
      simp only [hbackwards, if_true, Bool.false_eq_true, if_false]
      rw [hargs.putInOrder.2.2, List.map_reverse, reverse_pageOf_reverse]
      rfl

/-- Of the authors with their posts, in the descending order of their ids, the last but one is the
first of the two. -/
theorem page_from_end_blog :
    let engine : Engine := ⟨Schema.ofDecls blogTables, {}⟩
    let args : FindArgs :=
      { included := some [("posts", .flag true)], orderBy := some (.by "id" .descending) }
    let find := fun args => ((engine.findMany "Author" args).hold Database.source blogRows).result
    ∃ known, engine.schema.table? "Author" = some known ∧ SortsStrictly engine blogRows known args ∧
      ∃ records, find { args with take := none, skip := none } = .ok records ∧
        find { args with take := some (-(1 : Nat)), skip := some 1 } =
          .ok (lastOf 1 (records.rdrop 1)) := by
  intro engine args find
  let known := (engine.schema.table? "Author").get (by decide +kernel)
  have hknown : engine.schema.table? "Author" = some known := (Option.some_get _).symm
  have hname : known.name = "Author" := reachable_blog.consistent.table_name hknown
  have hargs : SortsStrictly engine blogRows known args := by
    constructor
    case cursor => rfl
    case distinct => rfl
    case plain => decide +kernel
    case once => decide +kernel
    case apart => decide +kernel
    case columns =>
      rintro order ⟨⟩
      decide +kernel
    case sorted =>
      have hkeys : engine.baseOrder known args false [] =
          [⟨⟨"Author", "id"⟩, .descending, none⟩] := by decide +kernel
      rw [hkeys, List.forall_mem_singleton]
      exact Value.OneKind.of_integers (by decide +kernel)
    case strict => decide +kernel
  have hfound := page_from_end reachable_blog rfl (Database.valid_of_entries (by decide +kernel))
    (hname ▸ hknown) hargs 1 (some 1)
  rw [hname] at hfound
  exact ⟨known, hknown, hargs, hfound⟩

/-! ### A label that the table hides -/

/-- Two authors, and a row for each of them in the table that is called like a label. -/
def numberedPair : Database :=
  [("Author", [[("id", .integer 1), ("name", .text "Ann")],
      [("id", .integer 2), ("name", .text "Bob")]]),
   ("author_1", [[("authorId", .integer 1), ("id", .integer 1)],
      [("authorId", .integer 2), ("id", .integer 2)]])]

/-- A request for the rows of this table with their authors. -/
def numberedAuthors (take : Option Int) : FindArgs :=
  { included := some [("author", .flag true)], orderBy := some (.by "id" .ascending), take
    strategy := some .join }

/-- Every row of the table has one author, but is joined to both, and so the last two joined rows
are one record.  Both sides of the join's condition read the base row. -/
theorem hidden_label_shortens_page :
    let schema := Schema.ofDecls numberedTables
    let found := fun take => ((Engine.findMany ⟨schema, {}⟩ "author_1"
      (numberedAuthors take)).hold Database.source numberedPair).result.toOption.map
        (List.map (·.scalar "id"))
    (schema.relation? "author_1" "author").map (fun relation => (relation.kind.isToMany,
        (numberedPair.rows "author_1").map fun row => (relation.linked numberedPair row).length)) =
      some (false, [1, 1]) ∧
      found none = some [.integer 1, .integer 2] ∧ found (some (-2)) = some [.integer 2] := by
  decide +kernel

end NestedQuery
