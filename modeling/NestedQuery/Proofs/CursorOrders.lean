import NestedQuery.Proofs.CursorRuns

/-!
# Cursors and orders

The condition of a cursor looks at each of its columns on its own and, unless
the page is taken backwards, asks for a greater value, however the request
sorts.  With a key of several columns a page therefore leaves out records that
follow the cursor in one column only, and in descending order it goes back to
the records that were seen before.
-/

namespace NestedQuery

/-! ### Keys of several columns -/

/-- The order by the primary key, as a request asks for it. -/
def Table.keyRequest (table : Table) : SortRequest :=
  .many (table.key.map fun column => [(column, .plain .ascending)])

/-- A request in the order of the key is sorted by the sort keys of the key. -/
theorem sortKeys_keyRequest {schema : Schema} {table : Table}
    (hknown : schema.table? table.name = some table) (husable : table.hasUsableKey = true)
    (joined : JoinedTables) :
    schema.sortKeys table.name table.name (some table.keyRequest) joined = table.keyOrder := by
  have hcolumns : ∀ column ∈ table.key, table.hasColumn column = true :=
    List.all_eq_true.mp husable
  rw [Table.keyOrder, List.filter_eq_self.mpr hcolumns]
  exact sortKeys_of_columns hknown rfl hcolumns joined

/-- **A page after a cursor of several columns.**  Over a table that its usable primary key puts in
order, a request for a page after a cursor of key columns, without an order of its own, finds the
records that exceed the cursor in each of these columns: in the order of the key the first ones of
them among all records that its filter allows, as many as the page holds. -/
theorem composite_cursor_page {schema : Schema} (h : schema.Reachable) {settings : Settings}
    (hmost : settings.maxTake = none) {db : Database} (hdb : db.Valid) {table : Table}
    (hknown : schema.table? table.name = some table) (hsome : table.key ≠ [])
    (husable : table.hasUsableKey = true)
    (hkeys : PutInOrder table.keyOrder table.name (db.rows table.name)) {args : FindArgs}
    (hwhole : args.Whole) (horder : args.orderBy = some table.keyRequest)
    (hshown : ∀ column ∈ table.key,
      column ∈ (schema.shape table.name args.selected args.included args.omitted).fields)
    (hjoined : LeftJoined ⟨schema, settings⟩ db table args)
    (hapart : ((schema.shape table.name args.selected args.included args.omitted).layout schema
      table.name []).2.joins ≠ [] → ApartBy table.key (db.rows table.name))
    {cursor : Cursor} (hcursor : ∀ pair ∈ cursor, pair.1 ∈ table.key) (size : Nat) :
    let find := fun args =>
      ((Engine.findMany ⟨schema, settings⟩ table.name args).hold Database.source db).result
    ∃ records : List Record, find args = .ok records ∧
      records.Pairwise (fun before after =>
        valueOrder table.keyOrder before.scalar after.scalar = .lt) ∧
      find { args with orderBy := none, take := some (size : Int), cursor := some cursor } =
        .ok ((records.filter fun record => cursor.all fun pair =>
          (record.scalar pair.1).compare pair.2 == some .gt).take size) := by
  intro find
  have hcolumns : ∀ column ∈ table.key, table.hasColumn column = true :=
    List.all_eq_true.mp husable
  have hkeyOrder : table.keyOrder ≠ [] := by
    rw [Table.keyOrder, List.filter_eq_self.mpr hcolumns]
    exact fun hnone => hsome (List.map_eq_nil_iff.mp hnone)
  have hsort : ∀ joined, schema.sortKeys table.name table.name args.orderBy joined =
      table.keyOrder := by
    intro joined
    rw [horder]
    exact sortKeys_keyRequest hknown husable joined
  have hpages := @pages_by_key ⟨schema, settings⟩ table args hmost hwhole hsort cursor size hkeyOrder
  have husableKey : schema.usableKey table.name = table.key := by
    rw [Schema.usableKey, hknown]
    exact if_pos husable
  obtain ⟨column, hcolumn⟩ := List.exists_mem_of_ne_nil _ hsome
  obtain ⟨records, -, hordered, hall, hpart⟩ := hpages.findMany_page h.consistent hdb hknown hjoined
    hkeys (fun hjoins => husableKey ▸ hapart hjoins)
    (by
      intro key hkey
      obtain ⟨other, hother, rfl⟩ := List.mem_map.mp hkey
      exact hshown other (List.mem_filter.mp hother).1)
    (by
      rintro known ⟨⟩ pair hpair
      exact hshown _ (hcursor pair hpair))
  exact ⟨records, hall, hordered, hpart⟩

/-- A table with a primary key of two columns. -/
def gridTables : List TableDecl :=
  [{ name := "Grid"
     columns := [{ name := "a", type := .integer }, { name := "b", type := .integer }]
     primaryKey := ["a", "b"] }]

/-- Four points of a grid. -/
def gridRows : Database :=
  [("Grid", [[("a", .integer 1), ("b", .integer 1)], [("a", .integer 1), ("b", .integer 2)],
    [("a", .integer 2), ("b", .integer 1)], [("a", .integer 2), ("b", .integer 2)]])]

/-- After the first point of the grid a page holds a point that exceeds it in both columns. -/
theorem composite_cursor_page_grid :
    let args : FindArgs := { orderBy := some (.many [[("a", .plain .ascending)],
      [("b", .plain .ascending)]]) }
    let cursor : Cursor := [("a", .integer 1), ("b", .integer 1)]
    let find := fun args =>
      ((Engine.findMany ⟨Schema.ofDecls gridTables, {}⟩ "Grid" args).hold Database.source
        gridRows).result
    ∃ known, (Schema.ofDecls gridTables).table? "Grid" = some known ∧
      ∃ records : List Record, find args = .ok records ∧
        records.Pairwise (fun before after =>
          valueOrder known.keyOrder before.scalar after.scalar = .lt) ∧
        find { args with orderBy := none, take := some ((1 : Nat) : Int), cursor := some cursor } =
          .ok ((records.filter fun record => cursor.all fun pair =>
            (record.scalar pair.1).compare pair.2 == some .gt).take 1) := by
  intro args cursor find
  obtain ⟨known, hknown⟩ := Option.isSome_iff_exists.mp
    (show ((Schema.ofDecls gridTables).table? "Grid").isSome by decide +kernel)
  have hreachable : (Schema.ofDecls gridTables).Reachable := Schema.Reachable.fresh.scan gridTables
  have hname : known.name = "Grid" := hreachable.consistent.table_name hknown
  have htable : ((Schema.ofDecls gridTables).table? "Grid").map (fun table =>
      (table.key, table.hasUsableKey, table.keyOrder)) = some (["a", "b"], true,
        [⟨⟨"Grid", "a"⟩, .ascending, none⟩, ⟨⟨"Grid", "b"⟩, .ascending, none⟩]) := by
    decide +kernel
  rw [hknown, Option.map_some, Option.some_inj, Prod.mk.injEq, Prod.mk.injEq] at htable
  obtain ⟨hkey, husable, hkeyOrder⟩ := htable
  have hkeys : PutInOrder known.keyOrder known.name (gridRows.rows known.name) := by
    rw [hkeyOrder, hname]
    constructor
    case own => decide
    case ordered =>
      have hintegers : ∀ column ∈ ["a", "b"],
          Value.OneKind ((gridRows.rows "Grid").map (·.value column)) :=
        fun column hcolumn => .of_integers (by revert column; decide +kernel)
      exact fun key hkey => (hintegers _ (by revert key; decide)).ordered
    case apart => decide +kernel
  have hjoined : LeftJoined ⟨Schema.ofDecls gridTables, {}⟩ gridRows known args := by
    constructor
    case left =>
      rw [hname]
      decide +kernel
    case sorts =>
      refine sortsByOrdered_of_unsorted ?_
      rw [hname]
      decide +kernel
    case once =>
      rw [hname]
      decide +kernel
  have hwhole : args.Whole := ⟨rfl, rfl, rfl, rfl⟩
  have hcursor : ∀ pair ∈ cursor, pair.1 ∈ known.key := by
    rw [hkey]
    decide
  have hpage := composite_cursor_page hreachable rfl (Database.valid_of_entries (by decide +kernel))
    (hname ▸ hknown) (by rw [hkey]; decide) husable hkeys hwhole
    (by rw [Table.keyRequest, hkey]; rfl) (by rw [hkey, hname]; decide +kernel) hjoined
    (by rw [hkey, hname]; decide +kernel) hcursor 1
  rw [hname] at hpage
  exact ⟨known, hknown, hpage⟩

/-- The page after the first point leaves out the points that follow it in the order of the key. -/
theorem composite_cursor_skips :
    let found := fun args =>
      (((Engine.findMany ⟨Schema.ofDecls gridTables, {}⟩ "Grid" args).hold Database.source
        gridRows).result.toOption.map (List.map fun record =>
          (record.scalar "a", record.scalar "b")))
    let whole := found { orderBy := some (.many [[("a", .plain .ascending)],
      [("b", .plain .ascending)]]) }
    let next := found { take := some 1, cursor := some [("a", .integer 1), ("b", .integer 1)] }
    whole = some [(.integer 1, .integer 1), (.integer 1, .integer 2), (.integer 2, .integer 1),
        (.integer 2, .integer 2)] ∧
      found { take := some 1 } = some [(.integer 1, .integer 1)] ∧
      next = some [(.integer 2, .integer 2)] ∧
      next ≠ whole.map fun keys => (keys.drop 1).take 1 := by
  decide +kernel

/-! ### Descending order -/

section Descending

variable {table column : String} {records : List Record}
  (hordered : records.Pairwise fun before after =>
    valueOrder [⟨⟨table, column⟩, .descending, none⟩] before.scalar after.scalar = .lt)
  (hpresent : ∀ record ∈ records, record.scalar column ≠ .null)

include hordered hpresent

/-- In descending order the records after the cursor of a record are those before it. -/
theorem filter_before {before after : List Record} {last : Record}
    (hrecords : records = before ++ last :: after) :
    (records.filter fun record => precededBy (some (last.cursor column)) record.scalar) = before := by
  subst hrecords
  have hlast : last.scalar column ≠ .null := hpresent last (by simp)
  obtain ⟨-, hrest, hcross⟩ := List.pairwise_append.mp hordered
  have hfollows := (List.pairwise_cons.mp hrest).1
  have hbefore : ∀ record ∈ before,
      precededBy (some (last.cursor column)) record.scalar = true := by
    intro record hrecord
    have hgreater := compare_of_descending (hcross record hrecord last List.mem_cons_self)
      (hpresent record (List.mem_append_left _ hrecord)) hlast
    rw [precededBy_cursor, hgreater]
    rfl
  have hself : precededBy (some (last.cursor column)) last.scalar = false := by
    rw [precededBy_cursor]
    exact beq_eq_false_iff_ne.mpr (Value.compare_self_ne_gt _)
  have hafter : ∀ record ∈ after,
      precededBy (some (last.cursor column)) record.scalar = false := by
    intro record hrecord
    have hgreater := compare_of_descending (hfollows record hrecord) hlast
      (hpresent record (by simp [hrecord]))
    rw [precededBy_cursor, Value.compare_swap, hgreater]
    rfl
  rw [List.filter_append, List.filter_eq_self.mpr hbefore, List.filter_cons_of_neg (by simp [hself]),
    List.filter_eq_nil_iff.mpr (by simpa using hafter), List.append_nil]

end Descending

/-- **A page in descending order.**  Over a table whose primary key is one column that puts its rows
in descending order, none of them null, a page after the cursor of a record holds the first of the
records before it. -/
theorem descending_cursor_page {schema : Schema} (h : schema.Reachable) {settings : Settings}
    (hmost : settings.maxTake = none) {db : Database} (hdb : db.Valid) {table : Table}
    (hknown : schema.table? table.name = some table) {column : String} (hkey : table.key = [column])
    (hcolumn : table.hasColumn column = true)
    (hkeys : PutInOrder [⟨⟨table.name, column⟩, .descending, none⟩] table.name
      (db.rows table.name))
    (hpresent : ∀ row ∈ db.rows table.name, row.value column ≠ .null) {args : FindArgs}
    (hwhole : args.Whole) (horder : args.orderBy = some (.by column .descending))
    (hshown : column ∈ (schema.shape table.name args.selected args.included args.omitted).fields)
    (hjoined : LeftJoined ⟨schema, settings⟩ db table args) (size : Nat) :
    let find := fun args =>
      ((Engine.findMany ⟨schema, settings⟩ table.name args).hold Database.source db).result
    ∃ records : List Record, find args = .ok records ∧
      ∀ before last after, records = before ++ last :: after →
        find { args with take := some (size : Int), cursor := some (last.cursor column) } =
          .ok (before.take size) := by
  intro find
  have hpage := fun cursor => @column_page schema h settings hmost db hdb table hknown column hkey
    hcolumn .descending hkeys hpresent args hwhole horder hshown hjoined size cursor
  obtain ⟨records, hpresent, hordered, hall, -⟩ := hpage none (by rintro known ⟨⟩)
  refine ⟨records, hall, fun before last after hrecords => ?_⟩
  obtain ⟨others, -, -, hothers, hpart⟩ := hpage (some (last.cursor column)) (by
    rintro known ⟨⟩ pair hpair
    rw [List.mem_singleton.mp hpair])
  cases hall.symm.trans hothers
  rw [filter_before hordered hpresent hrecords] at hpart
  exact hpart

/-- A table of numbered items. -/
def itemTables : List TableDecl :=
  [{ name := "Item", columns := [{ name := "id", type := .integer, primary := true }] }]

/-- Four items. -/
def itemRows : Database :=
  [("Item", [[("id", .integer 1)], [("id", .integer 2)], [("id", .integer 3)],
    [("id", .integer 4)]])]

/-- In descending order a page of two after an item holds the first of the items above it. -/
theorem descending_cursor_page_items :
    let args : FindArgs := { orderBy := some (.by "id" .descending) }
    let find := fun args =>
      ((Engine.findMany ⟨Schema.ofDecls itemTables, {}⟩ "Item" args).hold Database.source
        itemRows).result
    ∃ records : List Record, find args = .ok records ∧
      ∀ before last after, records = before ++ last :: after →
        find { args with take := some ((2 : Nat) : Int), cursor := some (last.cursor "id") } =
          .ok (before.take 2) := by
  intro args find
  obtain ⟨known, hknown⟩ := Option.isSome_iff_exists.mp
    (show ((Schema.ofDecls itemTables).table? "Item").isSome by decide +kernel)
  have hreachable : (Schema.ofDecls itemTables).Reachable := Schema.Reachable.fresh.scan itemTables
  have hname : known.name = "Item" := hreachable.consistent.table_name hknown
  have htable : ((Schema.ofDecls itemTables).table? "Item").map (fun table =>
      (table.key, table.hasColumn "id")) = some (["id"], true) := by decide +kernel
  rw [hknown, Option.map_some, Option.some_inj, Prod.mk.injEq] at htable
  have hkeys : PutInOrder [⟨⟨known.name, "id"⟩, .descending, none⟩] known.name
      (itemRows.rows known.name) := by
    rw [hname]
    constructor
    case own => decide
    case ordered =>
      exact List.forall_mem_singleton.mpr (Value.OneKind.of_integers (by decide +kernel)).ordered
    case apart => decide +kernel
  have hjoined : LeftJoined ⟨Schema.ofDecls itemTables, {}⟩ itemRows known args := by
    constructor
    case left =>
      rw [hname]
      decide +kernel
    case sorts =>
      refine sortsByOrdered_of_unsorted ?_
      rw [hname]
      decide +kernel
    case once =>
      rw [hname]
      decide +kernel
  have hpage := descending_cursor_page hreachable rfl
    (Database.valid_of_entries (by decide +kernel)) (hname ▸ hknown) htable.1 htable.2 hkeys
    (by rw [hname]; decide +kernel) ⟨rfl, rfl, rfl, rfl⟩ rfl (by rw [hname]; decide +kernel) hjoined 2
  rwa [hname] at hpage

/-- In descending order the page after the first two items shows the first item once more, and not
the items that follow. -/
theorem descending_cursor_repeats :
    let found := fun args =>
      (((Engine.findMany ⟨Schema.ofDecls itemTables, {}⟩ "Item" args).hold Database.source
        itemRows).result.toOption.map (List.map fun record => record.scalar "id"))
    let whole := found { orderBy := some (.by "id" .descending) }
    let first := found { orderBy := some (.by "id" .descending), take := some 2 }
    let next := found { orderBy := some (.by "id" .descending), take := some 2
                        cursor := some [("id", .integer 3)] }
    whole = some [.integer 4, .integer 3, .integer 2, .integer 1] ∧
      first = some [.integer 4, .integer 3] ∧ next = some [.integer 4] ∧
      next ≠ whole.map fun keys => (keys.drop 2).take 2 := by
  decide +kernel

end NestedQuery
