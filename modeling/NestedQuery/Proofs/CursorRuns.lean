import NestedQuery.Proofs.CursorPages
import NestedQuery.Proofs.Reachability
import NestedQuery.Proofs.RecordWindows

/-!
# Reading by cursor

A reader asks for page after page, each time after the last record that it has
seen, until a page is empty.  In ascending order of a key of one column the
pages are the unpaged result, cut into pieces, where values that cannot be put
in order do not sort the related records of a page otherwise than those of the
whole.  With a key of several columns, or in descending order, the cursor keeps
other records than those that follow.
-/

namespace NestedQuery

variable {schema : Schema} {db : Database} {engine : Engine}

/-! ### Requests in the order of columns -/

/-- An ordering by columns of a table is that of their sort keys, whatever is joined. -/
theorem sortKeys_of_columns {table : Table} (hknown : schema.table? table.name = some table)
    {order : SortRequest} {columns : List String} {direction : Direction}
    (horder : order.entries = columns.map fun column => [(column, .plain direction)])
    (hcolumns : ∀ column ∈ columns, table.hasColumn column = true) (joined : JoinedTables) :
    schema.sortKeys table.name table.name (some order) joined =
      columns.map fun column => ⟨⟨table.name, column⟩, direction, none⟩ := by
  have hkey : ∀ column ∈ columns,
      schema.keySortKeys table table.name joined column (.plain direction) =
        [⟨⟨table.name, column⟩, direction, none⟩] := by
    intro column hcolumn
    unfold Schema.keySortKeys
    rw [if_pos (hcolumns column hcolumn)]
    rfl
  simp only [Schema.sortKeys, hknown, horder, List.flatMap_map, List.flatMap_cons,
    List.flatMap_nil, List.append_nil]
  rw [List.flatMap_congr hkey, List.map_eq_flatMap]

/-- A request for all records in an order asked for, and a page of it. -/
theorem pages_asked {table : Table} {args : FindArgs} {keys : List SortKey}
    (hmost : engine.settings.maxTake = none) (hwhole : args.Whole)
    (hkeys : ∀ joined, engine.schema.sortKeys table.name table.name args.orderBy joined = keys)
    (hsome : keys ≠ []) (cursor : Option Cursor) (size : Nat) :
    Pages engine table keys args { args with take := some (size : Int), cursor := cursor } size := by
  have hasked : keys.isEmpty = false := by
    rwa [List.isEmpty_eq_false_iff]
  refine ⟨hmost, hwhole, rfl, fun joined => ?_, fun joined => ?_⟩ <;>
    simp [Engine.baseOrder, hkeys, hasked]

/-- A request for all records in the order of the primary key, and a page of it after a cursor that
asks for no order. -/
theorem pages_by_key {table : Table} {args : FindArgs}
    (hmost : engine.settings.maxTake = none) (hwhole : args.Whole)
    (hkeys : ∀ joined, engine.schema.sortKeys table.name table.name args.orderBy joined =
      table.keyOrder) (cursor : Cursor) (size : Nat) (hsome : table.keyOrder ≠ []) :
    Pages engine table table.keyOrder args
      { args with orderBy := none, take := some (size : Int), cursor := some cursor } size := by
  have hasked : table.keyOrder.isEmpty = false := by
    rwa [List.isEmpty_eq_false_iff]
  refine ⟨hmost, hwhole, rfl, fun joined => ?_, fun joined => ?_⟩
  · simp [Engine.baseOrder, hkeys, hasked]
  · simp [Engine.baseOrder, Schema.sortKeys]

/-! ### Columns that identify rows -/

theorem SortKey.directed_of_eq {key : SortKey} {a b : Value} (h : a.sortOrder b = .eq) :
    key.directed a b = .eq := by
  unfold SortKey.directed
  rw [h]
  cases key.direction <;> rfl

theorem valueOrder_column (key : SortKey) (one other : String → Value) :
    valueOrder [key] one other = key.order (one key.column.name) (other key.column.name) := by
  rw [valueOrder, List.map_singleton, List.map_singleton, sortOrder]
  cases key.order (one key.column.name) (other key.column.name) <;> rfl

/-- The keys of the values of a column that puts rows in order tell the rows apart. -/
theorem PutInOrder.apartBy {key : SortKey} {table : String} {rows : List Row}
    (h : PutInOrder [key] table rows) (hvalid : ∀ row ∈ rows, row.Valid)
    (hpresent : ∀ row ∈ rows, row.value key.column.name ≠ .null) :
    ApartBy [key.column.name] rows := by
  constructor
  case present => exact fun row hrow => ⟨_, List.mem_singleton.mpr rfl, hpresent row hrow⟩
  case apart =>
    have hkeys : (rows.map fun row => (row.value key.column.name).key).Nodup := by
      refine List.pairwise_map.mpr (h.apart.imp_of_mem ?_)
      intro one other hone hother hne hsame
      rw [valueOrder_column, SortKey.order_of_ne_null (hpresent one hone) (hpresent other hother)]
        at hne
      refine hne (SortKey.directed_of_eq ?_)
      unfold Value.sortOrder
      cases hvalue : (one.value key.column.name).compare (other.value key.column.name) with
      | none => rfl
      | some order =>
          have heq := Value.sqlEq_of_key_eq (hvalid one hone _) (hvalid other hother _)
            (Value.sqlEq_self_of_compare hvalue) hsame
          rw [← hvalue, beq_iff_eq.mp heq]
          rfl
    exact hkeys

/-- With the primary key in one column, a page in the order of the key lies in the whole. -/
theorem column_page {schema : Schema} (h : schema.Reachable) {settings : Settings}
    (hmost : settings.maxTake = none) {db : Database} (hdb : db.Valid) {table : Table}
    (hknown : schema.table? table.name = some table) {column : String} (hkey : table.key = [column])
    (hcolumn : table.hasColumn column = true) {direction : Direction}
    (hkeys : PutInOrder [⟨⟨table.name, column⟩, direction, none⟩] table.name (db.rows table.name))
    (hpresent : ∀ row ∈ db.rows table.name, row.value column ≠ .null) {args : FindArgs}
    (hwhole : args.Whole) (horder : args.orderBy = some (.by column direction))
    (hshown : column ∈ (schema.shape table.name args.selected args.included args.omitted).fields)
    (hjoined : LeftJoined ⟨schema, settings⟩ db table args) (size : Nat) {cursor : Option Cursor}
    (hcursor : ∀ known, cursor = some known → ∀ pair ∈ known, pair.1 = column) :
    let find := fun args =>
      ((Engine.findMany ⟨schema, settings⟩ table.name args).hold Database.source db).result
    ∃ records : List Record, (∀ record ∈ records, record.scalar column ≠ .null) ∧
      records.Pairwise (fun before after =>
        valueOrder [⟨⟨table.name, column⟩, direction, none⟩] before.scalar after.scalar = .lt) ∧
      find args = .ok records ∧
      find { args with take := some (size : Int), cursor := cursor } =
        .ok ((records.filter fun record => precededBy cursor record.scalar).take size) := by
  intro find
  have hsort : ∀ joined, schema.sortKeys table.name table.name args.orderBy joined =
      [⟨⟨table.name, column⟩, direction, none⟩] := by
    intro joined
    rw [horder]
    exact @sortKeys_of_columns schema table hknown _ [column] _ rfl
      (List.forall_mem_singleton.mpr hcolumn) joined
  have husable : schema.usableKey table.name = [column] := by
    rw [Schema.usableKey, hknown]
    simp [Table.hasUsableKey, hkey, hcolumn]
  have hpages := @pages_asked ⟨schema, settings⟩ table args _ hmost hwhole hsort
    (List.cons_ne_nil _ _) cursor size
  obtain ⟨records, hrows, hordered, hall, hpart⟩ := hpages.findMany_page h.consistent hdb hknown
    hjoined hkeys (fun _ => husable ▸ hkeys.apartBy (hdb table.name) hpresent)
    (List.forall_mem_singleton.mpr hshown)
    (fun known hsome pair hpair => hcursor known hsome pair hpair ▸ hshown)
  refine ⟨records, fun record hrecord => ?_, hordered, hall, hpart⟩
  obtain ⟨row, hrow, hfields⟩ := hrows record hrecord
  rw [hfields column hshown]
  exact hpresent row hrow

/-- A column identifies rows: its values are distinct, and all integers or all texts. -/
structure Identifies (column : String) (rows : List Row) : Prop where
  distinct : (rows.map (·.value column)).Nodup
  kind : (∀ row ∈ rows, ∃ n, row.value column = .integer n) ∨
    ∀ row ∈ rows, ∃ s, row.value column = .text s

namespace Identifies

variable {column : String} {rows : List Row} (h : Identifies column rows)

include h

theorem ne_null {row : Row} (hrow : row ∈ rows) : row.value column ≠ .null := by
  rcases h.kind with hintegers | htexts
  · obtain ⟨n, hn⟩ := hintegers row hrow
    rw [hn]
    exact Value.noConfusion
  · obtain ⟨s, hs⟩ := htexts row hrow
    rw [hs]
    exact Value.noConfusion

theorem oneKind : Value.OneKind (rows.map (·.value column)) := by
  rcases h.kind with hintegers | htexts
  · exact Or.inl (List.forall_mem_map.mpr fun row hrow _ => hintegers row hrow)
  · exact Or.inr (Or.inl (List.forall_mem_map.mpr fun row hrow _ => htexts row hrow))

/-- Values of the column are equal only if they are the same. -/
theorem eq_of_sortOrder {one other : Row} (hone : one ∈ rows) (hother : other ∈ rows)
    (heq : (one.value column).sortOrder (other.value column) = .eq) :
    one.value column = other.value column := by
  rcases h.kind with hintegers | htexts
  · obtain ⟨n, hn⟩ := hintegers one hone
    obtain ⟨m, hm⟩ := hintegers other hother
    rw [hn, hm] at heq ⊢
    have hcompare : Ord.compare n m = .eq := heq
    rw [Std.LawfulEqOrd.eq_of_compare hcompare]
  · obtain ⟨s, hs⟩ := htexts one hone
    obtain ⟨t, ht⟩ := htexts other hother
    rw [hs, ht] at heq ⊢
    have hcompare : Ord.compare s t = .eq := heq
    rw [Std.LawfulEqOrd.eq_of_compare hcompare]

/-- In either direction the column puts the rows in order. -/
theorem putInOrder (table : String) (direction : Direction) :
    PutInOrder [⟨⟨table, column⟩, direction, none⟩] table rows := by
  constructor
  case own => exact List.forall_mem_singleton.mpr rfl
  case ordered => exact List.forall_mem_singleton.mpr h.oneKind.ordered
  case apart =>
    have hdistinct := List.pairwise_map.mp h.distinct
    refine hdistinct.imp_of_mem ?_
    intro one other hone hother hne heq
    refine hne (h.eq_of_sortOrder hone hother ?_)
    rw [valueOrder_column, SortKey.order_of_ne_null (h.ne_null hone) (h.ne_null hother)] at heq
    cases direction with
    | ascending => exact heq
    | descending => exact Ordering.swap_eq_eq.mp heq

end Identifies

/-! ### Reading ascending -/

/-- The cursor after a record, by the value of one column. -/
def Record.cursor (record : Record) (column : String) : Cursor :=
  [(column, record.scalar column)]

/-- The pages that a reader finds one after the other, from a cursor on up to the first empty one.
The cursor of a page is that after the last record of the page before. -/
inductive PagesThrough (find : Option Cursor → Except QueryError (List Record)) (column : String) :
    Option Cursor → List (List Record) → Prop
  | last {cursor : Option Cursor} (h : find cursor = .ok []) : PagesThrough find column cursor []
  | more {cursor : Option Cursor} {page : List Record} {last : Record} {rest : List (List Record)}
      (h : find cursor = .ok page) (hlast : page.getLast? = some last)
      (hrest : PagesThrough find column (some (last.cursor column)) rest) :
      PagesThrough find column cursor (page :: rest)

/-- Whether a record comes after the cursor of another is a matter of one comparison. -/
theorem precededBy_cursor (record last : Record) (column : String) :
    precededBy (some (last.cursor column)) record.scalar =
      ((record.scalar column).compare (last.scalar column) == some .gt) :=
  Bool.and_true _

/-- No value comes after itself. -/
theorem Value.compare_self_ne_gt (value : Value) : value.compare value ≠ some .gt := by
  intro hgt
  have hswap := Value.compare_swap value value
  rw [hgt] at hswap
  cases hswap

/-- Values are sorted strictly only if they compare. -/
theorem Value.compare_of_sortOrder {a b : Value} {order : Ordering} (h : a.sortOrder b = order)
    (hne : order ≠ .eq) : a.compare b = some order := by
  unfold Value.sortOrder at h
  cases hcompare : a.compare b with
  | none =>
      rw [hcompare] at h
      exact absurd h.symm hne
  | some found =>
      rw [hcompare] at h
      exact congrArg some h

/-- In ascending order the value of an earlier record is less. -/
theorem compare_of_ascending {table column : String} {one other : Record}
    (horder : valueOrder [⟨⟨table, column⟩, .ascending, none⟩] one.scalar other.scalar = .lt)
    (hone : one.scalar column ≠ .null) (hother : other.scalar column ≠ .null) :
    (one.scalar column).compare (other.scalar column) = some .lt := by
  rw [valueOrder_column, SortKey.order_of_ne_null hone hother] at horder
  exact Value.compare_of_sortOrder horder (by decide)

/-- In descending order it is greater. -/
theorem compare_of_descending {table column : String} {one other : Record}
    (horder : valueOrder [⟨⟨table, column⟩, .descending, none⟩] one.scalar other.scalar = .lt)
    (hone : one.scalar column ≠ .null) (hother : other.scalar column ≠ .null) :
    (one.scalar column).compare (other.scalar column) = some .gt := by
  rw [valueOrder_column, SortKey.order_of_ne_null hone hother] at horder
  exact Value.compare_of_sortOrder (Ordering.swap_eq_lt.mp horder) (by decide)

section Ascending

variable {table column : String} {records : List Record}
  (hordered : records.Pairwise fun before after =>
    valueOrder [⟨⟨table, column⟩, .ascending, none⟩] before.scalar after.scalar = .lt)
  (hpresent : ∀ record ∈ records, record.scalar column ≠ .null)

include hordered hpresent

/-- The records after the cursor of a record are those that follow it. -/
theorem filter_after {before after : List Record} {last : Record}
    (hrecords : records = before ++ last :: after) :
    (records.filter fun record => precededBy (some (last.cursor column)) record.scalar) = after := by
  subst hrecords
  have hlast : last.scalar column ≠ .null := hpresent last (by simp)
  obtain ⟨-, hrest, hcross⟩ := List.pairwise_append.mp hordered
  have hfollows := (List.pairwise_cons.mp hrest).1
  have hbefore : ∀ record ∈ before,
      precededBy (some (last.cursor column)) record.scalar = false := by
    intro record hrecord
    have hless := compare_of_ascending (hcross record hrecord last List.mem_cons_self)
      (hpresent record (List.mem_append_left _ hrecord)) hlast
    rw [precededBy_cursor, hless]
    rfl
  have hself : precededBy (some (last.cursor column)) last.scalar = false := by
    rw [precededBy_cursor]
    exact beq_eq_false_iff_ne.mpr (Value.compare_self_ne_gt _)
  have hafter : ∀ record ∈ after,
      precededBy (some (last.cursor column)) record.scalar = true := by
    intro record hrecord
    have hless := compare_of_ascending (hfollows record hrecord) hlast
      (hpresent record (by simp [hrecord]))
    rw [precededBy_cursor, Value.compare_swap, hless]
    rfl
  rw [List.filter_append, List.filter_eq_nil_iff.mpr (by simpa using hbefore), List.nil_append,
    List.filter_cons_of_neg (by simp [hself]), List.filter_eq_self.mpr hafter]

/-- Pages by cursor are the records cut into pieces.  A reader who finds the beginning of `rest`, an
end of the records, goes on through it. -/
theorem exists_pagesThrough {find : Option Cursor → Except QueryError (List Record)} {size : Nat}
    (hsize : 1 ≤ size) (hfirst : find none = .ok (records.take size))
    (hnext : ∀ last : Record, find (some (last.cursor column)) =
      .ok ((records.filter fun record =>
        precededBy (some (last.cursor column)) record.scalar).take size)) :
    ∃ pages, PagesThrough find column none pages ∧ pages.flatten = records := by
  have hrun : ∀ n, ∀ rest before cursor, rest.length ≤ n → records = before ++ rest →
      find cursor = .ok (rest.take size) →
      ∃ pages, PagesThrough find column cursor pages ∧ pages.flatten = rest := by
    intro n
    induction n with
    | zero =>
        intro rest before cursor hlength hrecords hfound
        have hnone : rest = [] := List.length_eq_zero_iff.mp (Nat.le_zero.mp hlength)
        subst hnone
        exact ⟨[], PagesThrough.last (hfound.trans (by rw [List.take_nil])), rfl⟩
    | succ n ih =>
        intro rest before cursor hlength hrecords hfound
        cases hpage : (rest.take size).getLast? with
        | none =>
            have hempty := List.getLast?_eq_none_iff.mp hpage
            rw [hempty] at hfound
            refine ⟨[], PagesThrough.last hfound, ?_⟩
            rcases List.take_eq_nil_iff.mp hempty with hzero | hnone
            · omega
            · exact hnone.symm
        | some last =>
            obtain ⟨start, hstart⟩ := List.getLast?_eq_some_iff.mp hpage
            have hsplit : records = (before ++ start) ++ last :: rest.drop size := by
              calc records = before ++ (rest.take size ++ rest.drop size) := by
                    rw [List.take_append_drop, hrecords]
                _ = (before ++ start) ++ last :: rest.drop size := by
                    rw [hstart]
                    simp
            have hshorter : (rest.drop size).length ≤ n := by
              rw [List.length_drop]
              omega
            obtain ⟨pages, hpages, hflatten⟩ := ih (rest.drop size) ((before ++ start) ++ [last])
              (some (last.cursor column)) hshorter (by simpa using hsplit)
              (by rw [hnext last, filter_after hordered hpresent hsplit])
            refine ⟨rest.take size :: pages, PagesThrough.more hfound hpage hpages, ?_⟩
            rw [List.flatten_cons, hflatten, List.take_append_drop]
  exact hrun records.length records [] none (Nat.le_refl _) rfl hfirst

end Ascending

/-- **Cursor pages tile the result.**  Under settings without a greatest page, over a table whose
primary key is one column of distinct integers or distinct texts, take a request for all records in
ascending order of the key, with any filter, either strategy and left joins.  Reading it page by
page, each page after the last key of the page before, comes to an end; the pages one after the
other are the result of the request, and no record stands in it twice. -/
theorem cursor_pages_tile {schema : Schema} (h : schema.Reachable) {settings : Settings}
    (hmost : settings.maxTake = none) {db : Database} (hdb : db.Valid) {table : Table}
    (hknown : schema.table? table.name = some table) {column : String} (hkey : table.key = [column])
    (hcolumn : table.hasColumn column = true)
    (hidentifies : Identifies column (db.rows table.name)) {args : FindArgs} (hwhole : args.Whole)
    (horder : args.orderBy = some (.by column .ascending))
    (hshown : column ∈ (schema.shape table.name args.selected args.included args.omitted).fields)
    (hjoined : LeftJoined ⟨schema, settings⟩ db table args) {size : Nat} (hsize : 1 ≤ size) :
    let find := fun args =>
      ((Engine.findMany ⟨schema, settings⟩ table.name args).hold Database.source db).result
    ∃ records pages, find args = .ok records ∧
      PagesThrough (fun cursor => find { args with take := some (size : Int), cursor := cursor })
        column none pages ∧
      pages.flatten = records ∧ (records.map (·.scalar column)).Nodup := by
  intro find
  have hpage := fun cursor => @column_page schema h settings hmost db hdb table hknown column hkey
    hcolumn .ascending (hidentifies.putInOrder table.name .ascending)
    (fun row hrow => hidentifies.ne_null hrow) args hwhole horder hshown hjoined size cursor
  obtain ⟨records, hpresent, hordered, hall, hfirst⟩ := hpage none (by rintro known ⟨⟩)
  have hnext : ∀ last : Record,
      find { args with take := some (size : Int), cursor := some (last.cursor column) } =
        .ok ((records.filter fun record =>
          precededBy (some (last.cursor column)) record.scalar).take size) := by
    intro last
    obtain ⟨others, -, -, hothers, hpart⟩ := hpage (some (last.cursor column)) (by
      rintro known ⟨⟩ pair hpair
      rw [List.mem_singleton.mp hpair])
    cases hall.symm.trans hothers
    exact hpart
  have hnone : (records.filter fun record => precededBy none record.scalar) = records :=
    List.filter_eq_self.mpr fun _ _ => rfl
  rw [hnone] at hfirst
  obtain ⟨pages, hrun, hflatten⟩ := @exists_pagesThrough table.name column records hordered hpresent
    (fun cursor => find { args with take := some (size : Int), cursor := cursor }) size hsize hfirst
    hnext
  refine ⟨records, pages, hall, hrun, hflatten, List.pairwise_map.mpr (hordered.imp_of_mem ?_)⟩
  intro one other hone hother hless hsame
  have hcompare := compare_of_ascending hless (hpresent one hone) (hpresent other hother)
  rw [hsame] at hcompare
  have hswap := Value.compare_swap (other.scalar column) (other.scalar column)
  rw [hcompare] at hswap
  cases hswap

/-- The authors of the blog are read one by one, with posts, and the author of each post once
more. -/
theorem cursor_pages_tile_blog :
    let args : FindArgs :=
      { included := some [("posts", .relation { included := some [("author", .flag true)] })]
        orderBy := some (.by "id" .ascending) }
    let find := fun args =>
      ((Engine.findMany ⟨Schema.ofDecls blogTables, {}⟩ "Author" args).hold Database.source
        blogRows).result
    ∃ records pages, find args = .ok records ∧
      PagesThrough (fun cursor => find { args with take := some ((1 : Nat) : Int), cursor := cursor })
        "id" none pages ∧
      pages.flatten = records ∧ (records.map (·.scalar "id")).Nodup := by
  intro args
  obtain ⟨known, hknown, hname⟩ := exists_blog_author
  have htable : ((Schema.ofDecls blogTables).table? "Author").map (fun table =>
      (table.key, table.hasColumn "id")) = some (["id"], true) := by decide +kernel
  rw [hknown, Option.map_some, Option.some_inj, Prod.mk.injEq] at htable
  have hjoined : LeftJoined ⟨Schema.ofDecls blogTables, {}⟩ blogRows known args := by
    constructor
    case left =>
      rw [hname]
      decide +kernel
    case sorts =>
      refine sortsByOrdered_of_unsorted ?_
      rw [hname]
      decide +kernel
    case once =>
      rw [hname]
      decide +kernel
  have hidentifies : Identifies "id" (blogRows.rows known.name) := by
    have hvalues : (blogRows.rows known.name).map (·.value "id") = [.integer 1, .integer 2] := by
      rw [hname]
      decide +kernel
    refine ⟨hvalues ▸ by decide, Or.inl fun row hrow => ?_⟩
    have hvalue : row.value "id" ∈ [Value.integer 1, .integer 2] :=
      hvalues ▸ List.mem_map_of_mem hrow
    rcases List.mem_pair.mp hvalue with hone | htwo
    · exact ⟨1, hone⟩
    · exact ⟨2, htwo⟩
  have hvalid : blogRows.Valid := Database.valid_of_entries (by decide +kernel)
  have hwhole : args.Whole := ⟨rfl, rfl, rfl, rfl⟩
  have htile := cursor_pages_tile reachable_blog rfl hvalid (hname ▸ hknown) htable.1 htable.2
    hidentifies hwhole rfl (by rw [hname]; decide +kernel) hjoined (Nat.le_refl 1)
  rwa [hname] at htile

/-! ### Pages with ranks that cannot be put in order -/

/-- An author with posts, as a request finds it. -/
def rankedAuthor (id : Int) (posts : List (Int × Value)) : Record :=
  [("id", .scalar (.integer id)), ("posts", .list (posts.map fun (post, rank) =>
    [("authorId", .scalar (.integer id)), ("id", .scalar (.integer post)), ("rank", .scalar rank)]))]

/-- Read one by one, the first author has its posts the other way round than among all authors,
where the posts of the second one equal both of them.  All posts are in order as they stand, next to
the equal ones between them; the two of the first author alone are not. -/
theorem cursor_pages_resort_related :
    let find := fun args => ((Engine.findMany ⟨Schema.ofDecls rankedTables, {}⟩ "Author" args).hold
      Database.source rankedRows).result
    let args := { rankedPosts none with orderBy := some (.by "id" .ascending) }
    ∃ records pages, find args = .ok records ∧
      PagesThrough (fun cursor => find { args with take := some 1, cursor := cursor }) "id" none pages ∧
      rankedIds (.ok records) = some [some [.integer 1, .integer 4], some [.integer 2, .integer 3]] ∧
      rankedIds (.ok pages.flatten) =
        some [some [.integer 4, .integer 1], some [.integer 2, .integer 3]] := by
  intro find args
  let page := fun cursor => { args with take := some 1, cursor := cursor }
  let one : Int × Value := (1, .integer 9007199254740993)
  let four : Int × Value := (4, .integer 9007199254740992)
  let second := rankedAuthor 2 [(2, .float (.ofInt 9007199254740992)),
    (3, .float (.ofInt 9007199254740992))]
  have hwhole : find args = .ok [rankedAuthor 1 [one, four], second] := rfl
  have hpage : find (page none) = .ok [rankedAuthor 1 [four, one]] := rfl
  have hrest : find (page (some [("id", .integer 1)])) = .ok [second] := rfl
  have hnone : find (page (some [("id", .integer 2)])) = .ok [] := rfl
  exact ⟨_, [[rankedAuthor 1 [four, one]], [second]], hwhole,
    .more hpage rfl (.more hrest rfl (.last hnone)), rfl, rfl⟩

end NestedQuery
