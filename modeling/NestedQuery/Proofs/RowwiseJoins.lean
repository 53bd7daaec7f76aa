import NestedQuery.Proofs.BaseRows

/-!
# Joins that work row by row

Left and inner joins take each row on the left for itself.  So the rows of a
statement that joins in no other way fall into parts, one for each row of the
base table: that row beside its matches in every joined table in turn.  The
statement then keeps some of these rows and puts them in order.
-/

namespace NestedQuery

variable {db : Database}

/-! ### Extensions of a row -/

/-- A row beside its matches in every joined table in turn. -/
def extensions (db : Database) : List Join → Bindings → List Bindings
  | [], row => [row]
  | join :: rest, row =>
    (besides (accepts (join.on.truth db)) join.kind join.label (db.rows join.table) row).flatMap
      (extensions db rest)

/-- The join adds no row of the right side on its own. -/
def Rowwise (join : Join) : Prop :=
  join.kind = .left ∨ join.kind = .inner

/-- Joining rows one table after the other extends each of them. -/
theorem joinAll_rowwise : ∀ {joins : List Join} {own : List String} {rows : List Bindings},
    joinsScoped joins own [] → (∀ join ∈ joins, Rowwise join) →
    (∀ row ∈ rows, Dict.names row = own) →
    joinAll db joins own rows [] = .ok (rows.flatMap (extensions db joins))
  | [], own, rows, hscoped, hkinds, hrows => by
      have hself : rows.flatMap (extensions db []) = rows := List.flatMap_singleton' rows
      rw [hself]
      rfl
  | ⟨kind, table, label, on⟩ :: rest, own, rows, hscoped, hkinds, hrows => by
      rw [joinsScoped] at hscoped
      obtain ⟨hon, hrest⟩ := hscoped
      obtain ⟨hkind, hothers⟩ := List.forall_mem_cons.mp hkinds
      have heval : ∀ row ∈ rows, ∀ other ∈ db.rows table,
          ∃ value, on.eval db (row ++ [(label, some other)] ++ []) = .ok value := by
        intro row hrow other _
        refine hon.eval_ok db (bound_append ?_ (List.nil_subset _))
        rw [Dict.names_append, hrows row hrow]
        rfl
      have hnames := fun row => @names_of_mem_join (accepts (on.truth db)) kind label own rows
        (db.rows table) hrows row
      have hnone : unpaired (accepts (on.truth db)) kind label own rows (db.rows table) = [] := by
        rcases hkind with hkind | hkind
        · have hleft : kind = .left := hkind
          rw [hleft]
          rfl
        · have hinner : kind = .inner := hkind
          rw [hinner]
          rfl
      have hjoin := @joinAll_cons db kind table label on rest own rows [] heval
      simp only [List.append_nil] at hjoin
      rw [hnone, List.append_nil] at hjoin
      rw [hnone, List.append_nil] at hnames
      rw [hjoin, joinAll_rowwise hrest hothers hnames, List.flatMap_assoc]
      rfl

/-- An extension binds the labels of the joins to rows of their tables, or to none. -/
def Extends (db : Database) (join : Join) (pair : String × Option Row) : Prop :=
  pair.1 = join.label ∧ (pair.2 = none ∨ ∃ row ∈ db.rows join.table, pair.2 = some row)

/-- What is made of a row is the row beside one of the table, or beside none. -/
theorem mem_besides {accept : Bindings → Bool} {kind : JoinKind} {label : String}
    {right : List Row} {row tuple : Bindings} (h : tuple ∈ besides accept kind label right row) :
    ∃ found, tuple = row ++ [(label, found)] ∧
      (found = none ∨ ∃ other ∈ right, found = some other) := by
  unfold besides at h
  dsimp only at h
  split at h
  · exact ⟨none, List.mem_singleton.mp h, Or.inl rfl⟩
  · obtain ⟨other, hother, rfl⟩ := List.mem_map.mp h
    exact ⟨some other, rfl, Or.inr ⟨other, (List.mem_filter.mp hother).1, rfl⟩⟩

/-- An extension of a row begins with it. -/
theorem extension_begins : ∀ {joins : List Join} {row tuple : Bindings},
    tuple ∈ extensions db joins row →
    ∃ more, tuple = row ++ more ∧ List.Forall₂ (Extends db) joins more
  | [], row, tuple, h => by
      rw [extensions] at h
      exact ⟨[], by rw [List.mem_singleton.mp h, List.append_nil], List.Forall₂.nil⟩
  | join :: rest, row, tuple, h => by
      rw [extensions] at h
      obtain ⟨first, hfirst, htuple⟩ := List.mem_flatMap.mp h
      obtain ⟨found, rfl, hfound⟩ := mem_besides hfirst
      obtain ⟨more, rfl, hmore⟩ := extension_begins htuple
      exact ⟨(join.label, found) :: more, by rw [List.append_assoc]; rfl,
        List.Forall₂.cons ⟨rfl, hfound⟩ hmore⟩

/-- What joins put behind a row binds their labels. -/
theorem names_of_extends {joins : List Join} {more : Bindings}
    (h : List.Forall₂ (Extends db) joins more) : Dict.names more = joins.map (·.label) := by
  induction h with
  | nil => rfl
  | cons hfirst _ ih =>
      rw [Dict.names, List.map_cons, List.map_cons, hfirst.1]
      exact congrArg _ ih

/-- Under a label that no other join has, an extension has a row of the table of the join, or
none. -/
theorem lookup_extends {joins : List Join} {more : Bindings}
    (h : List.Forall₂ (Extends db) joins more) (hnodup : (joins.map (·.label)).Nodup) {join : Join}
    (hjoin : join ∈ joins) :
    more.lookup join.label = some none ∨
      ∃ row ∈ db.rows join.table, more.lookup join.label = some (some row) := by
  induction h with
  | nil => cases hjoin
  | @cons first pair rest others hfirst hrest ih =>
      obtain ⟨name, found⟩ := pair
      obtain ⟨rfl, hfound⟩ : name = first.label ∧ _ := hfirst
      rw [List.map_cons, List.nodup_cons] at hnodup
      rw [Dict.lookup_cons]
      rcases List.mem_cons.mp hjoin with rfl | hmem
      · rw [if_pos rfl]
        rcases hfound with rfl | ⟨row, hrow, rfl⟩
        · exact Or.inl rfl
        · exact Or.inr ⟨row, hrow, rfl⟩
      · rw [if_neg]
        · exact ih hnodup.2 hmem
        · intro heq
          exact hnodup.1 (heq ▸ List.mem_map_of_mem hmem)

/-- Left joins extend every row. -/
theorem extensions_ne_nil : ∀ {joins : List Join}, (∀ join ∈ joins, join.kind = .left) →
    ∀ (row : Bindings), extensions db joins row ≠ []
  | [], _, row => by
      rw [extensions]
      exact List.cons_ne_nil _ _
  | join :: rest, hkinds, row => by
      obtain ⟨hkind, hothers⟩ := List.forall_mem_cons.mp hkinds
      have hbeside : besides (accepts (join.on.truth db)) join.kind join.label
          (db.rows join.table) row ≠ [] := by
        unfold besides
        rw [hkind]
        dsimp only
        split
        · exact List.cons_ne_nil _ _
        · next hfound => simpa using hfound
      obtain ⟨first, hfirst⟩ := List.exists_mem_of_ne_nil _ hbeside
      obtain ⟨tuple, htuple⟩ := List.exists_mem_of_ne_nil _ (extensions_ne_nil hothers first)
      rw [extensions]
      exact List.ne_nil_of_mem (List.mem_flatMap.mpr ⟨first, hfirst, htuple⟩)

/-! ### The rows of a statement -/

/-- The value of a column in a row of a join; null where nothing is bound. -/
def Bindings.cell (bindings : Bindings) (column : ColumnRef) : Value :=
  ((bindings.lookup column.qualifier).join.bind (·.lookup column.name)).getD .null

/-- A column whose qualifier is bound has the value of its cell. -/
theorem Bindings.value_eq_cell {bindings : Bindings} {column : ColumnRef}
    (h : column.qualifier ∈ Dict.names bindings) :
    bindings.value column = .ok (bindings.cell column) := by
  obtain ⟨found, hfound⟩ := Option.isSome_iff_exists.mp (Dict.lookup_isSome_iff.mpr h)
  rw [Bindings.value, Bindings.cell, hfound]
  rfl

/-- The row of a table in a row of a join; one without values where nothing is bound. -/
def Bindings.rowOf (bindings : Bindings) (table : String) : Row :=
  (bindings.lookup table).join.getD []

/-- A cell is the value of its column in the row bound to the qualifier. -/
theorem Bindings.cell_eq (bindings : Bindings) (table column : String) :
    bindings.cell ⟨table, column⟩ = (bindings.rowOf table).value column := by
  unfold Bindings.cell Bindings.rowOf
  cases (bindings.lookup table).join <;> rfl

/-- Under the first name stands the row bound first. -/
theorem Bindings.rowOf_cons_self (table : String) (found : Option Row) (more : Bindings) :
    Bindings.rowOf ((table, found) :: more) table = found.getD [] := by
  simp [Bindings.rowOf]

/-- So its cells are those of that row. -/
theorem Bindings.cell_cons_self (name column : String) (row : Row) (more : Bindings) :
    Bindings.cell ((name, some row) :: more) ⟨name, column⟩ = row.value column := by
  rw [Bindings.cell_eq, Bindings.rowOf_cons_self, Option.getD_some]

/-- The order of two rows of a join under sort keys. -/
def tupleOrder (keys : List SortKey) (one other : Bindings) : Ordering :=
  sortOrder keys (keys.map fun key => one.cell key.column) (keys.map fun key => other.cell key.column)

/-- By keys of the base table joined rows are ordered as their base rows. -/
theorem tupleOrder_rowOf {keys : List SortKey} {table : String}
    (hown : ∀ key ∈ keys, key.column.qualifier = table) (one other : Bindings) :
    tupleOrder keys one other = valueOrder keys (one.rowOf table).value (other.rowOf table).value := by
  have hcells : ∀ tuple : Bindings, ∀ key ∈ keys,
      tuple.cell key.column = (tuple.rowOf table).value key.column.name := by
    intro tuple key hkey
    rw [← hown key hkey]
    exact tuple.cell_eq key.column.qualifier key.column.name
  rw [tupleOrder, valueOrder, List.map_congr_left (hcells one), List.map_congr_left (hcells other)]

/-- Joined rows that begin with base rows are ordered as these. -/
theorem tupleOrder_base {keys : List SortKey} {table : String}
    (hown : ∀ key ∈ keys, key.column.qualifier = table)
    (one other : Row) (more others : Bindings) :
    tupleOrder keys ((table, some one) :: more) ((table, some other) :: others) =
      valueOrder keys one.value other.value := by
  rw [tupleOrder_rowOf hown, Bindings.rowOf_cons_self, Bindings.rowOf_cons_self]
  rfl

/-- So they are in order if the base rows hold values in order. -/
theorem ordersOn_rowOf {keys : List SortKey} {table : String}
    (hown : ∀ key ∈ keys, key.column.qualifier = table) {rows : List Row}
    (hordered : ∀ key ∈ keys, Value.Ordered (rows.map (·.value key.column.name)))
    {tuples : List Bindings} (htuples : ∀ tuple ∈ tuples, tuple.rowOf table ∈ rows) :
    OrdersOn (tupleOrder keys) (· ∈ tuples) where
  swap _ _ _ _ := sortOrder_swap keys _ _
  trans a b c ha hb hc := by
    rw [tupleOrder_rowOf hown, tupleOrder_rowOf hown, tupleOrder_rowOf hown]
    exact (sortOrder_orders keys hordered).trans _ _ _ (htuples a ha) (htuples b hb) (htuples c hc)

/-- Rows of a join in the order that a statement asks for. -/
def inOrder (orderBy : Option (List SortKey)) (rows : List Bindings) : List Bindings :=
  match orderBy with
  | none => rows
  | some keys => stableSort (tupleOrder keys) rows

/-- Ordering rows keeps them all, whatever the order. -/
theorem inOrder_perm (orderBy : Option (List SortKey)) (rows : List Bindings) :
    (inOrder orderBy rows).Perm rows := by
  cases orderBy with
  | none => exact List.Perm.refl _
  | some keys => exact stableSort_perm _ _

/-- Rows that bind the columns of the sort keys are put in order. -/
theorem sortRows_inOrder {orderBy : Option (List SortKey)} {rows : List Bindings}
    (h : ∀ keys, orderBy = some keys → ∀ key ∈ keys, ∀ tuple ∈ rows,
      key.column.qualifier ∈ Dict.names tuple) :
    sortRows orderBy [] rows = .ok (inOrder orderBy rows) := by
  cases orderBy with
  | none => rfl
  | some keys =>
      have hvalues : ∀ tuple ∈ rows, Bindings.values (tuple ++ []) (keys.map (·.column)) =
          .ok (keys.map fun key => tuple.cell key.column) := by
        intro tuple htuple
        have hvalue : ∀ column ∈ keys.map (·.column),
            Bindings.value tuple column = .ok (tuple.cell column) := by
          intro column hcolumn
          obtain ⟨key, hkey, rfl⟩ := List.mem_map.mp hcolumn
          exact Bindings.value_eq_cell (h keys rfl key hkey tuple htuple)
        rw [List.append_nil, Bindings.values, mapM_ok hvalue, List.map_map]
        rfl
      exact sortRows_ok hvalues

/-- Rows that a test keeps stand in the order in which they stand among all rows. -/
theorem inOrder_filter {orderBy : Option (List SortKey)} {rows : List Bindings}
    (h : ∀ keys, orderBy = some keys → OrdersOn (tupleOrder keys) (· ∈ rows))
    (keep : Bindings → Bool) :
    inOrder orderBy (rows.filter keep) = (inOrder orderBy rows).filter keep := by
  cases orderBy with
  | none => rfl
  | some keys => exact (h keys rfl).stableSort_filter keep

/-- The rows of the base table of a statement with all their extensions. -/
def SelectOf.tuples (db : Database) (statement : Select) : List Bindings :=
  (db.rows statement.table).flatMap fun row =>
    extensions db statement.joins [(statement.table, some row)]

/-- A joined row of a statement is a row of its table with what its joins put behind it. -/
theorem mem_tuples {statement : Select} {tuple : Bindings} (h : tuple ∈ statement.tuples db) :
    ∃ row ∈ db.rows statement.table, ∃ more, tuple = (statement.table, some row) :: more ∧
      List.Forall₂ (Extends db) statement.joins more := by
  obtain ⟨row, hrow, hmem⟩ := List.mem_flatMap.mp h
  obtain ⟨more, rfl, hmore⟩ := extension_begins hmem
  exact ⟨row, hrow, more, rfl, hmore⟩

/-- It binds the scope of the statement. -/
theorem names_of_tuple {statement : Select} (hlabel : statement.label = none) {tuple : Bindings}
    (h : tuple ∈ statement.tuples db) : Dict.names tuple = statement.scope := by
  obtain ⟨row, -, more, rfl, hmore⟩ := mem_tuples h
  rw [Dict.names, List.map_cons, SelectOf.scope, SelectOf.qualifier, hlabel]
  exact congrArg _ (names_of_extends hmore)

/-- A statement that joins row by row selects, of the extensions that its filter accepts, the first
of each group, in its order. -/
theorem exists_selectRows_rowwise {statement : Select} (hlabel : statement.label = none)
    (hscoped : selectScoped statement []) (hkinds : ∀ join ∈ statement.joins, Rowwise join) :
    ∃ grouped, grouped.Sublist ((statement.tuples db).filter (db.passes statement.filter)) ∧
      groupRows statement.groupBy [] ((statement.tuples db).filter (db.passes statement.filter)) =
        .ok grouped ∧
      selectRows db statement [] = .ok (inOrder statement.orderBy grouped) := by
  obtain ⟨hjoins, hfilter, hgroup, horder⟩ := selectScoped_iff.mp hscoped
  have hnames : ∀ tuple ∈ statement.tuples db, Dict.names tuple = statement.scope :=
    fun tuple htuple => names_of_tuple hlabel htuple
  have hkeptNames : ∀ tuple ∈ (statement.tuples db).filter (db.passes statement.filter),
      Dict.names tuple = statement.scope :=
    fun tuple htuple => hnames tuple (List.mem_filter.mp htuple).1
  obtain ⟨grouped, hgrouped, hsublist⟩ :=
    groupRows_scoped hgroup (List.nil_subset (Dict.names ([] : Bindings))) hkeptNames
  rw [List.append_nil] at hfilter horder
  have hjoined : joinAll db statement.joins [statement.table]
      ((db.rows statement.table).map fun row => [(statement.table, some row)]) [] =
        .ok (statement.tuples db) := by
    have hqualifier : statement.qualifier = statement.table := by
      rw [SelectOf.qualifier, hlabel]
      rfl
    rw [hqualifier] at hjoins
    rw [joinAll_rowwise hjoins hkinds, List.flatMap_map]
    · rfl
    · intro tuple htuple
      obtain ⟨row, -, rfl⟩ := List.mem_map.mp htuple
      rfl
  have hkept : keepRows db statement.filter (statement.tuples db) [] =
      .ok ((statement.tuples db).filter (db.passes statement.filter)) := by
    cases hcondition : statement.filter with
    | none =>
        have hall : (statement.tuples db).filter (db.passes none) = statement.tuples db :=
          List.filter_eq_self.mpr fun _ _ => rfl
        rw [hall]
        rfl
    | some condition =>
        rw [hcondition, filterScoped] at hfilter
        have hkeep := @keepRows_ok db condition (statement.tuples db) []
        simp only [List.append_nil] at hkeep
        exact hkeep fun tuple htuple => hfilter.eval_ok db (hnames tuple htuple ▸ List.Subset.refl _)
  have hsorted : sortRows statement.orderBy [] grouped = .ok (inOrder statement.orderBy grouped) := by
    refine sortRows_inOrder fun keys hkeys key hkey tuple htuple => ?_
    rw [hkeptNames tuple (hsublist.subset htuple)]
    exact horder keys hkeys key hkey
  refine ⟨grouped, hsublist, hgrouped, ?_⟩
  obtain ⟨outputs, table, label, joins, filter, groupBy, orderBy, window⟩ := statement
  cases hlabel
  dsimp only at hjoined hkept hgrouped hsorted ⊢
  rw [selectRows]
  simp only [Option.getD_none, hjoined, hkept, hgrouped, hsorted, bind, Except.bind]

/-- Without groups it keeps all extensions that its filter accepts. -/
theorem selectRows_rowwise {statement : Select} (hlabel : statement.label = none)
    (hgroup : statement.groupBy = none) (hscoped : selectScoped statement [])
    (hkinds : ∀ join ∈ statement.joins, Rowwise join) :
    selectRows db statement [] =
      .ok (inOrder statement.orderBy ((statement.tuples db).filter (db.passes statement.filter))) := by
  obtain ⟨grouped, -, hgrouped, hselected⟩ :=
    @exists_selectRows_rowwise db statement hlabel hscoped hkinds
  rw [hgroup] at hgrouped
  cases hgrouped
  exact hselected

/-- A statement over one table that only filters and sorts selects its rows. -/
theorem selectRows_one_table {statement : Select} (hlabel : statement.label = none)
    (hgroup : statement.groupBy = none) (hjoins : statement.joins = [])
    (hscoped : filterScoped statement.filter [statement.table])
    (hkeys : ∀ keys, statement.orderBy = some keys → ∀ key ∈ keys,
      key.column.qualifier = statement.table) :
    selectRows db statement [] =
      .ok ((db.selected statement.table statement.filter statement.orderBy).map
        fun row => [(statement.table, some row)]) := by
  have htuples : statement.tuples db =
      (db.rows statement.table).map fun row => [(statement.table, some row)] := by
    rw [SelectOf.tuples, hjoins, List.map_eq_flatMap]
    rfl
  have hscope : statement.scope = [statement.table] := by
    rw [SelectOf.scope, SelectOf.qualifier, hlabel, hjoins]
    rfl
  have hclauses : statement.ClausesWithin (statement.scope ++ []) := by
    rw [hscope]
    exact ⟨hscoped, by simp [hgroup],
      fun keys hsome key hkey => List.mem_singleton.mpr (hkeys keys hsome key hkey)⟩
  have hkinds : ∀ join ∈ statement.joins, Rowwise join := by
    rw [hjoins]
    exact List.forall_mem_nil _
  rw [selectRows_rowwise hlabel hgroup
    (selectScoped_iff.mpr ⟨by rw [hjoins, joinsScoped]; trivial, hclauses⟩) hkinds,
    htuples, List.filter_map, selected_eq]
  cases horder : statement.orderBy with
  | none => rfl
  | some keys =>
      refine congrArg Except.ok (map_stableSort fun one _ other _ => ?_).symm
      rw [tupleOrder_base (hkeys keys horder)]

end NestedQuery
