import NestedQuery.Proofs.Agreement
import NestedQuery.Proofs.Safety
import NestedQuery.Proofs.SortOrder

/-!
# Rows of a base table

The clauses of a request speak about its base table.  When its filter and its
ordering leave joined relations alone, they are the same whether anything is
joined or not.  Joined rows that begin with the same base row are then kept or
dropped together, and stay together in the order of the base rows.
-/

namespace NestedQuery

variable {schema : Schema} {db : Database}

/-! ### Clauses that leave names alone -/

mutual

/-- No entry of a filter has one of the names, apart from those of filters on related rows. -/
def Filter.Avoids (names : List String) : Filter → Prop
  | .node allOf anyOf noneOf entries =>
    (∀ entry ∈ entries, entry.1 ∉ names) ∧ filtersAvoid names allOf ∧
      filtersAvoid names anyOf ∧ filtersAvoid names noneOf

def filtersAvoid (names : List String) : List Filter → Prop
  | [] => True
  | filter :: rest => filter.Avoids names ∧ filtersAvoid names rest

end

/-- Filters avoid names if each of them does. -/
theorem filtersAvoid_iff {names : List String} {filters : List Filter} :
    filtersAvoid names filters ↔ ∀ filter ∈ filters, filter.Avoids names := by
  induction filters with
  | nil => simp [filtersAvoid]
  | cons filter rest ih => rw [filtersAvoid, ih, List.forall_mem_cons]

mutual

instance decideAvoids (names : List String) : ∀ filter : Filter, Decidable (filter.Avoids names)
  | .node allOf anyOf noneOf entries =>
    have := decideFiltersAvoid names allOf
    have := decideFiltersAvoid names anyOf
    have := decideFiltersAvoid names noneOf
    inferInstanceAs (Decidable ((∀ entry ∈ entries, entry.1 ∉ names) ∧ filtersAvoid names allOf ∧
      filtersAvoid names anyOf ∧ filtersAvoid names noneOf))

instance decideFiltersAvoid (names : List String) : ∀ filters, Decidable (filtersAvoid names filters)
  | [] => isTrue trivial
  | filter :: rest =>
    have := decideAvoids names filter
    have := decideFiltersAvoid names rest
    inferInstanceAs (Decidable (filter.Avoids names ∧ filtersAvoid names rest))

end

/-- No key of an ordering is one of the names. -/
def SortRequest.Avoids (names : List String) (order : SortRequest) : Prop :=
  ∀ entry ∈ order.entries, ∀ key ∈ entry, key.1 ∉ names

instance (names : List String) (order : SortRequest) : Decidable (order.Avoids names) :=
  inferInstanceAs (Decidable (∀ entry ∈ order.entries, ∀ key ∈ entry, key.1 ∉ names))

/-- A relation that is not joined is filtered as if nothing were. -/
theorem relationPredicate?_unjoined (operand : Operand) (relation : Relation) (qualifier : String)
    {joined : JoinedTables} (h : joined.lookup relation.name = none) (n : Nat) :
    relationPredicate? schema operand relation qualifier joined n =
      relationPredicate? schema operand relation qualifier [] n := by
  cases operand with
  | related inner =>
      rw [relationPredicate?, relationPredicate?, h]
      rfl
  | literal value => rfl
  | condition operators => rfl

/-- Entries none of which is joined are compiled as without joins. -/
theorem entryPredicates_unjoined {table : Table}
    (htable : ∀ key relation, table.relation? key = some relation → relation.name = key)
    (qualifier : String) {joined : JoinedTables} {entries : List (String × Operand)}
    (h : ∀ entry ∈ entries, joined.lookup entry.1 = none) (n : Nat) :
    entryPredicates schema entries table qualifier joined n =
      entryPredicates schema entries table qualifier [] n := by
  induction entries generalizing n with
  | nil => rfl
  | cons entry rest ih =>
      obtain ⟨key, operand⟩ := entry
      have hfirst : ∀ relation, table.relation? key = some relation →
          relationPredicate? schema operand relation qualifier joined n =
            relationPredicate? schema operand relation qualifier [] n := by
        intro relation hrelation
        refine relationPredicate?_unjoined operand relation qualifier ?_ n
        rw [htable key relation hrelation]
        exact h _ List.mem_cons_self
      have hrest := fun n => ih (fun other hother => h other (List.mem_cons_of_mem _ hother)) n
      rw [entryPredicates, entryPredicates]
      cases hcolumn : table.column? key with
      | some column => simp only [hrest]
      | none =>
          cases hrelation : table.relation? key with
          | none => simp only [hrest]
          | some relation => simp only [hfirst relation hrelation, hrest]

mutual

/-- A filter that avoids what is joined has the predicate that it has without joins. -/
theorem Filter.predicate?_unjoined {table : Table} {joined : JoinedTables} {names : List String}
    (htable : ∀ key relation, table.relation? key = some relation → relation.name = key)
    (hjoined : ∀ name, name ∉ names → joined.lookup name = none) (qualifier : String) :
    ∀ (filter : Filter), filter.Avoids names → ∀ (n : Nat),
    filter.predicate? schema table qualifier joined n =
      filter.predicate? schema table qualifier [] n
  | .node allOf anyOf noneOf entries, h, n => by
      rw [Filter.Avoids] at h
      obtain ⟨hentries, hall, hany, hnone⟩ := h
      rw [Filter.predicate?, Filter.predicate?, entryPredicates_unjoined htable qualifier
        fun entry hentry => hjoined entry.1 (hentries entry hentry)]
      simp only [filterPredicates_unjoined htable hjoined qualifier allOf hall,
        filterPredicates_unjoined htable hjoined qualifier anyOf hany,
        filterPredicates_unjoined htable hjoined qualifier noneOf hnone]

/-- So are filters that avoid the names of what is joined. -/
theorem filterPredicates_unjoined {table : Table} {joined : JoinedTables} {names : List String}
    (htable : ∀ key relation, table.relation? key = some relation → relation.name = key)
    (hjoined : ∀ name, name ∉ names → joined.lookup name = none) (qualifier : String) :
    ∀ (filters : List Filter), filtersAvoid names filters → ∀ (n : Nat),
    filterPredicates schema filters table qualifier joined n =
      filterPredicates schema filters table qualifier [] n
  | [], h, n => by
      rw [filterPredicates, filterPredicates]
  | filter :: rest, h, n => by
      rw [filtersAvoid] at h
      rw [filterPredicates, filterPredicates,
        Filter.predicate?_unjoined htable hjoined qualifier filter h.1]
      simp only [filterPredicates_unjoined htable hjoined qualifier rest h.2]

end

/-- An ordering that avoids what is joined has the sort keys that it has without joins. -/
theorem sortKeys_unjoined {joined : JoinedTables} {names : List String}
    (hjoined : ∀ name, name ∉ names → joined.lookup name = none) (table qualifier : String)
    {order : Option SortRequest} (h : ∀ request, order = some request → request.Avoids names) :
    schema.sortKeys table qualifier order joined = schema.sortKeys table qualifier order [] := by
  unfold Schema.sortKeys
  cases order with
  | none => rfl
  | some request =>
      cases schema.table? table with
      | none => rfl
      | some known =>
          refine List.flatMap_congr ?_
          intro entry hentry
          refine List.flatMap_congr ?_
          rintro ⟨key, spec⟩ hkey
          have hnone := hjoined key (h request rfl entry hentry (key, spec) hkey)
          simp only [Schema.keySortKeys, hnone, List.lookup_nil]

/-- So it is with the sort keys of a request. -/
theorem baseOrder_unjoined {engine : Engine} {table : Table} {args : FindArgs}
    {names : List String} (horder : ∀ order, args.orderBy = some order → order.Avoids names)
    {joined : JoinedTables} (hjoined : ∀ name, name ∉ names → joined.lookup name = none)
    (backwards : Bool) :
    engine.baseOrder table args backwards joined = engine.baseOrder table args backwards [] := by
  unfold Engine.baseOrder
  rw [sortKeys_unjoined hjoined table.name table.name horder]

/-- A request whose clauses avoid what is joined has the base statement that it has without
joins. -/
theorem baseStatement_unjoined {engine : Engine} (hschema : engine.schema.Consistent)
    {table : Table} (hknown : engine.schema.table? table.name = some table) {args : FindArgs}
    {names : List String} (hfilter : ∀ filter, args.filter = some filter → filter.Avoids names)
    (horder : ∀ order, args.orderBy = some order → order.Avoids names) {joined : JoinedTables}
    (hjoined : ∀ name, name ∉ names → joined.lookup name = none) (paging : Paging) (paged : Bool) :
    engine.baseStatement table args paging joined paged =
      engine.baseStatement table args paging [] paged := by
  have hpredicate : engine.schema.predicate? table.name table.name args.filter joined 0 =
      engine.schema.predicate? table.name table.name args.filter [] 0 := by
    unfold Schema.predicate?
    rw [hknown]
    cases hasked : args.filter with
    | none => rfl
    | some filter =>
        exact Filter.predicate?_unjoined (fun key relation => hschema.relation_name hknown) hjoined
          table.name filter (hfilter filter hasked) 0
  unfold Engine.baseStatement
  rw [hpredicate, baseOrder_unjoined horder hjoined]

/-! ### Selected rows -/

/-- The rows of a table that a predicate is true of, in the order of sort keys. -/
def Database.selected (db : Database) (table : String) (filter : Option Expr)
    (orderBy : Option (List SortKey)) : List Row :=
  let kept :=
    match filter with
    | none => db.rows table
    | some condition => (db.rows table).filter fun row =>
        accepts (condition.truth db) [(table, some row)]
  match orderBy with
  | none => kept
  | some keys => stableSort (fun one other => valueOrder keys one.value other.value) kept

/-- Selecting is leaving rows out and changing their order. -/
theorem selected_perm (table : String) (filter : Option Expr) (orderBy : Option (List SortKey)) :
    ∃ kept, kept.Sublist (db.rows table) ∧ (db.selected table filter orderBy).Perm kept := by
  unfold Database.selected
  cases filter with
  | none =>
      refine ⟨db.rows table, List.Sublist.refl _, ?_⟩
      cases orderBy with
      | none => exact List.Perm.refl _
      | some keys => exact stableSort_perm _ _
  | some condition =>
      refine ⟨(db.rows table).filter fun row => accepts (condition.truth db) [(table, some row)],
        List.filter_sublist, ?_⟩
      cases orderBy with
      | none => exact List.Perm.refl _
      | some keys => exact stableSort_perm _ _

/-- An ordering that is written consists of the keys. -/
theorem orderClause_some {keys found : List SortKey} (h : orderClause keys = some found) :
    found = keys := by
  unfold orderClause at h
  split at h
  · cases h
  · cases h
    rfl

/-- Both of two predicates accept a row if their conjunction does. -/
theorem accepts_and {left right : Expr} {bindings : Bindings} {l r : Value}
    (hleft : left.eval db bindings = .ok l) (hright : right.eval db bindings = .ok r) :
    accepts ((left.and right).truth db) bindings =
      (accepts (left.truth db) bindings && accepts (right.truth db) bindings) := by
  have hboth : (left.and right).truth db bindings = .ok (both l.truth r.truth) := by
    have heval : (left.and right).eval db bindings = .ok (truthValue (both l.truth r.truth)) := by
      rw [Expr.and, Expr.eval, hleft, hright]
      rcases hl : l.truth with _ | _ | _ <;>
        simp [bind, Except.bind, pure, Except.pure, Connective.deciding, Connective.apply, both, hl]
    rw [Expr.truth_ok heval, truth_truthValue]
  rw [accepts_of_ok hboth, accepts_of_ok (Expr.truth_ok hleft),
    accepts_of_ok (Expr.truth_ok hright)]
  rcases l.truth with _ | _ | _ <;> rcases r.truth with _ | _ | _ <;> rfl

/-- Whether an optional predicate keeps a row of a join. -/
def Database.passes (db : Database) (filter : Option Expr) (bindings : Bindings) : Bool :=
  match filter with
  | none => true
  | some condition => accepts (condition.truth db) bindings

/-- A row passes a condition more if it passes both. -/
theorem passes_andWhere? {statement : Select} {condition : Option Expr} {scope : List String}
    (hfilter : filterScoped statement.filter scope) (hcondition : filterScoped condition scope)
    {bindings : Bindings} (hbound : scope ⊆ Dict.names bindings) :
    db.passes (statement.andWhere? condition).filter bindings =
      (db.passes statement.filter bindings && db.passes condition bindings) := by
  cases condition with
  | none => simp [SelectOf.andWhere?, Database.passes]
  | some condition =>
      rw [filterScoped] at hcondition
      cases hknown : statement.filter with
      | none => simp [SelectOf.andWhere?, SelectOf.andWhere, Database.passes, hknown]
      | some known =>
          rw [hknown, filterScoped] at hfilter
          obtain ⟨l, hleft⟩ := hfilter.eval_ok db hbound
          obtain ⟨r, hright⟩ := hcondition.eval_ok db hbound
          simpa [SelectOf.andWhere?, SelectOf.andWhere, Database.passes, hknown] using
            accepts_and hleft hright

/-- A statement without joins keeps the rows that its filter passes and puts them in order. -/
theorem selected_eq (table : String) (filter : Option Expr) (orderBy : Option (List SortKey)) :
    db.selected table filter orderBy =
      let kept := (db.rows table).filter fun row => db.passes filter [(table, some row)]
      match orderBy with
      | none => kept
      | some keys => stableSort (fun one other => valueOrder keys one.value other.value) kept := by
  cases filter with
  | none =>
      have hall : (db.rows table).filter (fun row => db.passes none [(table, some row)]) =
          db.rows table := List.filter_eq_self.mpr fun _ _ => rfl
      rw [hall]
      rfl
  | some condition => rfl

/-- They are the rows that the predicate is true of. -/
theorem selected_perm_filter (table : String) (filter : Option Expr)
    (orderBy : Option (List SortKey)) : (db.selected table filter orderBy).Perm
      ((db.rows table).filter fun row => db.passes filter [(table, some row)]) := by
  rw [selected_eq]
  cases orderBy with
  | none => exact List.Perm.refl _
  | some keys => exact stableSort_perm _ _

/-- A predicate that keeps fewer rows selects those of them. -/
theorem selected_filter {table : String} {filter stricter : Option Expr}
    {orderBy : Option (List SortKey)} {keep : Row → Bool}
    (hkeys : ∀ keys, orderBy = some keys → ∀ key ∈ keys,
      Value.Ordered ((db.rows table).map (·.value key.column.name)))
    (h : ∀ row ∈ db.rows table, db.passes stricter [(table, some row)] =
      (db.passes filter [(table, some row)] && keep row)) :
    db.selected table stricter orderBy = (db.selected table filter orderBy).filter keep := by
  have hkept : (db.rows table).filter (fun row => db.passes stricter [(table, some row)]) =
      ((db.rows table).filter fun row => db.passes filter [(table, some row)]).filter keep := by
    rw [List.filter_filter]
    refine List.filter_congr ?_
    intro row hrow
    rw [h row hrow, Bool.and_comm]
  rw [selected_eq, selected_eq, hkept]
  cases orderBy with
  | none => rfl
  | some keys =>
      refine OrdersOn.stableSort_filter (OrdersOn.mono (sortOrder_orders keys (hkeys keys rfl)) ?_) keep
      exact fun row hrow => (List.mem_filter.mp hrow).1

/-- By keys that put the rows of the table in order, the selected rows stand in strict order. -/
theorem PutInOrder.selected_pairwise {keys : List SortKey} {table : String}
    (h : PutInOrder keys table (db.rows table)) (filter : Option Expr) :
    (db.selected table filter (orderClause keys)).Pairwise
      fun one other => valueOrder keys one.value other.value = .lt := by
  have hkept := h.sublist (@List.filter_sublist _ (fun row =>
    db.passes filter [(table, some row)]) (db.rows table))
  rw [selected_eq]
  cases keys with
  | nil => exact hkept.apart.imp fun hne => absurd rfl hne
  | cons key rest => exact hkept.pairwise_stableSort

/-- The rows of the base table that a request shows. -/
def Engine.shownRows (engine : Engine) (db : Database) (table : Table) (args : FindArgs)
    (paging : Paging) : List Row :=
  let base := engine.baseStatement table args paging [] true
  Window.cut base.window (db.selected table.name base.filter base.orderBy)

/-- What a request shows are rows of its table. -/
theorem shownRows_subset {engine : Engine} {table : Table} {args : FindArgs} {paging : Paging} :
    engine.shownRows db table args paging ⊆ db.rows table.name := by
  let base := engine.baseStatement table args paging [] true
  obtain ⟨kept, hsublist, hperm⟩ := @selected_perm db table.name base.filter base.orderBy
  exact fun row hrow => hsublist.subset (hperm.subset (cut_subset _ _ hrow))

/-- The rows of a join come in blocks, of which each begins with a row of the base table. -/
def BeginsWith (table : String) (rows : List Row) (block : Row → List Bindings) : Prop :=
  ∀ row ∈ rows, ∀ bindings ∈ block row, bindings.lookup table = some (some row)

theorem BeginsWith.agree {table : String} {rows : List Row} {block : Row → List Bindings}
    (h : BeginsWith table rows block) {row : Row} (hrow : row ∈ rows) {bindings : Bindings}
    (hbindings : bindings ∈ block row) :
    AgreeOn [table] [(table, some row)] (bindings ++ []) := by
  intro name hname
  rw [List.mem_singleton.mp hname, List.append_nil, h row hrow bindings hbindings]
  simp

/-- A predicate on the base table keeps blocks or drops them. -/
theorem keepRows_blocks {table : String} {rows : List Row} {block : Row → List Bindings}
    (h : BeginsWith table rows block) {condition : Expr} (hscoped : condition.Scoped [table]) :
    keepRows db (some condition) (rows.flatMap block) [] =
      .ok ((rows.filter fun row =>
        accepts (condition.truth db) [(table, some row)]).flatMap block) := by
  have hbound : ∀ row : Row, [table] ⊆ Dict.names [(table, some row)] :=
    fun row => List.Subset.refl _
  have hsame : ∀ row ∈ rows, ∀ bindings ∈ block row,
      condition.eval db (bindings ++ []) = condition.eval db [(table, some row)] :=
    fun row hrow bindings hbindings =>
      (hscoped.eval_agree db (hbound row) (h.agree hrow hbindings)).symm
  have hvalue : ∀ bindings ∈ rows.flatMap block,
      ∃ value, condition.eval db (bindings ++ []) = .ok value := by
    intro bindings hbindings
    obtain ⟨row, hrow, hmem⟩ := List.mem_flatMap.mp hbindings
    rw [hsame row hrow bindings hmem]
    exact hscoped.eval_ok db (hbound row)
  rw [keepRows_ok hvalue, List.filter_flatMap, flatMap_filter]
  refine congrArg Except.ok (List.flatMap_congr ?_)
  intro row hrow
  have hkeep : ∀ bindings ∈ block row,
      accepts (fun bindings => condition.truth db (bindings ++ [])) bindings =
        accepts (condition.truth db) [(table, some row)] := by
    intro bindings hbindings
    simp only [accepts, Expr.truth, hsame row hrow bindings hbindings]
  rw [List.filter_congr hkeep]
  cases accepts (condition.truth db) [(table, some row)] <;> simp

/-- Sort keys of the base table order blocks as they order the rows of the table. -/
theorem sortRows_blocks {table : String} {rows : List Row} {block : Row → List Bindings}
    (h : BeginsWith table rows block) {keys : List SortKey}
    (hkeys : ∀ key ∈ keys, key.column.qualifier = table)
    (hordered : ∀ key ∈ keys, Value.Ordered (rows.map (·.value key.column.name))) :
    sortRows (some keys) [] (rows.flatMap block) =
      .ok ((stableSort (fun one other => valueOrder keys one.value other.value) rows).flatMap
        block) := by
  let values := fun bindings : Bindings =>
    keys.map fun key => ((bindings.lookup table).join.getD []).value key.column.name
  have hvalues : ∀ bindings ∈ rows.flatMap block,
      Bindings.values (bindings ++ []) (keys.map (·.column)) = .ok (values bindings) := by
    intro bindings hbindings
    obtain ⟨row, hrow, hmem⟩ := List.mem_flatMap.mp hbindings
    have hlookup := h row hrow bindings hmem
    have hvalue : ∀ column ∈ keys.map (·.column), Bindings.value (bindings ++ []) column =
        .ok (((bindings.lookup table).join.getD []).value column.name) := by
      intro column hcolumn
      obtain ⟨key, hkey, rfl⟩ := List.mem_map.mp hcolumn
      have hcolumnEq : key.column = ⟨table, key.column.name⟩ := by
        rw [← hkeys key hkey]
      rw [List.append_nil, hcolumnEq, hlookup]
      exact Bindings.value_of_some hlookup _
    rw [Bindings.values, mapM_ok hvalue, List.map_map]
    rfl
  rw [sortRows_ok hvalues]
  refine congrArg Except.ok ((sortOrder_orders keys hordered).stableSort_flatMap block ?_)
  intro a ha b hb x hx y hy
  simp only [values, h a ha x hx, h b hb y hy, Option.join_some, Option.getD_some]

/-- A statement over a base table that only filters and sorts by it selects blocks of joined rows
as it selects the rows of the table. -/
theorem selectRows_blocks {statement : Select} {block : Row → List Bindings}
    (hlabel : statement.label = none) (hgroup : statement.groupBy = none)
    (hjoins : joinAll db statement.joins [statement.table]
        ((db.rows statement.table).map fun row => [(statement.table, some row)]) [] =
      .ok ((db.rows statement.table).flatMap block))
    (hblock : BeginsWith statement.table (db.rows statement.table) block)
    (hscoped : filterScoped statement.filter [statement.table])
    (hkeys : ∀ keys, statement.orderBy = some keys → ∀ key ∈ keys,
      key.column.qualifier = statement.table ∧
        Value.Ordered ((db.rows statement.table).map (·.value key.column.name))) :
    selectRows db statement [] =
      .ok ((db.selected statement.table statement.filter statement.orderBy).flatMap block) := by
  obtain ⟨outputs, table, label, joins, filter, groupBy, orderBy, window⟩ := statement
  cases hlabel
  cases hgroup
  dsimp only at hjoins hblock hscoped hkeys ⊢
  obtain ⟨kept, hkept, hsublist, hselected⟩ : ∃ kept,
      keepRows db filter ((db.rows table).flatMap block) [] = .ok (kept.flatMap block) ∧
      kept.Sublist (db.rows table) ∧ db.selected table filter orderBy =
        match orderBy with
        | none => kept
        | some keys =>
            stableSort (fun one other => valueOrder keys one.value other.value) kept := by
    cases filter with
    | none => exact ⟨db.rows table, rfl, List.Sublist.refl _, rfl⟩
    | some condition =>
        rw [filterScoped] at hscoped
        exact ⟨_, keepRows_blocks hblock hscoped, List.filter_sublist, rfl⟩
  have hkeptBlock : BeginsWith table kept block :=
    fun row hrow => hblock row (hsublist.subset hrow)
  rw [selectRows]
  simp only [Option.getD_none, hjoins, hkept, bind, Except.bind, groupRows, pure, Except.pure]
  rw [hselected]
  cases orderBy with
  | none => rfl
  | some keys =>
      refine sortRows_blocks hkeptBlock (fun key hkey => (hkeys keys rfl key hkey).1) ?_
      intro key hkey a ha b hb c hc
      have hmem : ∀ value ∈ kept.map (·.value key.column.name),
          value ∈ (db.rows table).map (·.value key.column.name) :=
        fun value hvalue => (hsublist.map _).subset hvalue
      exact (hkeys keys rfl key hkey).2 a (hmem a ha) b (hmem b hb) c (hmem c hc)

/-! ### Windows -/

/-- A window of blocks of one item each is a window of the blocks. -/
theorem cut_flatMap {α β : Type} (window : Option Window) {block : α → List β} {items : List α}
    (h : ∀ item ∈ items, (block item).length = 1) :
    Window.cut window (items.flatMap block) = (Window.cut window items).flatMap block := by
  cases items with
  | nil =>
      have hnil : Window.cut window ([] : List α) = [] :=
        List.subset_nil.mp (cut_subset window [])
      rw [hnil]
      exact List.subset_nil.mp (cut_subset window [])
  | cons first rest =>
      obtain ⟨default, -⟩ := List.length_eq_one_iff.mp (h first List.mem_cons_self)
      have hsingle : ∀ item ∈ first :: rest, block item = [(block item).headD default] := by
        intro item hitem
        obtain ⟨only, honly⟩ := List.length_eq_one_iff.mp (h item hitem)
        rw [honly]
        rfl
      have hmap : ∀ items ⊆ first :: rest, items.flatMap block =
          items.map fun item => (block item).headD default := by
        intro items hitems
        rw [List.map_eq_flatMap]
        exact List.flatMap_congr fun item hitem => hsingle item (hitems hitem)
      rw [hmap _ (List.Subset.refl _), cut_map, hmap _ (cut_subset _ _)]

end NestedQuery
