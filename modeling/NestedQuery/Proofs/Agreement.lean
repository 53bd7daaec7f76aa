import NestedQuery.Proofs.Scope

/-!
# Agreement

What an expression or a statement comes to depends only on the rows under the
qualifiers in its scope.  Rows bound besides these, before them or behind them,
make no difference.
-/

namespace NestedQuery

/-- Two rows of joins have the same rows under the names in scope. -/
def AgreeOn (scope : List String) (one other : Bindings) : Prop :=
  ∀ name ∈ scope, one.lookup name = other.lookup name

variable {own scope : List String} {outer around : Bindings}

/-- What is in front of rows that agree keeps them in agreement. -/
theorem AgreeOn.append (h : AgreeOn scope outer around) {row : Bindings}
    (hrow : Dict.names row = own) : AgreeOn (own ++ scope) (row ++ outer) (row ++ around) := by
  intro name hname
  by_cases hown : name ∈ Dict.names row
  · rw [Dict.lookup_append_of_mem hown, Dict.lookup_append_of_mem hown]
  · rw [Dict.lookup_append_of_notMem hown, Dict.lookup_append_of_notMem hown]
    rw [hrow] at hown
    exact h name ((List.mem_append.mp hname).resolve_left hown)

/-- Columns in scope have the same values. -/
theorem AgreeOn.values (h : AgreeOn scope outer around) {columns : List ColumnRef}
    (hcolumns : ∀ column ∈ columns, column.qualifier ∈ scope) :
    outer.values columns = around.values columns := by
  unfold Bindings.values
  induction columns with
  | nil => rfl
  | cons column rest ih =>
      have hvalue : outer.value column = around.value column := by
        rw [Bindings.value, Bindings.value, h _ (hcolumns column List.mem_cons_self)]
      rw [List.mapM_cons, List.mapM_cons, hvalue,
        ih fun other hother => hcolumns other (List.mem_cons_of_mem _ hother)]

/-- Rows are grouped alike by columns on which what is around them agrees. -/
theorem groupRows_agree {groupBy : Option (List ColumnRef)} {rows : List Bindings}
    (h : ∀ columns, groupBy = some columns → ∀ column ∈ columns, column.qualifier ∈ own ++ scope)
    (hbound : scope ⊆ Dict.names outer) (hagree : AgreeOn scope outer around)
    (hrows : ∀ row ∈ rows, Dict.names row = own) :
    groupRows groupBy outer rows = groupRows groupBy around rows := by
  cases groupBy with
  | none => rfl
  | some columns =>
      obtain ⟨values, hvalues⟩ := values_scoped (h columns rfl) hbound hrows
      rw [groupRows_ok hvalues, groupRows_ok]
      intro row hrow
      rw [← (hagree.append (hrows row hrow)).values (h columns rfl)]
      exact hvalues row hrow

/-- So they are sorted alike by such columns. -/
theorem sortRows_agree {orderBy : Option (List SortKey)} {rows : List Bindings}
    (h : ∀ keys, orderBy = some keys → ∀ key ∈ keys, key.column.qualifier ∈ own ++ scope)
    (hbound : scope ⊆ Dict.names outer) (hagree : AgreeOn scope outer around)
    (hrows : ∀ row ∈ rows, Dict.names row = own) :
    sortRows orderBy outer rows = sortRows orderBy around rows := by
  cases orderBy with
  | none => rfl
  | some keys =>
      have hcolumns : ∀ column ∈ keys.map (·.column), column.qualifier ∈ own ++ scope := by
        intro column hcolumn
        obtain ⟨key, hkey, rfl⟩ := List.mem_map.mp hcolumn
        exact h keys rfl key hkey
      obtain ⟨values, hvalues⟩ := values_scoped hcolumns hbound hrows
      rw [sortRows_ok hvalues, sortRows_ok]
      intro row hrow
      rw [← (hagree.append (hrows row hrow)).values hcolumns]
      exact hvalues row hrow

/-- Joins by conditions that accept the same pairs are the same. -/
theorem join_congr {accept keep : Bindings → Bool} {kind : JoinKind} {label : String}
    {qualifiers : List String} {left : List Bindings} {right : List Row}
    (h : ∀ row ∈ left, ∀ other ∈ right,
      accept (row ++ [(label, some other)]) = keep (row ++ [(label, some other)])) :
    left.flatMap (besides accept kind label right) ++
        unpaired accept kind label qualifiers left right =
      left.flatMap (besides keep kind label right) ++
        unpaired keep kind label qualifiers left right := by
  have hbesides : ∀ row ∈ left, besides accept kind label right row =
      besides keep kind label right row := by
    intro row hrow
    unfold besides
    rw [List.filter_congr (h row hrow)]
  have hunpaired : ∀ other ∈ right, (!left.any fun row => accept (row ++ [(label, some other)])) =
      !left.any fun row => keep (row ++ [(label, some other)]) := by
    intro other hother
    rw [Bool.eq_iff_iff, Bool.not_eq_true', Bool.not_eq_true', List.any_eq_false, List.any_eq_false]
    exact forall_congr' fun row => imp_congr_right fun hrow => by rw [h row hrow other hother]
  unfold unpaired
  rw [List.flatMap_congr hbesides, List.filter_congr hunpaired]

mutual

/-- An expression has the same value in rows that agree on its scope.  The induction follows the
syntax, as that for values does; what is new at each statement is that its own rows stand in front
of both. -/
theorem Expr.Scoped.eval_agree (db : Database) : ∀ {expr : Expr} {scope : List String}
    {outer around : Bindings}, expr.Scoped scope → scope ⊆ Dict.names outer →
    AgreeOn scope outer around → expr.eval db outer = expr.eval db around
  | .column ref, scope, outer, around, h, hbound, hagree => by
      rw [Expr.Scoped] at h
      rw [Expr.eval, Expr.eval, Bindings.value, Bindings.value, hagree _ h]
  | .literal value, scope, outer, around, h, hbound, hagree => rfl
  | .compare left op right, scope, outer, around, h, hbound, hagree => by
      rw [Expr.Scoped] at h
      rw [Expr.eval, Expr.eval, Expr.Scoped.eval_agree db h.1 hbound hagree,
        Expr.Scoped.eval_agree db h.2 hbound hagree]
  | .connect left op right, scope, outer, around, h, hbound, hagree => by
      rw [Expr.Scoped] at h
      rw [Expr.eval, Expr.eval, Expr.Scoped.eval_agree db h.1 hbound hagree,
        Expr.Scoped.eval_agree db h.2 hbound hagree]
  | .not inner, scope, outer, around, h, hbound, hagree => by
      rw [Expr.Scoped] at h
      rw [Expr.eval, Expr.eval, Expr.Scoped.eval_agree db h hbound hagree]
  | .like subject pattern insensitive, scope, outer, around, h, hbound, hagree => by
      rw [Expr.Scoped] at h
      rw [Expr.eval, Expr.eval, Expr.Scoped.eval_agree db h hbound hagree]
  | .oneOf subject values negated, scope, outer, around, h, hbound, hagree => by
      rw [Expr.Scoped] at h
      rw [Expr.eval, Expr.eval, Expr.Scoped.eval_agree db h hbound hagree]
  | .isNull subject negated, scope, outer, around, h, hbound, hagree => by
      rw [Expr.Scoped] at h
      rw [Expr.eval, Expr.eval, Expr.Scoped.eval_agree db h hbound hagree]
  | .exists statement, scope, outer, around, h, hbound, hagree => by
      rw [Expr.Scoped] at h
      rw [Expr.eval, Expr.eval, selectRows_agree db h hbound hagree]

/-- A statement selects the same rows inside rows that agree on its scope. -/
theorem selectRows_agree (db : Database) : ∀ {statement : SelectOf Expr} {scope : List String}
    {outer around : Bindings}, selectScoped statement scope → scope ⊆ Dict.names outer →
    AgreeOn scope outer around → selectRows db statement outer = selectRows db statement around
  | ⟨_, table, label, joins, filter, groupBy, orderBy, _⟩, scope, outer, around, h, hbound,
      hagree => by
      rw [selectScoped] at h
      obtain ⟨hjoins, hfilter, hgroup, horder⟩ := h
      have hbase : ∀ row ∈ (db.rows table).map fun row => [(label.getD table, some row)],
          Dict.names row = [label.getD table] := by
        intro row hrow
        obtain ⟨stored, -, rfl⟩ := List.mem_map.mp hrow
        rfl
      obtain ⟨joined, hjoined, hnames⟩ := joinAll_ok db hjoins hbound hbase
      obtain ⟨kept, hkept, hkeptRows⟩ := keepRows_scoped db hfilter hbound hnames
      obtain ⟨grouped, hgrouped, hgroupedRows⟩ := groupRows_scoped hgroup hbound
        fun row hrow => hnames row (hkeptRows hrow)
      have hsorted := sortRows_agree horder hbound hagree
        fun row hrow => hnames row (hkeptRows (hgroupedRows.subset hrow))
      have hsame := keepRows_agree db hfilter hbound hagree hnames
      have hgroups := groupRows_agree hgroup hbound hagree
        fun row hrow => hnames row (hkeptRows hrow)
      have hjoins := joinAll_agree db hjoins hbound hagree hbase
      rw [selectRows, selectRows, ← hjoins, hjoined]
      simp only [bind, Except.bind]
      rw [← hsame, hkept]
      dsimp only
      rw [← hgroups, hgrouped]
      exact hsorted

/-- Joins yield the same rows there. -/
theorem joinAll_agree (db : Database) : ∀ {joins : List (JoinOf Expr)} {own scope : List String}
    {rows : List Bindings} {outer around : Bindings}, joinsScoped joins own scope →
    scope ⊆ Dict.names outer → AgreeOn scope outer around →
    (∀ row ∈ rows, Dict.names row = own) →
    joinAll db joins own rows outer = joinAll db joins own rows around
  | [], own, scope, rows, outer, around, h, hbound, hagree, hrows => rfl
  | ⟨kind, table, label, on⟩ :: rest, own, scope, rows, outer, around, h, hbound, hagree,
      hrows => by
      rw [joinsScoped] at h
      have hnames : ∀ row ∈ rows, ∀ other : Row,
          Dict.names (row ++ [(label, some other)]) = own ++ [label] := by
        intro row hrow other
        rw [Dict.names_append, hrows row hrow]
        rfl
      have hsame : ∀ row ∈ rows, ∀ other ∈ db.rows table,
          on.eval db (row ++ [(label, some other)] ++ outer) =
            on.eval db (row ++ [(label, some other)] ++ around) :=
        fun row hrow other _ => Expr.Scoped.eval_agree db h.1
          (bound_append (hnames row hrow other) hbound) (hagree.append (hnames row hrow other))
      have hvalue : ∀ row ∈ rows, ∀ other ∈ db.rows table,
          ∃ value, on.eval db (row ++ [(label, some other)] ++ outer) = .ok value :=
        fun row hrow other _ =>
          Expr.Scoped.eval_ok db h.1 (bound_append (hnames row hrow other) hbound)
      have haccept : ∀ row ∈ rows, ∀ other ∈ db.rows table,
          accepts (fun row => on.truth db (row ++ outer)) (row ++ [(label, some other)]) =
            accepts (fun row => on.truth db (row ++ around)) (row ++ [(label, some other)]) := by
        intro row hrow other hother
        simp only [accepts, Expr.truth, hsame row hrow other hother]
      have hfirst := @joinAll_cons db kind table label on rest own rows outer hvalue
      have hsecond := @joinAll_cons db kind table label on rest own rows around
        fun row hrow other hother => hsame row hrow other hother ▸ hvalue row hrow other hother
      dsimp only at hfirst hsecond
      rw [hfirst, hsecond, ← join_congr haccept]
      exact joinAll_agree db h.2 hbound hagree fun row hrow => names_of_mem_join hrows hrow

/-- So a predicate keeps the same rows. -/
theorem keepRows_agree (db : Database) : ∀ {filter : Option Expr} {own scope : List String}
    {rows : List Bindings} {outer around : Bindings}, filterScoped filter (own ++ scope) →
    scope ⊆ Dict.names outer → AgreeOn scope outer around →
    (∀ row ∈ rows, Dict.names row = own) →
    keepRows db filter rows outer = keepRows db filter rows around
  | none, own, scope, rows, outer, around, h, hbound, hagree, hrows => rfl
  | some condition, own, scope, rows, outer, around, h, hbound, hagree, hrows => by
      rw [filterScoped] at h
      have hsame : ∀ row ∈ rows, condition.eval db (row ++ outer) =
          condition.eval db (row ++ around) :=
        fun row hrow => Expr.Scoped.eval_agree db h (bound_append (hrows row hrow) hbound)
          (hagree.append (hrows row hrow))
      have hvalue : ∀ row ∈ rows, ∃ value, condition.eval db (row ++ outer) = .ok value :=
        fun row hrow => Expr.Scoped.eval_ok db h (bound_append (hrows row hrow) hbound)
      rw [keepRows_ok hvalue, keepRows_ok fun row hrow => hsame row hrow ▸ hvalue row hrow]
      refine congrArg Except.ok (List.filter_congr ?_)
      intro row hrow
      simp only [accepts, Expr.truth, hsame row hrow]

end

end NestedQuery
