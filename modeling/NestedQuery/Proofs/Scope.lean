import NestedQuery.Proofs.Evaluation

/-!
# Scope

Evaluation fails for one reason only: a column of a qualifier that nothing
binds.  A statement is well scoped when every column stands where its qualifier
is bound.  The condition of a join sees the tables joined before it and its own;
a filter, a grouping and an ordering see all tables of their statement; and each
of them sees what surrounds the statement.  A well-scoped statement has rows on
every database, and each row binds exactly the qualifiers of the statement.
-/

namespace NestedQuery

/-- The qualifiers that the rows of a statement bind. -/
def SelectOf.scope {Predicate : Type} (statement : SelectOf Predicate) : List String :=
  statement.qualifier :: statement.joins.map (·.label)

mutual

/-- Every column of the expression has its qualifier in scope. -/
def Expr.Scoped : Expr → List String → Prop
  | .column ref, scope => ref.qualifier ∈ scope
  | .literal _, _ => True
  | .compare left _ right, scope => left.Scoped scope ∧ right.Scoped scope
  | .connect left _ right, scope => left.Scoped scope ∧ right.Scoped scope
  | .not inner, scope => inner.Scoped scope
  | .like subject _ _, scope => subject.Scoped scope
  | .oneOf subject _ _, scope => subject.Scoped scope
  | .isNull subject _, scope => subject.Scoped scope
  | .exists statement, scope => selectScoped statement scope

/-- Every column of the clauses of the statement has its qualifier in scope, where `outer` is
around the statement. -/
def selectScoped : SelectOf Expr → List String → Prop
  | ⟨_, table, label, joins, filter, groupBy, orderBy, _⟩, outer =>
    let scope := label.getD table :: joins.map (·.label) ++ outer
    joinsScoped joins [label.getD table] outer ∧
      filterScoped filter scope ∧
      (∀ columns, groupBy = some columns → ∀ column ∈ columns, column.qualifier ∈ scope) ∧
      (∀ keys, orderBy = some keys → ∀ key ∈ keys, key.column.qualifier ∈ scope)

/-- Every condition of the joins has its qualifiers in scope, after `own` tables. -/
def joinsScoped : List (JoinOf Expr) → List String → List String → Prop
  | [], _, _ => True
  | ⟨_, _, label, on⟩ :: rest, own, outer =>
    on.Scoped (own ++ [label] ++ outer) ∧ joinsScoped rest (own ++ [label]) outer

/-- Every column of the filter has its qualifier in scope. -/
def filterScoped : Option Expr → List String → Prop
  | none, _ => True
  | some condition, scope => condition.Scoped scope

end

/-- A statement that stands alone is well scoped: its clauses are, and its outputs are columns of
its own tables or counts. -/
structure SelectOf.WellScoped (statement : Select) : Prop where
  clauses : selectScoped statement []
  outputs : ∀ output ∈ statement.outputs, ∀ ref label, output = .column ref label →
    ref.qualifier ∈ statement.scope

/-! ### What rows bind -/

/-- Every row of a join binds the qualifiers on the left and the label on the right. -/
theorem names_of_mem_join {accept : Bindings → Bool} {kind : JoinKind} {label : String}
    {qualifiers : List String} {left : List Bindings} {right : List Row}
    (hleft : ∀ row ∈ left, Dict.names row = qualifiers) {row : Bindings}
    (hrow : row ∈ left.flatMap (besides accept kind label right) ++
      unpaired accept kind label qualifiers left right) :
    Dict.names row = qualifiers ++ [label] := by
  rcases List.mem_append.mp hrow with hbeside | halone
  · obtain ⟨before, hbefore, hmem⟩ := List.mem_flatMap.mp hbeside
    have hcases : ∃ other, row = before ++ [(label, other)] := by
      rw [besides] at hmem
      split at hmem
      · exact ⟨none, List.mem_singleton.mp hmem⟩
      · obtain ⟨other, -, heq⟩ := List.mem_map.mp hmem
        exact ⟨some other, heq.symm⟩
    obtain ⟨other, rfl⟩ := hcases
    rw [Dict.names_append, hleft before hbefore]
    rfl
  · rw [unpaired] at halone
    split at halone
    · obtain ⟨other, -, rfl⟩ := List.mem_map.mp halone
      have hnames : Dict.names (qualifiers.map (·, (none : Option Row))) = qualifiers := by
        rw [Dict.names, List.map_map]
        exact List.map_id _
      rw [Dict.names_append, hnames]
      rfl
    · cases halone

/-- What is in the scope of a row and around it is bound by both together. -/
theorem bound_append {own outer : List String} {row around : Bindings}
    (hrow : Dict.names row = own) (haround : outer ⊆ Dict.names around) :
    own ++ outer ⊆ Dict.names (row ++ around) := by
  rw [Dict.names_append, hrow]
  exact List.append_subset.mpr
    ⟨List.subset_append_left _ _, List.Subset.trans haround (List.subset_append_right _ _)⟩

/-- Columns in scope have values in every row. -/
theorem values_scoped {own scope : List String} {rows : List Bindings} {outer : Bindings}
    {columns : List ColumnRef} (h : ∀ column ∈ columns, column.qualifier ∈ own ++ scope)
    (hbound : scope ⊆ Dict.names outer) (hrows : ∀ row ∈ rows, Dict.names row = own) :
    ∃ values : Bindings → List Value, ∀ row ∈ rows,
      (row ++ outer).values columns = .ok (values row) := by
  refine exists_results ?_
  intro row hrow
  refine Bindings.values_ok ?_
  intro column hcolumn
  exact bound_append (hrows row hrow) hbound (h column hcolumn)

/-- Grouping by columns in scope keeps some of the rows. -/
theorem groupRows_scoped {groupBy : Option (List ColumnRef)} {own scope : List String}
    {rows : List Bindings} {outer : Bindings}
    (h : ∀ columns, groupBy = some columns → ∀ column ∈ columns, column.qualifier ∈ own ++ scope)
    (hbound : scope ⊆ Dict.names outer) (hrows : ∀ row ∈ rows, Dict.names row = own) :
    ∃ grouped, groupRows groupBy outer rows = .ok grouped ∧ grouped.Sublist rows := by
  cases groupBy with
  | none => exact ⟨rows, rfl, List.Sublist.refl rows⟩
  | some columns =>
      obtain ⟨values, hvalues⟩ := values_scoped (h columns rfl) hbound hrows
      exact ⟨_, groupRows_ok hvalues, firstOfEach_sublist _ _ _⟩

/-- Sorting by columns in scope keeps the rows. -/
theorem sortRows_scoped {orderBy : Option (List SortKey)} {own scope : List String}
    {rows : List Bindings} {outer : Bindings}
    (h : ∀ keys, orderBy = some keys → ∀ key ∈ keys, key.column.qualifier ∈ own ++ scope)
    (hbound : scope ⊆ Dict.names outer) (hrows : ∀ row ∈ rows, Dict.names row = own) :
    ∃ sorted, sortRows orderBy outer rows = .ok sorted ∧ sorted ⊆ rows := by
  cases orderBy with
  | none => exact ⟨rows, rfl, List.Subset.refl rows⟩
  | some keys =>
      have hcolumns : ∀ column ∈ keys.map (·.column), column.qualifier ∈ own ++ scope := by
        intro column hcolumn
        obtain ⟨key, hkey, rfl⟩ := List.mem_map.mp hcolumn
        exact h keys rfl key hkey
      obtain ⟨values, hvalues⟩ := values_scoped hcolumns hbound hrows
      exact ⟨_, sortRows_ok hvalues, (stableSort_perm _ _).subset⟩

/-! ### Evaluating well-scoped statements -/

mutual

/-- A well-scoped expression has a value wherever its scope is bound.  The induction follows the
syntax: a row of a join binds what its condition sees, and what the clauses of a statement see is
bound by each of its joined rows with what is around them. -/
theorem Expr.Scoped.eval_ok (db : Database) : ∀ {expr : Expr} {scope : List String}
    {bindings : Bindings}, expr.Scoped scope → scope ⊆ Dict.names bindings →
      ∃ value, expr.eval db bindings = .ok value
  | .column ref, scope, bindings, h, hbound => by
      rw [Expr.Scoped] at h
      exact Bindings.value_ok_iff.mpr (hbound h)
  | .literal value, scope, bindings, h, hbound => ⟨value, rfl⟩
  | .compare left op right, scope, bindings, h, hbound => by
      rw [Expr.Scoped] at h
      obtain ⟨l, hl⟩ := Expr.Scoped.eval_ok db h.1 hbound
      obtain ⟨r, hr⟩ := Expr.Scoped.eval_ok db h.2 hbound
      rw [Expr.eval, hl, hr]
      exact ⟨_, rfl⟩
  | .connect left op right, scope, bindings, h, hbound => by
      rw [Expr.Scoped] at h
      obtain ⟨l, hl⟩ := Expr.Scoped.eval_ok db h.1 hbound
      obtain ⟨r, hr⟩ := Expr.Scoped.eval_ok db h.2 hbound
      rw [Expr.eval, hl, hr]
      by_cases hdecide : l.truth = op.deciding
      · exact ⟨truthValue op.deciding, by simp [hdecide, bind, Except.bind, pure, Except.pure]⟩
      · exact ⟨truthValue (op.apply l.truth r.truth),
          by simp [hdecide, bind, Except.bind, pure, Except.pure]⟩
  | .not inner, scope, bindings, h, hbound => by
      rw [Expr.Scoped] at h
      obtain ⟨value, hvalue⟩ := Expr.Scoped.eval_ok db h hbound
      rw [Expr.eval, hvalue]
      exact ⟨_, rfl⟩
  | .like subject pattern insensitive, scope, bindings, h, hbound => by
      rw [Expr.Scoped] at h
      obtain ⟨value, hvalue⟩ := Expr.Scoped.eval_ok db h hbound
      rw [Expr.eval, hvalue]
      exact ⟨_, rfl⟩
  | .oneOf subject values negated, scope, bindings, h, hbound => by
      rw [Expr.Scoped] at h
      obtain ⟨value, hvalue⟩ := Expr.Scoped.eval_ok db h hbound
      rw [Expr.eval, hvalue]
      exact ⟨_, rfl⟩
  | .isNull subject negated, scope, bindings, h, hbound => by
      rw [Expr.Scoped] at h
      obtain ⟨value, hvalue⟩ := Expr.Scoped.eval_ok db h hbound
      rw [Expr.eval, hvalue]
      exact ⟨_, rfl⟩
  | .exists statement, scope, bindings, h, hbound => by
      rw [Expr.Scoped] at h
      obtain ⟨rows, hrows, -⟩ := selectRows_ok db h hbound
      rw [Expr.eval, hrows]
      exact ⟨_, rfl⟩

/-- A well-scoped statement has rows, each of which binds its qualifiers. -/
theorem selectRows_ok (db : Database) : ∀ {statement : SelectOf Expr} {scope : List String}
    {outer : Bindings}, selectScoped statement scope → scope ⊆ Dict.names outer →
      ∃ rows, selectRows db statement outer = .ok rows ∧
        ∀ row ∈ rows, Dict.names row = statement.scope
  | ⟨_, table, label, joins, filter, groupBy, orderBy, _⟩, scope, outer, h, hbound => by
      rw [selectScoped] at h
      obtain ⟨hjoins, hfilter, hgroup, horder⟩ := h
      have hbase : ∀ row ∈ (db.rows table).map fun row => [(label.getD table, some row)],
          Dict.names row = [label.getD table] := by
        intro row hrow
        obtain ⟨stored, -, rfl⟩ := List.mem_map.mp hrow
        rfl
      obtain ⟨joined, hjoined, hnames⟩ := joinAll_ok db hjoins hbound hbase
      obtain ⟨kept, hkept, hkeptRows⟩ := keepRows_scoped db hfilter hbound hnames
      obtain ⟨grouped, hgrouped, hgroupedRows⟩ := groupRows_scoped hgroup hbound
        fun row hrow => hnames row (hkeptRows hrow)
      obtain ⟨sorted, hsorted, hsortedRows⟩ := sortRows_scoped horder hbound
        fun row hrow => hnames row (hkeptRows (hgroupedRows.subset hrow))
      refine ⟨sorted, ?_, fun row hrow =>
        hnames row (hkeptRows (hgroupedRows.subset (hsortedRows hrow)))⟩
      rw [selectRows]
      simp only [hjoined, hkept, hgrouped, hsorted, bind, Except.bind]

/-- Well-scoped joins of rows that bind their own qualifiers have rows that bind the labels too. -/
theorem joinAll_ok (db : Database) : ∀ {joins : List (JoinOf Expr)} {own scope : List String}
    {rows : List Bindings} {outer : Bindings}, joinsScoped joins own scope →
      scope ⊆ Dict.names outer → (∀ row ∈ rows, Dict.names row = own) →
      ∃ joined, joinAll db joins own rows outer = .ok joined ∧
        ∀ row ∈ joined, Dict.names row = own ++ joins.map (·.label)
  | [], own, scope, rows, outer, _, _, hrows => by
      refine ⟨rows, rfl, ?_⟩
      simpa using hrows
  | ⟨kind, table, label, on⟩ :: rest, own, scope, rows, outer, h, hbound, hrows => by
      rw [joinsScoped] at h
      have hon : ∀ row ∈ rows, ∀ other ∈ db.rows table,
          ∃ value, on.eval db (row ++ [(label, some other)] ++ outer) = .ok value := by
        intro row hrow other hother
        refine Expr.Scoped.eval_ok db h.1 (bound_append ?_ hbound)
        rw [Dict.names_append, hrows row hrow]
        rfl
      obtain ⟨joined, hjoined, hnames⟩ := joinAll_ok db h.2 hbound
        (fun row hrow => names_of_mem_join hrows hrow)
      refine ⟨joined, (joinAll_cons hon).trans hjoined, ?_⟩
      intro row hrow
      rw [hnames row hrow, List.map_cons, List.append_assoc]
      rfl

/-- A well-scoped filter keeps some of the rows. -/
theorem keepRows_scoped (db : Database) : ∀ {filter : Option Expr} {own scope : List String}
    {rows : List Bindings} {outer : Bindings}, filterScoped filter (own ++ scope) →
      scope ⊆ Dict.names outer → (∀ row ∈ rows, Dict.names row = own) →
      ∃ kept, keepRows db filter rows outer = .ok kept ∧ kept ⊆ rows
  | none, own, scope, rows, outer, _, _, _ => ⟨rows, rfl, List.Subset.refl rows⟩
  | some condition, own, scope, rows, outer, h, hbound, hrows => by
      rw [filterScoped] at h
      have hvalue : ∀ row ∈ rows, ∃ value, condition.eval db (row ++ outer) = .ok value :=
        fun row hrow => Expr.Scoped.eval_ok db h (bound_append (hrows row hrow) hbound)
      exact ⟨_, keepRows_ok hvalue, (List.filter_sublist).subset⟩

end

/-- A window leaves rows out. -/
theorem cut_sublist {α : Type} (window : Option Window) (rows : List α) :
    (Window.cut window rows).Sublist rows := by
  unfold Window.cut
  split
  · exact List.Sublist.refl rows
  · next window =>
      have hdrop : (rows.drop (window.offset.getD 0)).Sublist rows := List.drop_sublist _ _
      dsimp only
      split
      · exact (List.take_sublist _ _).trans hdrop
      · exact hdrop

theorem cut_subset {α : Type} (window : Option Window) (rows : List α) :
    Window.cut window rows ⊆ rows :=
  (cut_sublist window rows).subset

theorem cut_map {α β : Type} (window : Option Window) (f : α → β) (items : List α) :
    Window.cut window (items.map f) = (Window.cut window items).map f := by
  unfold Window.cut
  cases window with
  | none => rfl
  | some window =>
      dsimp only
      cases window.count <;> simp

/-- A row that binds the qualifiers of the outputs has a result row. -/
theorem project_scoped {outputs : List Output} {row : Bindings}
    (h : ∀ output ∈ outputs, ∀ ref label, output = .column ref label →
      ref.qualifier ∈ Dict.names row) : ∃ result, project outputs row = .ok result := by
  have hfold : ∀ result : Row, ∃ final, outputs.foldlM (Output.addTo row) result = .ok final := by
    induction outputs with
    | nil => exact fun result => ⟨result, rfl⟩
    | cons output rest ih =>
        intro result
        have hrest := ih fun other hother => h other (List.mem_cons_of_mem _ hother)
        rw [List.foldlM_cons]
        cases output with
        | count label => exact hrest result
        | column ref label =>
            obtain ⟨value, hvalue⟩ :=
              Bindings.value_ok_iff.mpr (h _ List.mem_cons_self ref label rfl)
            rw [Output.addTo_column hvalue]
            exact hrest _
  by_cases hsome : outputs = []
  · subst hsome
    exact ⟨_, rfl⟩
  · rw [project_eq hsome]
    exact hfold []

/-- A statement whose outputs are columns, at least one where it has rows, yields the cells of the
rows in its window. -/
theorem run_cells {db : Database} {statement : Select} {rows : List Bindings}
    (hrows : selectRows db statement [] = .ok rows) (hsome : rows ≠ [] → statement.outputs ≠ [])
    (houtputs : ∀ output ∈ statement.outputs, ∃ ref label, output = .column ref label ∧
      ∀ bindings ∈ rows, ref.qualifier ∈ Dict.names bindings) :
    db.run statement = .ok ((Window.cut statement.window rows).map fun bindings =>
      Dict.ofPairs (cells statement.outputs bindings)) := by
  have hcounter : statement.counter? = none := by
    refine counter?_eq_none ?_
    intro output houtput
    obtain ⟨ref, label, heq, -⟩ := houtputs output houtput
    exact ⟨ref, label, heq⟩
  have hproject : ∀ bindings ∈ Window.cut statement.window rows,
      project statement.outputs bindings =
        .ok (Dict.ofPairs (cells statement.outputs bindings)) := by
    intro bindings hbindings
    have hmem := cut_subset _ _ hbindings
    refine project_ok (hsome (List.ne_nil_of_mem hmem)) ?_
    intro output houtput
    obtain ⟨ref, label, heq, hbound⟩ := houtputs output houtput
    exact ⟨ref, label, heq, hbound bindings hmem⟩
  unfold Database.run
  simp only [hrows, hcounter, bind, Except.bind]
  exact mapM_ok hproject

/-- A well-scoped statement runs on every database. -/
theorem SelectOf.WellScoped.run_ok {statement : Select} (h : statement.WellScoped)
    (db : Database) : ∃ rows, db.run statement = .ok rows := by
  obtain ⟨rows, hrows, hnames⟩ := selectRows_ok db h.clauses (List.nil_subset (Dict.names []))
  unfold Database.run
  simp only [hrows, bind, Except.bind]
  cases statement.counter? with
  | some output => exact ⟨_, rfl⟩
  | none =>
      have hproject : ∀ row ∈ Window.cut statement.window rows,
          ∃ result, project statement.outputs row = .ok result := by
        intro row hrow
        refine project_scoped ?_
        rw [hnames row (cut_subset _ _ hrow)]
        exact h.outputs
      obtain ⟨result, hresult⟩ := exists_results hproject
      exact ⟨_, mapM_ok hresult⟩

end NestedQuery
