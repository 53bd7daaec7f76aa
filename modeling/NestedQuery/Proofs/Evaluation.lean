import NestedQuery.Statement.Evaluation
import NestedQuery.Proofs.Dictionary
import NestedQuery.Proofs.StableSort
import Mathlib.Data.List.Forall2

/-!
# Evaluation as plain list operations

A statement is evaluated step by step, and each step may fail.  Where no step
fails, evaluation is what it looks like: joining is pairing each row on the left
with the rows that are accepted, filtering is filtering, grouping keeps the
first row of every key, and sorting is a stable sort.  Each lemma here says so
for one of the steps, given that the predicates and columns it needs have
values.
-/

namespace NestedQuery

theorem Value.isNull_eq_false {value : Value} : value.isNull = false ↔ value ≠ .null := by
  cases value <;> simp [Value.isNull]

/-! ### Lists of steps -/

section Lists

variable {ε α β : Type}

/-- Steps that all succeed give the list of their results. -/
theorem mapM_ok {f : α → Except ε β} {g : α → β} {items : List α}
    (h : ∀ item ∈ items, f item = .ok (g item)) : items.mapM f = .ok (items.map g) := by
  induction items with
  | nil => rfl
  | cons item rest ih =>
      rw [List.mapM_cons, h item List.mem_cons_self,
        ih fun other hother => h other (List.mem_cons_of_mem _ hother)]
      rfl

/-- Steps that succeed give their results item by item. -/
theorem forall₂_of_mapM_ok {f : α → Except ε β} {items : List α} {results : List β}
    (h : items.mapM f = .ok results) :
    List.Forall₂ (fun item result => f item = .ok result) items results := by
  induction items generalizing results with
  | nil =>
      cases h
      exact .nil
  | cons item rest ih =>
      rw [List.mapM_cons] at h
      cases hfirst : f item with
      | error error =>
          rw [hfirst] at h
          cases h
      | ok first =>
          rw [hfirst] at h
          cases hothers : rest.mapM f with
          | error error =>
              rw [hothers] at h
              cases h
          | ok others =>
              rw [hothers] at h
              cases h
              exact .cons hfirst (ih hothers)

/-- So each result is that of one of the items. -/
theorem exists_of_mapM_ok {f : α → Except ε β} {items : List α} {results : List β}
    (h : items.mapM f = .ok results) {result : β} (hresult : result ∈ results) :
    ∃ item ∈ items, f item = .ok result := by
  obtain ⟨hlength, hget⟩ := List.forall₂_iff_get.mp (forall₂_of_mapM_ok h)
  obtain ⟨i, hi, rfl⟩ := List.mem_iff_getElem.mp hresult
  exact ⟨items[i], List.getElem_mem (hlength ▸ hi), hget i (hlength ▸ hi) hi⟩

/-- Tests that all succeed keep the items whose test is positive. -/
theorem filterM_ok {test : α → Except ε Bool} {keep : α → Bool} {items : List α}
    (h : ∀ item ∈ items, test item = .ok (keep item)) :
    items.filterM test = .ok (items.filter keep) := by
  have haux : ∀ kept, List.filterAuxM test items kept =
      .ok ((items.filter keep).reverse ++ kept) := by
    induction items with
    | nil => exact fun kept => rfl
    | cons item rest ih =>
        intro kept
        have hstep : List.filterAuxM test (item :: rest) kept =
            List.filterAuxM test rest (if keep item then item :: kept else kept) := by
          rw [List.filterAuxM, h item List.mem_cons_self]
          cases keep item <;> rfl
        rw [hstep, ih fun other hother => h other (List.mem_cons_of_mem _ hother)]
        cases hkeep : keep item <;> simp [hkeep]
  rw [List.filterM, haux []]
  simp [bind, Except.bind, pure, Except.pure]

/-- What tests keep are items whose test is positive. -/
theorem mem_of_filterM_ok {test : α → Except ε Bool} {items kept : List α}
    (h : items.filterM test = .ok kept) {item : α} (hitem : item ∈ kept) :
    item ∈ items ∧ test item = .ok true := by
  have haux : ∀ (before after : List α), List.filterAuxM test items before = .ok after →
      item ∈ after → item ∈ before ∨ item ∈ items ∧ test item = .ok true := by
    clear h hitem
    induction items with
    | nil =>
        rintro before after h hitem
        cases h
        exact .inl hitem
    | cons first rest ih =>
        intro before after h hitem
        rw [List.filterAuxM] at h
        cases hfirst : test first with
        | error error =>
            rw [hfirst] at h
            cases h
        | ok keep =>
            rw [hfirst] at h
            rcases ih _ _ h hitem with hbefore | ⟨hrest, htest⟩
            · cases keep with
              | false => exact .inl hbefore
              | true =>
                  rcases List.mem_cons.mp hbefore with rfl | hmem
                  · exact .inr ⟨List.mem_cons_self, hfirst⟩
                  · exact .inl hmem
            · exact .inr ⟨List.mem_cons_of_mem _ hrest, htest⟩
  rw [List.filterM] at h
  cases hkept : List.filterAuxM test items [] with
  | error error =>
      rw [hkept] at h
      cases h
  | ok found =>
      rw [hkept] at h
      cases h
      exact (haux [] found hkept (List.mem_reverse.mp hitem)).resolve_left List.not_mem_nil

theorem flatMap_filter (keep : α → Bool) (f : α → List β) (items : List α) :
    (items.filter keep).flatMap f = items.flatMap fun item => if keep item then f item else [] := by
  induction items with
  | nil => rfl
  | cons item rest ih =>
      rw [List.filter_cons, List.flatMap_cons, ← ih]
      cases keep item <;> rfl

/-- Items that contribute nothing may be left out. -/
theorem flatMap_filter_of_nil {keep : α → Bool} {f : α → List β} {items : List α}
    (h : ∀ item ∈ items, keep item = false → f item = []) :
    (items.filter keep).flatMap f = items.flatMap f := by
  rw [flatMap_filter]
  refine List.flatMap_congr fun item hitem => ?_
  split
  · rfl
  · next hdropped => exact (h item hitem (Bool.eq_false_iff.mpr hdropped)).symm

/-- Where each of some items has a result, one function gives all of them. -/
theorem exists_results [Inhabited β] {f : α → Except ε β} {items : List α}
    (h : ∀ item ∈ items, ∃ result, f item = .ok result) :
    ∃ g : α → β, ∀ item ∈ items, f item = .ok (g item) := by
  refine ⟨fun item => (f item).toOption.getD default, ?_⟩
  intro item hitem
  obtain ⟨result, hresult⟩ := h item hitem
  simp [hresult, Except.toOption]

/-- The first item of every key, of changed items. -/
theorem firstOfEach_map (key : β → String) (change : α → β) (seen : List String)
    (items : List α) :
    firstOfEach key seen (items.map change) =
      (firstOfEach (fun item => key (change item)) seen items).map change := by
  induction items generalizing seen with
  | nil => rfl
  | cons item rest ih =>
      rw [List.map_cons, firstOfEach, firstOfEach]
      split
      · exact ih seen
      · rw [List.map_cons, ih]

/-- The first items of every key are among the items. -/
theorem firstOfEach_sublist (key : α → String) (seen : List String) (items : List α) :
    (firstOfEach key seen items).Sublist items := by
  induction items generalizing seen with
  | nil => exact List.Sublist.refl _
  | cons item rest ih =>
      rw [firstOfEach]
      split
      · exact (ih seen).cons item
      · exact (ih _).cons_cons item

end Lists

/-! ### Columns -/

instance : Inhabited Value := ⟨.null⟩

/-- The value of a column in a row; null where the row has no such column. -/
def Row.value (row : Row) (column : String) : Value :=
  (row.lookup column).getD .null

/-- A column of a qualifier with a row has the value of the row. -/
theorem Bindings.value_of_some {bindings : Bindings} {qualifier : String} {row : Row}
    (h : bindings.lookup qualifier = some (some row)) (column : String) :
    bindings.value ⟨qualifier, column⟩ = .ok (row.value column) := by
  simp [Bindings.value, h, Row.value, pure, Except.pure]

/-- A column has a value exactly if its qualifier is bound. -/
theorem Bindings.value_ok_iff {bindings : Bindings} {column : ColumnRef} :
    (∃ value, bindings.value column = .ok value) ↔ column.qualifier ∈ Dict.names bindings := by
  rw [← Dict.lookup_isSome_iff, Bindings.value]
  cases bindings.lookup column.qualifier with
  | none => simp [throw, throwThe, MonadExceptOf.throw]
  | some row => simp [pure, Except.pure]

/-- Columns of bound qualifiers have values. -/
theorem Bindings.values_ok {bindings : Bindings} {columns : List ColumnRef}
    (h : ∀ column ∈ columns, column.qualifier ∈ Dict.names bindings) :
    ∃ values, bindings.values columns = .ok values := by
  obtain ⟨value, hvalue⟩ := exists_results fun column hcolumn =>
    Bindings.value_ok_iff.mpr (h column hcolumn)
  exact ⟨_, mapM_ok hvalue⟩

/-! ### Joining -/

/-- Whether a predicate comes out true of a row. -/
def accepts (holds : Bindings → Except QueryError (Option Bool)) (row : Bindings) : Bool :=
  match holds row with
  | .ok (some true) => true
  | _ => false

/-- A row is accepted exactly if the predicate is true of it. -/
theorem accepts_of_ok {holds : Bindings → Except QueryError (Option Bool)} {row : Bindings}
    {truth : Option Bool} (h : holds row = .ok truth) :
    accepts holds row = decide (truth = some true) := by
  rw [accepts, h]
  rcases truth with _ | _ | _ <;> rfl

/-- The rows that a join makes of one row on the left: its accepted pairs, or the row alone if it
has none and the join keeps it. -/
def besides (accept : Bindings → Bool) (kind : JoinKind) (label : String) (right : List Row)
    (row : Bindings) : List Bindings :=
  let found := (right.filter fun other => accept (row ++ [(label, some other)])).map
    fun other => row ++ [(label, some other)]
  if found.isEmpty ∧ (kind = .left ∨ kind = .full) then [row ++ [(label, none)]] else found

/-- The rows that a join makes of the rows on the right that are in no accepted pair. -/
def unpaired (accept : Bindings → Bool) (kind : JoinKind) (label : String)
    (qualifiers : List String) (left : List Bindings) (right : List Row) : List Bindings :=
  if kind = .right ∨ kind = .full then
    (right.filter fun other => !left.any fun row => accept (row ++ [(label, some other)])).map
      fun other => qualifiers.map (·, none) ++ [(label, some other)]
  else []

/-- The numbered rows that a row on the left is paired with. -/
theorem matching_ok {holds : Bindings → Except QueryError (Option Bool)} {label : String}
    {row : Bindings} {right : List (Nat × Row)}
    (h : ∀ other ∈ right, ∃ truth, holds (row ++ [(label, some other.2)]) = .ok truth) :
    matching holds label row right =
      .ok ((right.filter fun other => accepts holds (row ++ [(label, some other.2)])).map
        fun other => (other.1, row ++ [(label, some other.2)])) := by
  have htried : ∀ other ∈ right,
      (do return if (← holds (row ++ [(label, some other.2)])) = some true then
        some (other.1, row ++ [(label, some other.2)]) else none :
          Except QueryError (Option (Nat × Bindings))) =
        .ok (if accepts holds (row ++ [(label, some other.2)]) then
          some (other.1, row ++ [(label, some other.2)]) else none) := by
    intro other hother
    obtain ⟨truth, htruth⟩ := h other hother
    rw [accepts_of_ok htruth, htruth]
    by_cases heq : truth = some true <;> simp [heq, bind, Except.bind, pure, Except.pure]
  rw [matching, mapM_ok htried]
  simp only [bind, Except.bind, pure, Except.pure, Except.ok.injEq]
  rw [List.filterMap_map, ← List.filterMap_eq_filter, List.map_filterMap]
  congr 1
  funext other
  simp only [Function.comp_apply, id_eq, Option.guard_apply]
  split <;> rfl

/-- Rows numbered in turn have no number twice. -/
theorem eq_of_mem_numbered {right : List Row} {position : Nat} {one other : Row}
    (hone : (position, one) ∈ (List.range right.length).zip right)
    (hother : (position, other) ∈ (List.range right.length).zip right) : one = other := by
  have hget : ∀ row, (position, row) ∈ (List.range right.length).zip right →
      right[position]? = some row := by
    intro row hrow
    obtain ⟨index, hindex, heq⟩ := List.mem_iff_getElem.mp hrow
    simp only [List.getElem_zip, List.getElem_range, Prod.mk.injEq] at heq
    obtain ⟨rfl, rfl⟩ := heq
    simp
  exact Option.some.inj ((hget one hone).symm.trans (hget other hother))

/-- Where the predicate has a truth value on every pair, a join yields the rows made of each row
on the left, then those made of the unpaired rows on the right. -/
theorem joinRows_ok {holds : Bindings → Except QueryError (Option Bool)} {kind : JoinKind}
    {label : String} {qualifiers : List String} {left : List Bindings} {right : List Row}
    (h : ∀ row ∈ left, ∀ other ∈ right,
      ∃ truth, holds (row ++ [(label, some other)]) = .ok truth) :
    joinRows holds kind label qualifiers left right =
      .ok (left.flatMap (besides (accepts holds) kind label right) ++
        unpaired (accepts holds) kind label qualifiers left right) := by
  set numbered := (List.range right.length).zip right with hnumbered
  have hsecond : numbered.map (·.2) = right := by
    rw [hnumbered, List.map_snd_zip]
    simp
  have hmem : ∀ other ∈ numbered, other.2 ∈ right := by
    intro other hother
    rw [← hsecond]
    exact List.mem_map_of_mem hother
  let found := fun row : Bindings =>
    (numbered.filter fun other => accepts holds (row ++ [(label, some other.2)])).map
      fun other => (other.1, row ++ [(label, some other.2)])
  have hpairs : ∀ row ∈ left, (do return (row, ← matching holds label row numbered) :
      Except QueryError (Bindings × List (Nat × Bindings))) = .ok (row, found row) := by
    intro row hrow
    rw [matching_ok fun other hother => h row hrow other.2 (hmem other hother)]
    rfl
  have hfound : ∀ row, (found row).map (·.2) =
      (right.filter fun other => accepts holds (row ++ [(label, some other)])).map
        fun other => row ++ [(label, some other)] := by
    intro row
    rw [← hsecond, List.filter_map, List.map_map, List.map_map]
    rfl
  have hleft : ∀ row, (if (found row).isEmpty ∧ (kind = .left ∨ kind = .full) then
      [row ++ [(label, none)]] else (found row).map (·.2)) =
      besides (accepts holds) kind label right row := by
    intro row
    simp only [besides, ← hfound row, List.isEmpty_map]
  have hused : ∀ other ∈ numbered, (left.flatMap fun row => (found row).map (·.1)).contains other.1 =
      left.any fun row => accepts holds (row ++ [(label, some other.2)]) := by
    intro other hother
    rw [Bool.eq_iff_iff, List.contains_iff_mem, List.mem_flatMap, List.any_eq_true]
    constructor
    · rintro ⟨row, hrow, hposition⟩
      obtain ⟨pair, hpair, heq⟩ := List.mem_map.mp hposition
      obtain ⟨same, hsame, rfl⟩ := List.mem_map.mp hpair
      obtain ⟨hsame, haccept⟩ := List.mem_filter.mp hsame
      have hrows : same.2 = other.2 :=
        eq_of_mem_numbered (show (other.1, same.2) ∈ numbered from heq ▸ hsame) hother
      exact ⟨row, hrow, hrows ▸ haccept⟩
    · rintro ⟨row, hrow, haccept⟩
      exact ⟨row, hrow, List.mem_map.mpr ⟨_, List.mem_map.mpr
        ⟨other, List.mem_filter.mpr ⟨hother, haccept⟩, rfl⟩, rfl⟩⟩
  have hright : (numbered.filter fun other =>
      !(left.flatMap fun row => (found row).map (·.1)).contains other.1).map
        (fun other => qualifiers.map (·, none) ++ [(label, some other.2)]) =
      (right.filter fun other => !left.any fun row =>
        accepts holds (row ++ [(label, some other)])).map
          fun other => qualifiers.map (·, (none : Option Row)) ++ [(label, some other)] := by
    rw [List.filter_congr fun other hother => congrArg (!·) (hused other hother), ← hsecond,
      List.filter_map, List.map_map]
    rfl
  rw [joinRows, ← hnumbered, mapM_ok hpairs]
  simp only [bind, Except.bind, pure, Except.pure, Except.ok.injEq, List.flatMap_map]
  congr 1
  · exact List.flatMap_congr fun row _ => hleft row
  · rw [unpaired]
    split
    · exact hright
    · rfl

/-! ### Filtering, grouping and sorting -/

/-- A predicate has a truth value exactly if it has a value. -/
theorem Expr.truth_ok {db : Database} {condition : Expr} {bindings : Bindings} {value : Value}
    (h : condition.eval db bindings = .ok value) :
    condition.truth db bindings = .ok value.truth := by
  rw [Expr.truth, h]
  rfl

/-- The truth of a truth value as a scalar. -/
@[simp]
theorem truth_truthValue (truth : Option Bool) : (truthValue truth).truth = truth := by
  rcases truth with _ | _ | _ <;> rfl

/-- The next join of a statement, where its predicate has a value on every pair. -/
theorem joinAll_cons {db : Database} {kind : JoinKind} {table label : String} {on : Expr}
    {rest : List Join} {qualifiers : List String} {rows : List Bindings} {outer : Bindings}
    (h : ∀ row ∈ rows, ∀ other ∈ db.rows table,
      ∃ value, on.eval db (row ++ [(label, some other)] ++ outer) = .ok value) :
    let accept := accepts fun row => on.truth db (row ++ outer)
    joinAll db (⟨kind, table, label, on⟩ :: rest) qualifiers rows outer =
      joinAll db rest (qualifiers ++ [label])
        (rows.flatMap (besides accept kind label (db.rows table)) ++
          unpaired accept kind label qualifiers rows (db.rows table)) outer := by
  have htruth : ∀ row ∈ rows, ∀ other ∈ db.rows table,
      ∃ truth, on.truth db (row ++ [(label, some other)] ++ outer) = .ok truth := by
    intro row hrow other hother
    obtain ⟨value, hvalue⟩ := h row hrow other hother
    exact ⟨_, Expr.truth_ok hvalue⟩
  intro accept
  have hjoin : joinRows (fun row => on.truth db (row ++ outer)) kind label qualifiers rows
      (db.rows table) = .ok (rows.flatMap (besides accept kind label (db.rows table)) ++
        unpaired accept kind label qualifiers rows (db.rows table)) := joinRows_ok htruth
  simp only [Expr.truth] at hjoin
  rw [joinAll, hjoin]
  rfl

/-- Where a predicate has a value on every row, the rows it is true of are kept. -/
theorem keepRows_ok {db : Database} {condition : Expr} {rows : List Bindings} {outer : Bindings}
    (h : ∀ row ∈ rows, ∃ value, condition.eval db (row ++ outer) = .ok value) :
    keepRows db (some condition) rows outer =
      .ok (rows.filter (accepts fun row => condition.truth db (row ++ outer))) := by
  rw [keepRows]
  refine filterM_ok ?_
  intro row hrow
  obtain ⟨value, hvalue⟩ := h row hrow
  have haccept : accepts (fun row => condition.truth db (row ++ outer)) row =
      decide (value.truth = some true) := accepts_of_ok (Expr.truth_ok hvalue)
  rw [haccept, hvalue]
  rfl

/-- Where the grouping columns have values, the first row of every combination of them is kept. -/
theorem groupRows_ok {columns : List ColumnRef} {outer : Bindings} {rows : List Bindings}
    {values : Bindings → List Value}
    (h : ∀ row ∈ rows, (row ++ outer).values columns = .ok (values row)) :
    groupRows (some columns) outer rows =
      .ok (firstOfEach (fun row => Value.jointKey (values row)) [] rows) := by
  have hkeyed : ∀ row ∈ rows,
      (do return (Value.jointKey (← (row ++ outer).values columns), row) :
        Except QueryError (String × Bindings)) = .ok (Value.jointKey (values row), row) := by
    intro row hrow
    rw [h row hrow]
    rfl
  rw [groupRows, mapM_ok hkeyed]
  simp only [bind, Except.bind, pure, Except.pure, firstOfEach_map, List.map_map]
  congr 1
  exact List.map_id _

/-- Where the columns of the keys have values, the rows are sorted by them, keeping the order of
rows that the keys do not tell apart. -/
theorem sortRows_ok {keys : List SortKey} {outer : Bindings} {rows : List Bindings}
    {values : Bindings → List Value}
    (h : ∀ row ∈ rows, (row ++ outer).values (keys.map (·.column)) = .ok (values row)) :
    sortRows (some keys) outer rows =
      .ok (stableSort (fun a b => sortOrder keys (values a) (values b)) rows) := by
  have hkeyed : ∀ row ∈ rows,
      (do return ((← (row ++ outer).values (keys.map (·.column))), row) :
        Except QueryError (List Value × Bindings)) = .ok (values row, row) := by
    intro row hrow
    rw [h row hrow]
    rfl
  rw [sortRows, mapM_ok hkeyed]
  simp only [bind, Except.bind, pure, Except.pure]
  rw [← @map_stableSort _ _ (fun a b => sortOrder keys (values a) (values b))
    (fun a b => sortOrder keys a.1 b.1) (fun row => (values row, row)) rows fun _ _ _ _ => rfl,
    List.map_map]
  congr 1
  exact List.map_id _

/-! ### Outputs -/

/-- A row with the value of one more output. -/
def Output.addTo (bindings : Bindings) (row : Row) (output : Output) : Except QueryError Row :=
  match output with
  | .column ref _ => do return Dict.put output.name (← bindings.value ref) row
  | .count _ => return row

theorem Output.addTo_column {bindings : Bindings} {ref : ColumnRef} {value : Value}
    (h : bindings.value ref = .ok value) (label : Option String) (row : Row) :
    Output.addTo bindings row (.column ref label) =
      .ok (Dict.put (Output.column ref label).name value row) := by
  simp only [Output.addTo, h, bind, Except.bind, pure, Except.pure]

/-- Outputs are added one after the other. -/
theorem project_eq {outputs : List Output} (hsome : outputs ≠ []) (bindings : Bindings) :
    project outputs bindings = outputs.foldlM (Output.addTo bindings) [] := by
  have hempty : outputs.isEmpty = false := by simpa using hsome
  rw [project, hempty]
  rfl

/-- The value of an output in a row of a join; null where the row binds no such column. -/
def Output.cell (bindings : Bindings) : Output → Value
  | .column ref _ => ((bindings.lookup ref.qualifier).join.bind (·.lookup ref.name)).getD .null
  | .count _ => .null

/-- The values of outputs in a row of a join, by output name. -/
def cells (outputs : List Output) (bindings : Bindings) : List (String × Value) :=
  outputs.map fun output => (output.name, output.cell bindings)

/-- Columns as outputs, at least one, are projected to their cells. -/
theorem project_ok {outputs : List Output} {bindings : Bindings} (hsome : outputs ≠ [])
    (h : ∀ output ∈ outputs, ∃ ref label, output = .column ref label ∧
      ref.qualifier ∈ Dict.names bindings) :
    project outputs bindings = .ok (Dict.ofPairs (cells outputs bindings)) := by
  have hfold : ∀ row : Row, outputs.foldlM (Output.addTo bindings) row =
      .ok (Dict.putAll row (cells outputs bindings)) := by
    clear hsome
    induction outputs with
    | nil => exact fun row => rfl
    | cons output rest ih =>
        intro row
        obtain ⟨ref, label, rfl, hbound⟩ := h output List.mem_cons_self
        obtain ⟨found, hfound⟩ := Option.isSome_iff_exists.mp (Dict.lookup_isSome_iff.mpr hbound)
        have hvalue : bindings.value ref = .ok ((Output.column ref label).cell bindings) := by
          rw [Bindings.value, Output.cell, hfound]
          rfl
        rw [List.foldlM_cons, Output.addTo_column hvalue]
        exact ih (fun other hother => h other (List.mem_cons_of_mem _ hother)) _
  rw [project_eq hsome]
  exact hfold []

/-- Columns as outputs, at least one, are only projected where their qualifiers are bound. -/
theorem bound_of_project {outputs : List Output} {bindings : Bindings} {row : Row}
    (hsome : outputs ≠ []) (hcolumns : ∀ output ∈ outputs, ∃ ref label, output = .column ref label)
    (h : project outputs bindings = .ok row) :
    ∀ output ∈ outputs, ∃ ref label, output = .column ref label ∧
      ref.qualifier ∈ Dict.names bindings := by
  rw [project_eq hsome] at h
  clear hsome
  generalize ([] : Row) = start at h
  induction outputs generalizing start with
  | nil => exact fun output houtput => nomatch houtput
  | cons output rest ih =>
      obtain ⟨⟨ref, label, rfl⟩, hrest⟩ := List.forall_mem_cons.mp hcolumns
      rw [List.foldlM_cons] at h
      cases hvalue : bindings.value ref with
      | error error => simp [Output.addTo, hvalue, bind, Except.bind] at h
      | ok value =>
          rw [Output.addTo_column hvalue] at h
          have hbound := Bindings.value_ok_iff.mp ⟨value, hvalue⟩
          exact List.forall_mem_cons.mpr ⟨⟨ref, label, rfl, hbound⟩, ih hrest _ h⟩

/-- So a projected row is made of the cells of the outputs. -/
theorem project_cells {outputs : List Output} {bindings : Bindings} {row : Row}
    (hsome : outputs ≠ []) (hcolumns : ∀ output ∈ outputs, ∃ ref label, output = .column ref label)
    (h : project outputs bindings = .ok row) : row = Dict.ofPairs (cells outputs bindings) :=
  Except.ok.inj (h.symm.trans (project_ok hsome (bound_of_project hsome hcolumns h)))

/-- A statement whose outputs are columns does not count. -/
theorem counter?_eq_none {statement : Select}
    (h : ∀ output ∈ statement.outputs, ∃ ref label, output = .column ref label) :
    statement.counter? = none := by
  refine List.find?_eq_none.mpr ?_
  intro output houtput
  obtain ⟨ref, label, rfl⟩ := h output houtput
  simp

end NestedQuery
