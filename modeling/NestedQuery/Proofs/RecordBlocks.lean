import NestedQuery.Proofs.DistinctRecords

/-!
# Records of sorted blocks

The joined rows of a statement come in blocks, one for each base row.  A
statement keeps some of them and sorts those all together, which may tear a block
apart.  Folding gathers it again: the record of a base row is folded from what is
kept of its block, sorted on its own.  So the keys of the base table decide in
which order the records stand, and only the others what is nested in them.
-/

namespace NestedQuery

variable {schema : Schema} {db : Database}

/-! ### Blocks -/

/-- The joined rows that begin with a row of the base table. -/
def Planner.block (planner : Planner) (db : Database) (table : String) (row : Row) :
    List Bindings :=
  extensions db (planner.joins.map PlannedJoin.clause) [(table, some row)]

/-- The block of a row begins with it. -/
theorem Planner.begins_block (planner : Planner) (table : String) (row : Row) :
    ∀ tuple ∈ planner.block db table row, ∃ more, tuple = (table, some row) :: more := by
  intro tuple htuple
  obtain ⟨more, rfl, -⟩ := extension_begins htuple
  exact ⟨more, rfl⟩

/-- The base rows that joined rows begin with, one for every text that tells rows apart. -/
def Layout.leadingRows (layout : Layout) (table : String) (tuples : List Bindings) : List Row :=
  firstOfEach layout.rowKey [] (tuples.map (·.rowOf table))

/-- Rows with keys are identified by them. -/
theorem ApartBy.identityColumns_eq {layout : Layout} {rows : List Row} (h : ApartBy layout.key rows)
    {row : Row} (hrow : row ∈ rows) : layout.identityColumns = layout.key := by
  obtain ⟨column, hcolumn, -⟩ := h.present row hrow
  exact if_neg (by simpa using List.ne_nil_of_mem hcolumn)

/-- Rows with keys that are not all null make records. -/
theorem ApartBy.isPresent {layout : Layout} {rows : List Row} (h : ApartBy layout.key rows)
    {row : Row} (hrow : row ∈ rows) : layout.isPresent row = true := by
  obtain ⟨column, hcolumn, hvalue⟩ := h.present row hrow
  rw [Layout.isPresent, h.identityColumns_eq hrow, List.any_eq_true.mpr
    ⟨column, hcolumn, by simpa [Value.isNull_eq_false] using hvalue⟩, Bool.or_true]

/-- So no two of them have one identity. -/
theorem ApartBy.rowKeys_nodup {layout : Layout} {rows : List Row} (h : ApartBy layout.key rows) :
    (rows.map layout.rowKey).Nodup := by
  cases rows with
  | nil => exact List.nodup_nil
  | cons row rest =>
      unfold Layout.rowKey
      rw [h.identityColumns_eq List.mem_cons_self]
      exact h.apart

section Blocks

variable {layout : Layout} {table : String} {planner : Planner} (h : layout.Begins schema table)

include h

/-- A joined row is grouped by the identity of its base row. -/
theorem Layout.Begins.groupKey_eq_rowKey (tuple : Bindings) :
    layout.groupKey tuple = layout.rowKey (tuple.rowOf table) := by
  rw [Layout.groupKey, h.shows.valuesOf_identity, h.qualifier_eq, Layout.rowKey]

variable (hapart : ((db.rows table).map layout.rowKey).Nodup)

include hapart

/-- The joined rows with the key of a base row are its block. -/
theorem Layout.Begins.filter_tuples {row : Row} (hrow : row ∈ db.rows table) :
    ((planner.tuples db table).filter fun tuple => layout.groupKey tuple == layout.rowKey row) =
      planner.block db table row := by
  refine filter_blocks (fun other _ tuple htuple => ?_) hapart hrow
  obtain ⟨more, rfl⟩ := planner.begins_block table other tuple htuple
  rw [h.groupKey_eq_rowKey, Bindings.rowOf_cons_self, Option.getD_some]

/-- Of sorted joined rows, the record of a base row is folded from its own rows, sorted. -/
theorem Layout.Begins.assemble_inOrder {orderBy : Option (List SortKey)} {keep : Bindings → Bool}
    (horders : ∀ keys, orderBy = some keys →
      OrdersOn (tupleOrder keys) (· ∈ (planner.tuples db table).filter keep)) :
    let found := inOrder orderBy ((planner.tuples db table).filter keep)
    layout.assemble (found.map layout.yield) = (layout.leadingRows table found).map fun row =>
      layout.fold ((inOrder orderBy ((planner.block db table row).filter keep)).map
        layout.yield) := by
  intro found
  have hfirsts : layout.leadingRows table found =
      (firstOfEach layout.groupKey [] found).map (·.rowOf table) := by
    rw [Layout.leadingRows, firstOfEach_map,
      show layout.groupKey = fun tuple => layout.rowKey (tuple.rowOf table) from
        funext h.groupKey_eq_rowKey]
  rw [h.assemble_yield, groupsOf, hfirsts, List.map_map, List.map_map]
  refine List.map_congr_left fun first hfirst => ?_
  have hmem := (inOrder_perm _ _).subset ((firstOfEach_sublist _ _ _).subset hfirst)
  obtain ⟨row, hrow, more, rfl⟩ := planner.tuples_over db table first (List.mem_filter.mp hmem).1
  have hgroup : (found.filter fun tuple =>
      layout.groupKey tuple == layout.groupKey ((table, some row) :: more)) =
        inOrder orderBy ((planner.block db table row).filter keep) := by
    rw [h.groupKey_eq_rowKey ((table, some row) :: more), Bindings.rowOf_cons_self, Option.getD_some,
      ← h.filter_tuples hapart hrow, List.filter_filter, ← inOrder_filter horders,
      List.filter_filter]
    simp only [Bool.and_comm]
  rw [Function.comp_apply, Function.comp_apply, hgroup, Bindings.rowOf_cons_self, Option.getD_some]

end Blocks

/-- A predicate on the base table tests the base row. -/
theorem passes_base {table : String} {filter : Option Expr} (hscoped : filterScoped filter [table])
    (row : Row) (more : Bindings) :
    db.passes filter ((table, some row) :: more) = db.passes filter [(table, some row)] := by
  cases filter with
  | none => rfl
  | some condition =>
      have hbound : [table] ⊆ Dict.names ((table, some row) :: more) :=
        List.cons_subset.mpr ⟨List.mem_cons_self, List.nil_subset _⟩
      have hagree : AgreeOn [table] ((table, some row) :: more) [(table, some row)] := by
        intro name hname
        rw [List.mem_singleton.mp hname, Dict.lookup_cons, Dict.lookup_cons, if_pos rfl, if_pos rfl]
      have heval := hscoped.eval_agree db hbound hagree
      unfold Database.passes accepts Expr.truth
      dsimp only
      rw [heval]

/-! ### Leading rows -/

section Leading

variable {layout : Layout} {table : String} {rows : List Row} {tuples : List Bindings}

/-- No row leads twice. -/
theorem Layout.leadingRows_nodup : (layout.leadingRows table tuples).Nodup :=
  (firstOfEach_keys [] _).1.of_map

/-- Rows that are told apart lead joined rows if these begin with them. -/
theorem Layout.mem_leadingRows (hapart : (rows.map layout.rowKey).Nodup)
    (htuples : ∀ tuple ∈ tuples, tuple.rowOf table ∈ rows) {row : Row} :
    row ∈ layout.leadingRows table tuples ↔ ∃ tuple ∈ tuples, tuple.rowOf table = row := by
  unfold Layout.leadingRows
  rw [mem_firstOfEach, List.mem_map]
  intro one hone other hother heq
  obtain ⟨first, hfirst, rfl⟩ := List.mem_map.mp hone
  obtain ⟨second, hsecond, rfl⟩ := List.mem_map.mp hother
  exact List.inj_on_of_nodup_map hapart (htuples first hfirst) (htuples second hsecond) heq

/-- What is kept of joined rows, however it is sorted, is led by the rows of whose blocks something
is kept. -/
theorem Planner.leadingRows_perm (planner : Planner)
    (hapart : ((db.rows table).map layout.rowKey).Nodup) (orderBy : Option (List SortKey))
    (keep : Bindings → Bool) :
    (layout.leadingRows table (inOrder orderBy ((planner.tuples db table).filter keep))).Perm
      ((db.rows table).filter fun row => (planner.block db table row).any keep) := by
  have hmem : ∀ tuple, tuple ∈ inOrder orderBy ((planner.tuples db table).filter keep) ↔
      ∃ row ∈ db.rows table, tuple ∈ planner.block db table row ∧ keep tuple = true := by
    intro tuple
    rw [(inOrder_perm _ _).mem_iff, List.mem_filter, show planner.tuples db table =
      (db.rows table).flatMap (planner.block db table) from rfl, List.mem_flatMap]
    exact ⟨fun ⟨⟨row, hrow, hblock⟩, hkeep⟩ => ⟨row, hrow, hblock, hkeep⟩,
      fun ⟨row, hrow, hblock, hkeep⟩ => ⟨⟨row, hrow, hblock⟩, hkeep⟩⟩
  have hrowOf : ∀ row, ∀ tuple ∈ planner.block db table row, tuple.rowOf table = row := by
    intro row tuple htuple
    obtain ⟨more, rfl⟩ := planner.begins_block table row tuple htuple
    rw [Bindings.rowOf_cons_self, Option.getD_some]
  refine (List.perm_ext_iff_of_nodup Layout.leadingRows_nodup (hapart.of_map.filter _)).mpr
    fun row => ?_
  rw [Layout.mem_leadingRows hapart, List.mem_filter, List.any_eq_true]
  · constructor
    · rintro ⟨tuple, htuple, rfl⟩
      obtain ⟨row, hrow, hblock, hkeep⟩ := (hmem tuple).mp htuple
      rw [hrowOf row tuple hblock]
      exact ⟨hrow, tuple, hblock, hkeep⟩
    · rintro ⟨hrow, tuple, hblock, hkeep⟩
      exact ⟨tuple, (hmem tuple).mpr ⟨row, hrow, hblock, hkeep⟩, hrowOf row tuple hblock⟩
  · intro tuple htuple
    obtain ⟨row, hrow, hblock, -⟩ := (hmem tuple).mp htuple
    exact hrowOf row tuple hblock ▸ hrow

end Leading

end NestedQuery
