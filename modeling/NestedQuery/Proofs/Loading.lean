import NestedQuery.Proofs.Nesting
import NestedQuery.Proofs.RowwiseJoins
import NestedQuery.Proofs.ValueKeys

/-!
# Loading for one owner

A follow-up statement asks for the related rows of many owners at once, under
the filter and the ordering of its branch.  Which rows one owner then gets does
not depend on the others: they are the rows that the branch selects from the
whole target, as far as they meet the value of the owner, in the order of the
branch.  So loading is a function of one record.
-/

namespace NestedQuery

variable {schema : Schema} {db : Database}

/-! ### Values that meet -/

/-- The values of the row are valid. -/
def Row.Valid (row : Row) : Prop :=
  ∀ column, (row.value column).Valid

/-- All values of all tables are valid. -/
def Database.Valid (db : Database) : Prop :=
  ∀ table, ∀ row ∈ db.rows table, row.Valid

/-- A database is valid if every value in it is. -/
theorem Database.valid_of_entries
    (h : ∀ entry ∈ db, ∀ row ∈ entry.2, ∀ pair ∈ row, pair.2.Valid) : db.Valid := by
  intro table row hrow column
  rw [Database.rows] at hrow
  cases hrows : db.lookup table with
  | none =>
      rw [hrows] at hrow
      cases hrow
  | some rows =>
      rw [hrows] at hrow
      rw [Row.value]
      cases hvalue : row.lookup column with
      | none => trivial
      | some value =>
          exact h _ (Dict.mem_of_lookup hrows) row hrow _ (Dict.mem_of_lookup hvalue)

/-- Whether two values meet across a link: they are equal and have the same key. -/
def Value.meets (value other : Value) : Bool :=
  value.sqlEq other && value.key == other.key

/-- No value meets null. -/
theorem Value.meets_null (value : Value) : value.meets .null = false := by
  unfold Value.meets
  rw [Value.sqlEq_comm, Value.sqlEq_null]
  rfl

/-- So values that meet are not null. -/
theorem Value.ne_null_of_meets {value other : Value} (h : value.meets other = true) :
    value ≠ .null ∧ other ≠ .null :=
  Value.ne_null_of_sqlEq (Bool.and_eq_true_iff.mp h).1

/-- Selecting by the keys of a batch and then handing out by key is meeting the one value. -/
theorem keyed_any_meets {values : List Value} {value one : Value} (hvalid : value.Valid)
    (hvalues : ∀ other ∈ values, other.Valid) (hone : one ∈ values) (hnull : one ≠ .null) :
    ((distinctKeys values).any value.sqlEq && value.key == one.key) = value.meets one := by
  rw [Value.meets, Bool.eq_iff_iff, Bool.and_eq_true, Bool.and_eq_true, List.any_eq_true,
    beq_iff_eq]
  constructor
  · rintro ⟨⟨key, -, heq⟩, hkey⟩
    exact ⟨Value.sqlEq_of_key_eq hvalid (hvalues one hone) (Value.sqlEq_self heq) hkey, hkey⟩
  · rintro ⟨heq, hkey⟩
    obtain ⟨key, hmem, hsame⟩ := exists_distinctKey hone hnull
    refine ⟨⟨key, hmem, ?_⟩, hkey⟩
    exact Value.sqlEq_of_key_eq hvalid (hvalues key (mem_distinctKeys hmem).1)
      (Value.sqlEq_self heq) (hkey.trans hsame.symm)

/-! ### Related rows -/

/-- The columns that a statement for the related rows of a branch yields. -/
def Table.branchColumns (target : Table) (branch : Branch) (link : String) : List String :=
  withHidden branch.shape.fields (link :: target.linkColumns (branch.shape.relations.map (·.1)) ++
    (branch.distinct.getD []).filter target.hasColumn)

/-- The rows of a target that a branch selects, in its order. -/
def Database.candidates (db : Database) (schema : Schema) (target : Table) (branch : Branch) :
    List Row :=
  db.selected target.name (schema.predicate? target.name target.name branch.filter [] 0).1
    (orderClause (schema.sortKeys target.name target.name branch.orderBy []))

/-- The candidates of a relation are rows of its target. -/
theorem candidates_subset {target : Table} {branch : Branch} :
    db.candidates schema target branch ⊆ db.rows target.name := by
  obtain ⟨kept, hkept, hperm⟩ := @selected_perm db target.name
    (schema.predicate? target.name target.name branch.filter [] 0).1
    (orderClause (schema.sortKeys target.name target.name branch.orderBy []))
  exact fun row hrow => hkept.subset (hperm.subset hrow)

/-- The rows among `rows` that a relation leads to from a value, once for every link. -/
def Relation.reached (db : Database) (relation : Relation) (rows : List Row) (value : Value) :
    List Row :=
  match relation.junction with
  | none => rows.filter fun other => (other.value relation.toColumn).meets value
  | some junction => rows.flatMap fun other =>
      ((db.rows junction.table).filter fun link =>
        (link.value junction.fromColumn).meets value &&
          (other.value relation.toColumn).meets (link.value junction.toColumn)).map fun _ => other

/-- The related records of an owner with the given value, their own relations not loaded yet. -/
def Relation.recordsFor (schema : Schema) (db : Database) (relation : Relation) (branch : Branch)
    (value : Value) : List Record :=
  match schema.table? relation.target with
  | none => []
  | some target =>
    (relation.reached db (db.candidates schema target branch) value).map fun row =>
      (row.only (target.branchColumns branch relation.toColumn)).toRecord

/-- The columns of the target by which a branch sorts hold comparable values. -/
def Branch.Sorts (schema : Schema) (db : Database) (target : Table) (branch : Branch) : Prop :=
  ∀ key ∈ schema.sortKeys target.name target.name branch.orderBy [],
    Value.Ordered ((db.rows target.name).map (·.value key.column.name))

/-! ### Batches -/

/-- A predicate on keys passes the rows whose column equals one of them. -/
theorem passes_keyedBy (table column : String) (keys : List Value) (row : Row) :
    db.passes (some (keyedBy table column keys)) [(table, some row)] =
      keys.any (row.value column).sqlEq := by
  have htruth : (keyedBy table column keys).truth db [(table, some row)] =
      .ok ((row.value column).isOneOf keys false) := by
    have hvalue : Bindings.value [(table, some row)] ⟨table, column⟩ = .ok (row.value column) :=
      Bindings.value_of_some (by simp) column
    unfold keyedBy Expr.col Expr.truth
    rw [Expr.eval, Expr.eval, hvalue]
    simp [bind, Except.bind, pure, Except.pure]
  rw [Database.passes, accepts_of_ok htruth, Bool.eq_iff_iff, decide_eq_true_eq,
    Value.isOneOf_eq_true]

/-- The predicate of a statement for related rows. -/
def Branch.condition (schema : Schema) (target : Table) (branch : Branch) (link : String)
    (keys : List Value) : Option Expr :=
  (({ table := target.name, filter := some (keyedBy target.name link keys) } : Select).andWhere?
    (schema.predicate? target.name target.name branch.filter [] 0).1).filter

/-- The statement of a batch selects the columns of the relation from the target, by the links asked
for and in the ordering of the relation. -/
theorem relatedStatement_clauses (target : Table) (branch : Branch) (link : String)
    (keys : List Value) :
    relatedStatement schema target branch link keys =
      { table := target.name
        outputs := plainOutputs target.name (target.branchColumns branch link)
        filter := Branch.condition schema target branch link keys
        orderBy := orderClause (schema.sortKeys target.name target.name branch.orderBy []) } := by
  unfold relatedStatement orderClause Branch.condition
  dsimp only
  cases (schema.predicate? target.name target.name branch.filter [] 0).1 <;>
    cases schema.sortKeys target.name target.name branch.orderBy [] <;> rfl

/-- Its predicate reads the target only. -/
theorem Branch.condition_scoped (target : Table) (branch : Branch) (link : String)
    (keys : List Value) : filterScoped (Branch.condition schema target branch link keys)
      [target.name] :=
  (SelectOf.ClausesWithin.andWhere? ⟨keyedBy_scoped (List.mem_singleton_self _), by simp, by simp⟩
    (predicate?_scoped List.mem_cons_self (noTables_within _) 0)).filter

/-- The statement for related rows yields the rows that its predicate selects, in its order. -/
theorem run_relatedStatement (target : Table) (branch : Branch) (link : String) (keys : List Value) :
    db.run (relatedStatement schema target branch link keys) =
      .ok ((db.selected target.name (Branch.condition schema target branch link keys)
        (orderClause (schema.sortKeys target.name target.name branch.orderBy []))).map
          (·.only (target.branchColumns branch link))) := by
  have hlink : link ∈ target.branchColumns branch link :=
    mem_withHidden.mpr (Or.inr List.mem_cons_self)
  have hkeys : ∀ keys,
      orderClause (schema.sortKeys target.name target.name branch.orderBy []) = some keys →
      ∀ key ∈ keys, key.column.qualifier = target.name := by
    intro keys horder key hkey
    rw [orderClause_some horder] at hkey
    exact List.mem_singleton.mp
      (sortKeys_scoped List.mem_cons_self (noTables_within [target.name]) key hkey)
  have hselected := @selectRows_one_table db
    (relatedStatement schema target branch link keys)
    (by rw [relatedStatement_clauses]) (by rw [relatedStatement_clauses])
    (by rw [relatedStatement_clauses])
    (by rw [relatedStatement_clauses]; exact Branch.condition_scoped target branch link keys)
    (by rw [relatedStatement_clauses]; exact hkeys)
  rw [relatedStatement_clauses] at hselected ⊢
  exact run_of_selected (List.ne_nil_of_mem hlink) rfl hselected

/-- Where it sorts comparable values, these are, of the rows that the branch selects, those whose link
is one of the keys. -/
theorem run_candidates {target : Table} {branch : Branch} (hsorts : branch.Sorts schema db target)
    (link : String) (keys : List Value) :
    db.run (relatedStatement schema target branch link keys) =
      .ok (((db.candidates schema target branch).filter fun row =>
        keys.any (row.value link).sqlEq).map (·.only (target.branchColumns branch link))) := by
  rw [run_relatedStatement]
  refine congrArg (fun rows : List Row => Except.ok (rows.map _)) (selected_filter ?_ fun row _ => ?_)
  · intro keys horder key hkey
    rw [orderClause_some horder] at hkey
    exact hsorts key hkey
  · rw [Branch.condition, passes_andWhere? (keyedBy_scoped (List.mem_singleton_self _))
      (predicate?_scoped List.mem_cons_self (noTables_within _) 0) (List.Subset.refl _),
      passes_keyedBy, Bool.and_comm]

/-- The ends of a junction that a batch reaches are valid. -/
theorem ends_valid (hdb : db.Valid) (junction : Junction) (keys : List Value) :
    ∀ one ∈ (junction.ends db keys).map (·.2), one.Valid := by
  intro one hone
  obtain ⟨pair, hpair, rfl⟩ := List.mem_map.mp hone
  obtain ⟨link, hlink, rfl⟩ := List.mem_map.mp hpair
  exact hdb junction.table link (List.mem_filter.mp hlink).1 junction.toColumn

/-- The keys by which a batch of values asks for the targets of its links. -/
def Junction.targetKeys (db : Database) (junction : Junction) (values : List Value) : List Value :=
  distinctKeys ((junction.ends db (distinctKeys values)).map (·.2))

section Links

variable {junction : Junction} {values : List Value} (hdb : db.Valid)
  (hvalues : ∀ other ∈ values, other.Valid) {value : Value} (hvalue : value ∈ values)
  (hnull : value ≠ .null)

include hdb hvalues hvalue hnull

/-- Of the links of a batch to a row, those with the key of an owner are its own. -/
theorem end_meets {link : Row} (hlink : link ∈ db.rows junction.table) {reached : Value}
    (hreached : reached.Valid) (hself : reached.sqlEq reached = true) :
    ((link.value junction.fromColumn).key == value.key &&
      ((link.value junction.toColumn).key == reached.key &&
        ((distinctKeys values).any (link.value junction.fromColumn).sqlEq &&
          (!(link.value junction.fromColumn).isNull &&
            !(link.value junction.toColumn).isNull)))) =
      ((link.value junction.fromColumn).meets value &&
        reached.meets (link.value junction.toColumn)) := by
  have hvalid := hdb junction.table link hlink
  rw [← keyed_any_meets (hvalid junction.fromColumn) hvalues hvalue hnull, Bool.eq_iff_iff]
  simp only [Bool.and_eq_true, Bool.not_eq_true', beq_iff_eq]
  constructor
  · rintro ⟨hown, hreach, hany, -, -⟩
    have hequal := Value.sqlEq_of_key_eq hreached (hvalid junction.toColumn) hself hreach.symm
    exact ⟨⟨hany, hown⟩, Bool.and_eq_true_iff.mpr ⟨hequal, beq_iff_eq.mpr hreach.symm⟩⟩
  · rintro ⟨⟨hany, hown⟩, hreach⟩
    obtain ⟨key, -, hkey⟩ := List.any_eq_true.mp hany
    have hsame : reached.key = (link.value junction.toColumn).key :=
      beq_iff_eq.mp (Bool.and_eq_true_iff.mp hreach).2
    exact ⟨hown, hsame.symm, hany, Value.isNull_eq_false.mpr (Value.ne_null_of_sqlEq hkey).1,
      Value.isNull_eq_false.mpr (Value.ne_null_of_meets hreach).2⟩

/-- The end of a link of an owner is one of the ends of the batch. -/
theorem end_of_link {link : Row} (hlink : link ∈ db.rows junction.table)
    (hown : (link.value junction.fromColumn).meets value = true)
    (hto : link.value junction.toColumn ≠ .null) :
    link.value junction.toColumn ∈ (junction.ends db (distinctKeys values)).map (·.2) := by
  have hany := keyed_any_meets (hdb junction.table link hlink junction.fromColumn) hvalues hvalue
    hnull
  rw [hown, Bool.and_eq_true] at hany
  have hfrom := (Value.ne_null_of_meets hown).1
  refine List.mem_map.mpr ⟨_, List.mem_map.mpr ⟨link, List.mem_filter.mpr ⟨hlink, ?_⟩, rfl⟩, rfl⟩
  rw [hany.1, Value.isNull_eq_false.mpr hfrom, Value.isNull_eq_false.mpr hto]
  rfl

/-- Of one row of the target, an owner gets from a batch as many records as there are links to
it. -/
theorem records_through {reached : Value} (hreached : reached.Valid) (record : Record) :
    let ends := junction.ends db (distinctKeys values)
    (if (junction.targetKeys db values).any reached.sqlEq then
        (((ends.filter fun pair => pair.2.key == reached.key).map
          fun pair => (⟨pair.1.key, record⟩ : Related)).filter (·.owner == value.key)).map (·.record)
      else []) =
      ((db.rows junction.table).filter fun link =>
        (link.value junction.fromColumn).meets value &&
          reached.meets (link.value junction.toColumn)).map fun _ => record := by
  intro ends
  by_cases hselected : (junction.targetKeys db values).any reached.sqlEq = true
  · obtain ⟨key, -, hkey⟩ := List.any_eq_true.mp hselected
    rw [if_pos hselected, ← List.filter_congr fun link hlink =>
      end_meets hdb hvalues hvalue hnull hlink hreached (Value.sqlEq_self hkey)]
    unfold ends Junction.ends
    simp only [List.filter_map, List.map_map, List.filter_filter]
    rfl
  · have hnone : (db.rows junction.table).filter (fun link =>
        (link.value junction.fromColumn).meets value &&
          reached.meets (link.value junction.toColumn)) = [] := by
      refine List.filter_eq_nil_iff.mpr ?_
      intro link hlink hlinked
      obtain ⟨hown, hreach⟩ := Bool.and_eq_true_iff.mp hlinked
      have hto := (Value.ne_null_of_meets hreach).2
      have hboth := keyed_any_meets hreached (ends_valid hdb junction _)
        (end_of_link hdb hvalues hvalue hnull hlink hown hto) hto
      rw [hreach, Bool.and_eq_true] at hboth
      exact hselected hboth.1
    rw [if_neg hselected, hnone]
    rfl

end Links

/-- The scalars of the record are valid values. -/
def Record.Valid (record : Record) : Prop :=
  ∀ column, (record.scalar column).Valid

/-- A valid row stays valid if columns of it are left out. -/
theorem Row.only_valid {row : Row} (h : row.Valid) (columns : List String) :
    ((row.only columns).toRecord).Valid := by
  intro column
  by_cases hcolumn : column ∈ columns
  · rw [(row.toRecord_only_mirrors columns).scalar hcolumn]
    exact h column
  · have hnone : ((row.only columns).toRecord).scalar column = .null := by
      unfold Record.scalar
      rw [Row.toRecord, Dict.lookup_mapValues, Row.only, Dict.lookup_ofPairs_map, if_neg hcolumn]
      rfl
    rw [hnone]
    trivial

section Linked

variable (hdb : db.Valid) {relation : Relation} {junction : Junction}
  (hjunction : relation.junction = some junction) {values : List Value}
  (hvalues : ∀ value ∈ values, value.Valid)

include hdb hjunction hvalues

/-- No link leads from a value of the batch to a row that these keys do not select. -/
theorem reached_unselected {value : Value} (hvalue : value ∈ values) (hnull : value ≠ .null)
    {row : Row} (hrow : row.Valid)
    (h : (junction.targetKeys db values).any (row.value relation.toColumn).sqlEq = false) :
    relation.reached db [row] value = [] := by
  have hshare := @records_through db junction values hdb hvalues value hvalue hnull _
    (hrow relation.toColumn) []
  dsimp only at hshare
  rw [if_neg (Bool.eq_false_iff.mp h)] at hshare
  have hnone := List.map_eq_nil_iff.mp hshare.symm
  rw [Relation.reached, hjunction]
  simp [hnone]

/-- A value of the batch leads to the same rows among those that the keys select. -/
theorem reached_selected {value : Value} (hvalue : value ∈ values) (hnull : value ≠ .null)
    {rows : List Row} (hrows : ∀ row ∈ rows, row.Valid) :
    relation.reached db (rows.filter fun row =>
        (junction.targetKeys db values).any (row.value relation.toColumn).sqlEq) value =
      relation.reached db rows value := by
  have hnone := fun row hrow =>
    @reached_unselected db hdb relation junction hjunction values hvalues value hvalue hnull row
      (hrows row hrow)
  unfold Relation.reached at hnone ⊢
  simp only [hjunction, List.flatMap_singleton] at hnone ⊢
  exact flatMap_filter_of_nil hnone

/-- A batch through a junction: for each of its owners, of the rows that its target statement
yields, the records of those that the value leads to.  Where no link leads anywhere, no row of the
target is selected. -/
theorem fetchLinked_records {branch : Branch} {target : Table}
    (htarget : schema.table? relation.target = some target) {rows : List Row}
    (hrun : db.run (relatedStatement schema target branch relation.toColumn
      (junction.targetKeys db values)) =
        .ok (rows.map (·.only (target.branchColumns branch relation.toColumn))))
    (hrows : ∀ row ∈ rows, row.Valid ∧
      (junction.targetKeys db values).any (row.value relation.toColumn).sqlEq = true) :
    (fetchLinked schema relation junction branch (distinctKeys values)).Gives db.run fun related =>
      (∀ one ∈ related, one.record.Valid) ∧ ∀ value ∈ values, value ≠ .null →
        (related.filter (·.owner == value.key)).map (·.record) =
          (relation.reached db rows value).map fun row =>
            (row.only (target.branchColumns branch relation.toColumn)).toRecord := by
  have hlink : relation.toColumn ∈ target.branchColumns branch relation.toColumn :=
    mem_withHidden.mpr (Or.inr List.mem_cons_self)
  have hlinks : db.run (linkStatement junction (distinctKeys values)) = _ :=
    run_keyed junction.table junction.fromColumn (List.cons_ne_nil _ _) _
  unfold fetchLinked
  refine Load.gives_ask hlinks ?_
  rw [linkEnds_ends]
  dsimp only
  split
  · next hempty =>
      refine Load.gives_pure ⟨fun one hone => (nomatch hone), fun value _ _ => ?_⟩
      have hnone : rows = [] := by
        refine List.eq_nil_iff_forall_not_mem.mpr fun row hrow => ?_
        have hkey := (hrows row hrow).2
        rw [Junction.targetKeys, List.isEmpty_iff.mp hempty] at hkey
        cases hkey
      rw [hnone, Relation.reached, hjunction]
      rfl
  rw [htarget]
  refine Load.gives_ask hrun (Load.gives_pure ⟨fun one hone => ?_, fun value hvalue hnull => ?_⟩)
  · obtain ⟨_, hmem, hone⟩ := List.mem_flatMap.mp hone
    obtain ⟨row, hrow, rfl⟩ := List.mem_map.mp hmem
    obtain ⟨_, -, rfl⟩ := List.mem_map.mp hone
    exact Row.only_valid (hrows row hrow).1 _
  · rw [Relation.reached, hjunction]
    dsimp only
    rw [List.flatMap_map, List.filter_flatMap, List.map_flatMap, List.map_flatMap]
    refine List.flatMap_congr fun row hrow => ?_
    obtain ⟨hvalid, hselected⟩ := hrows row hrow
    have hshare := @records_through db junction values hdb hvalues value hvalue hnull _
      (hvalid relation.toColumn)
      (row.only (target.branchColumns branch relation.toColumn)).toRecord
    dsimp only at hshare
    rw [if_pos hselected] at hshare
    rw [keyIn_only row hlink, List.map_map]
    exact hshare

end Linked

/-- What a fetch for a batch holds: for each of its owners the related records of its value. -/
theorem fetch_records (hdb : db.Valid) (relation : Relation) {branch : Branch} {target : Table}
    (htarget : schema.table? relation.target = some target) (hsorts : branch.Sorts schema db target)
    {values : List Value} (hvalues : ∀ value ∈ values, value.Valid) :
    (fetch schema relation branch (distinctKeys values)).Gives db.run fun related =>
      (∀ one ∈ related, one.record.Valid) ∧ ∀ value ∈ values, value ≠ .null →
        (related.filter (·.owner == value.key)).map (·.record) =
          relation.recordsFor schema db branch value := by
  have hlink : relation.toColumn ∈ target.branchColumns branch relation.toColumn :=
    mem_withHidden.mpr (Or.inr List.mem_cons_self)
  have hvalid : ∀ row ∈ db.candidates schema target branch, row.Valid :=
    fun row hrow => hdb _ row (candidates_subset hrow)
  unfold fetch Relation.recordsFor
  rw [htarget]
  split
  · next hempty =>
      refine Load.gives_pure ⟨by simp, ?_⟩
      intro value hvalue hnull
      obtain ⟨key, hkey, -⟩ := exists_distinctKey hvalue hnull
      rw [List.isEmpty_iff.mp hempty] at hkey
      cases hkey
  · cases hjunction : relation.junction with
    | none =>
        unfold fetchDirect Relation.reached
        rw [htarget, hjunction]
        refine Load.gives_ask (run_candidates hsorts relation.toColumn _)
          (Load.gives_pure ⟨?_, ?_⟩)
        · intro one hone
          obtain ⟨_, hmem, rfl⟩ := List.mem_map.mp hone
          obtain ⟨row, hrow, rfl⟩ := List.mem_map.mp hmem
          exact Row.only_valid (hvalid row (List.mem_filter.mp hrow).1) _
        intro value hvalue hnull
        rw [List.map_map, List.filter_map, List.map_map, List.filter_filter]
        have hkeep : ∀ row ∈ db.candidates schema target branch,
            (((fun one : Related => one.owner == value.key) ∘
              ((fun row : Row => (⟨row.keyIn relation.toColumn, row.toRecord⟩ : Related)) ∘
                (·.only (target.branchColumns branch relation.toColumn)))) row &&
              (distinctKeys values).any (row.value relation.toColumn).sqlEq) =
            (row.value relation.toColumn).meets value := by
          intro row hrow
          rw [← keyed_any_meets (hvalid row hrow _) hvalues hvalue hnull, Bool.and_comm]
          simp only [Function.comp_apply, keyIn_only row hlink]
        rw [List.filter_congr hkeep]
        rfl
    | some junction =>
        intro related hrelated
        obtain ⟨hrecords, hfetched⟩ := fetchLinked_records hdb hjunction hvalues htarget
          (run_candidates hsorts relation.toColumn _)
          (fun row hrow => (List.mem_filter.mp hrow).imp_left (hvalid row)) related hrelated
        refine ⟨hrecords, fun value hvalue hnull => ?_⟩
        rw [hfetched value hvalue hnull,
          reached_selected hdb hjunction hvalues hvalue hnull hvalid]

/-! ### Loaded records -/

mutual

/-- The record of a related row with its own relations loaded and its hidden columns dropped. -/
def Shape.loaded (schema : Schema) (db : Database) : Shape → String → Record → Record
  | ⟨fields, _, relations⟩, table, record =>
    (loadedBranches schema db relations table record).shown fields (relations.map (·.1))

/-- The record with the related records of each relation attached. -/
def loadedBranches (schema : Schema) (db : Database) :
    List (String × BranchOf Shape) → String → Record → Record
  | [], _, record => record
  | (name, ⟨shape, filter, orderBy, take, skip, distinct, joinKind⟩) :: rest, table, record =>
    match schema.relation? table name with
    | none => loadedBranches schema db rest table record
    | some relation =>
      let branch : Branch := ⟨shape, filter, orderBy, take, skip, distinct, joinKind⟩
      let related := relation.recordsFor schema db branch (record.scalar relation.fromColumn)
      loadedBranches schema db rest table (Dict.put name (.ofRelated relation.kind.isToMany
        (branch.page (related.map (shape.loaded schema db relation.target)))) record)

end

/-- Without relations nothing is loaded. -/
theorem loadedBranches_nil (table : String) : loadedBranches schema db [] table = id := by
  funext record
  rw [loadedBranches]
  rfl

/-- Each relation attaches to a record the page of the related records, loaded in turn. -/
theorem loadedBranches_cons {table name : String} {relation : Relation}
    (hrelation : schema.relation? table name = some relation) (branch : Branch)
    (rest : List (String × Branch)) :
    loadedBranches schema db ((name, branch) :: rest) table = fun record : Record =>
      loadedBranches schema db rest table (Dict.put name (.ofRelated relation.kind.isToMany
        (branch.page ((relation.recordsFor schema db branch (record.scalar relation.fromColumn)).map
          (branch.shape.loaded schema db relation.target)))) record) := by
  funext record
  cases branch
  rw [loadedBranches]
  simp only [hrelation]

/-- What is asked of a relation so that its batches can be taken apart: the columns that its branch
sorts by hold comparable values. -/
def SortsAlone (schema : Schema) (db : Database) (_ : String) (branch : Branch)
    (relation : Relation) : Prop :=
  ∀ target, schema.table? relation.target = some target → branch.Sorts schema db target

/-- The values of an owner that the relations of a level start from are among those of a batch. -/
def InBatch (schema : Schema) (table : String) (branches : List (String × Branch))
    (owners : List Record) (record : Record) : Prop :=
  ∀ entry ∈ branches, ∀ relation, schema.relation? table entry.1 = some relation →
    record.scalar relation.fromColumn ∈ owners.map (·.scalar relation.fromColumn)

/-- What was fetched for a relation of a batch: for every value of an owner its related records. -/
def FetchedAlone (schema : Schema) (db : Database) (table : String) (owners : List Record)
    (entry : String × Branch) (related : List Related) : Prop :=
  (∀ one ∈ related, one.record.Valid) ∧
  ∀ relation, schema.relation? table entry.1 = some relation →
    ∀ value ∈ owners.map (·.scalar relation.fromColumn), value ≠ .null →
      (related.filter (·.owner == value.key)).map (·.record) =
        relation.recordsFor schema db entry.2 value

/-- A link that is null leads to no records. -/
theorem Relation.recordsFor_null (relation : Relation) (branch : Branch) :
    relation.recordsFor schema db branch .null = [] := by
  unfold Relation.recordsFor
  cases schema.table? relation.target with
  | none => rfl
  | some target =>
      unfold Relation.reached
      cases relation.junction with
      | none => simp [Value.meets_null]
      | some junction => simp [Value.meets_null]

/-- Attaching what was fetched for a batch attaches to an owner its related records. -/
theorem attach_alone (name : String) (relation : Relation) (branch : Branch)
    {related : List Related} {record : Record}
    (hrelated : record.scalar relation.fromColumn ≠ .null →
      (related.filter (·.owner == (record.scalar relation.fromColumn).key)).map (·.record) =
        relation.recordsFor schema db branch (record.scalar relation.fromColumn))
    (finish : Record → Record) :
    attach name relation branch (related.map fun one => { one with record := finish one.record })
        record =
      Dict.put name (.ofRelated relation.kind.isToMany (branch.page
        ((relation.recordsFor schema db branch (record.scalar relation.fromColumn)).map finish)))
        record := by
  unfold attach
  dsimp only
  split
  · next hnull =>
      have heq : record.scalar relation.fromColumn = .null := by
        by_contra hne
        rw [Value.isNull_eq_false.mpr hne] at hnull
        cases hnull
      rw [heq, relation.recordsFor_null]
      rfl
  · next hnull =>
      rw [← hrelated (Value.isNull_eq_false.mp (by simpa using hnull)), List.filter_map,
        List.map_map, List.map_map]
      rfl

/-- For every relation of a level is fetched what its owners need. -/
theorem fetchLevel_alone (hschema : schema.Consistent) (hdb : db.Valid) {table : String}
    {branches : List (String × Branch)} (hproper : branchesProper schema branches table)
    (hsorts : branchesThroughout schema (SortsAlone schema db) branches table)
    {owners : List Record} (howners : ∀ owner ∈ owners, owner.Valid) :
    (fetchLevel schema table branches owners).Gives db.run
      (List.Forall₂ (FetchedAlone schema db table owners) branches) := by
  refine fetchLevel_fits fun entry hentry => ?_
  obtain ⟨-, relation, hrelation, -⟩ := branchesProper_iff.mp hproper entry hentry
  obtain ⟨hsort, -⟩ := branchesThroughout_iff.mp hsorts entry hentry relation hrelation
  obtain ⟨target, htarget, -⟩ := hschema.target_known hrelation
  have hvalues : ∀ value ∈ owners.map (·.scalar relation.fromColumn), value.Valid :=
    List.forall_mem_map.mpr fun owner howner => howners owner howner relation.fromColumn
  refine ⟨relation, hrelation, fun related hrelated => ?_⟩
  obtain ⟨hvalid, hrecords⟩ :=
    fetch_records hdb relation htarget (hsort target htarget) hvalues related hrelated
  refine ⟨hvalid, fun found hfound => ?_⟩
  rw [hrelation] at hfound
  cases hfound
  exact hrecords

mutual

/-- Attaching what was fetched for a batch loads each record that has its values in the batch. -/
theorem attachLevel_alone (hschema : schema.Consistent) (hdb : db.Valid) : ∀ {table : String}
    {branches : List (String × BranchOf Shape)} {fetched : List (List Related)},
    branchesProper schema branches table →
    branchesThroughout schema (SortsAlone schema db) branches table → ∀ {owners : List Record},
    List.Forall₂ (FetchedAlone schema db table owners) branches fetched →
    (attachLevel schema table branches fetched).Gives db.run fun load =>
      ∀ record, InBatch schema table branches owners record →
        load record = loadedBranches schema db branches table record
  | table, [], fetched, hproper, hsorts, owners, hfetched => by
      rw [attachLevel]
      refine Load.gives_pure fun record _ => ?_
      rw [loadedBranches]
      rfl
  | table, (name, ⟨shape, filter, orderBy, take, skip, distinct, joinKind⟩) :: rest, fetched,
      hproper, hsorts, owners, hfetched => by
      rw [branchesProper] at hproper
      rw [branchesThroughout] at hsorts
      obtain ⟨⟨hname, relation, hrelation, hshape⟩, hrest⟩ := hproper
      obtain ⟨hfirst, hothersSort⟩ := hsorts
      obtain ⟨-, hbeneath⟩ := hfirst relation hrelation
      cases hfetched with
      | @cons _ related _ others hrelated hothers =>
          obtain ⟨hvalid, hrecords⟩ := hrelated
          rw [attachLevel.eq_def]
          simp only [hrelation]
          refine Load.Gives.bind (finishRelated_alone hschema hdb hshape hbeneath hvalid) ?_
          rintro finished rfl
          refine Load.Gives.bind (attachLevel_alone hschema hdb hrest hothersSort hothers) ?_
          intro more hmore
          refine Load.gives_pure ?_
          intro record hbatch
          have hattach := @attach_alone schema db name relation
            ⟨shape, filter, orderBy, take, skip, distinct, joinKind⟩ _ _
            (hrecords relation hrelation _ (hbatch _ List.mem_cons_self relation hrelation))
            (shape.loaded schema db relation.target)
          dsimp only
          rw [hattach, loadedBranches, hrelation]
          refine hmore _ ?_
          intro entry hentry other hother
          rw [Record.scalar_put_of_ne (hschema.fromColumn_ne hother hname)]
          exact hbatch entry (List.mem_cons_of_mem _ hentry) other hother

/-- Finishing related records loads each of them. -/
theorem finishRelated_alone (hschema : schema.Consistent) (hdb : db.Valid) : ∀ {table : String}
    {shape : Shape}, shape.Proper schema table → shape.Throughout schema (SortsAlone schema db) table →
    ∀ {related : List Related}, (∀ one ∈ related, one.record.Valid) →
    (finishRelated schema table shape related).Gives db.run fun finished =>
      finished = related.map fun one =>
        { one with record := shape.loaded schema db table one.record }
  | table, ⟨fields, excluded, relations⟩, hproper, hsorts, related, hvalid => by
      rw [Shape.Proper] at hproper
      rw [Shape.Throughout] at hsorts
      obtain ⟨-, -, hbranches⟩ := hproper
      rw [finishRelated]
      refine Load.Gives.bind (fetchLevel_alone hschema hdb hbranches hsorts ?_) ?_
      · intro owner howner
        obtain ⟨one, hone, rfl⟩ := List.mem_map.mp howner
        exact hvalid one hone
      · intro fetched hfetched
        refine Load.Gives.bind (attachLevel_alone hschema hdb hbranches hsorts hfetched) ?_
        intro load hload
        refine Load.gives_pure (List.map_congr_left ?_)
        intro one hone
        rw [Shape.loaded, hload one.record fun entry _ relation _ => ?_]
        exact List.mem_map_of_mem (List.mem_map_of_mem hone)

end

/-- Loading the relations of a batch loads each record that has its values in the batch. -/
theorem loadBranches_alone (hschema : schema.Consistent) (hdb : db.Valid) {table : String}
    {branches : List (String × Branch)} (hproper : branchesProper schema branches table)
    (hsorts : branchesThroughout schema (SortsAlone schema db) branches table)
    {owners : List Record} (howners : ∀ owner ∈ owners, owner.Valid) :
    (loadBranches schema table branches owners).Gives db.run fun load =>
      ∀ record, InBatch schema table branches owners record →
        load record = loadedBranches schema db branches table record :=
  Load.Gives.bind (fetchLevel_alone hschema hdb hproper hsorts howners) fun _ hfetched =>
    attachLevel_alone hschema hdb hproper hsorts hfetched

/-! ### Relations that were put off -/

/-- Under all other names a record stays as it is. -/
theorem lookup_loadedBranches : ∀ {branches : List (String × Branch)} {name : String},
    name ∉ branches.map (·.1) → ∀ (table : String) (record : Record),
    (loadedBranches schema db branches table record).lookup name = record.lookup name
  | [], name, h, table, record => by
      rw [loadedBranches]
  | (other, ⟨shape, filter, orderBy, take, skip, distinct, joinKind⟩) :: rest, name, h, table,
      record => by
      rw [List.map_cons, List.mem_cons, not_or] at h
      obtain ⟨hne, hrest⟩ := h
      rw [loadedBranches]
      split
      · exact lookup_loadedBranches hrest table record
      · dsimp only
        rw [lookup_loadedBranches hrest, Dict.lookup_put_of_ne hne]

/-- Loading keeps a record sorted by names. -/
theorem sorted_loadedBranches : ∀ {branches : List (String × Branch)} {table : String}
    {record : Record}, Dict.Sorted record →
    Dict.Sorted (loadedBranches schema db branches table record)
  | [], table, record, h => by
      rw [loadedBranches]
      exact h
  | (other, ⟨shape, filter, orderBy, take, skip, distinct, joinKind⟩) :: rest, table, record,
      h => by
      rw [loadedBranches]
      split
      · exact sorted_loadedBranches h
      · exact sorted_loadedBranches (h.put _ _)

mutual

/-- The record with the relations loaded that were put off, its own and those of the records joined
beneath it. -/
def Layout.loaded (schema : Schema) (db : Database) : Layout → Record → Record
  | ⟨table, _, _, _, _, _, _, _, relations, deferred⟩, record =>
    loadedBeneath schema db relations (loadedBranches schema db deferred table record)

/-- The record with what was put off loaded for the records of each joined relation. -/
def loadedBeneath (schema : Schema) (db : Database) :
    List (JoinedBranchOf Layout) → Record → Record
  | [], record => record
  | ⟨name, _, _, layout⟩ :: rest, record =>
    loadedBeneath schema db rest
      (Dict.adjust name (Node.mapRecords (layout.loaded schema db)) record)

end

/-- The record of an owner is valid, whatever its relations. -/
def validOwner (_ : List (String × Branch)) (_ : String) (record : Record) : Prop :=
  record.Valid

/-- Under a joined relation stand records, folded from rows. -/
theorem assembleBranches_related : ∀ {relations : List (JoinedBranchOf Layout)} {rows : List Row},
    ∀ entry ∈ assembleBranches relations rows, ∃ isToMany records,
      entry.2 = .ofRelated isToMany records
  | [], rows, entry, hentry => by
      rw [assembleBranches] at hentry
      cases hentry
  | ⟨name, isToMany, branch, layout⟩ :: rest, rows, entry, hentry => by
      rw [assembleBranches] at hentry
      rcases List.mem_cons.mp hentry with rfl | hmem
      · exact ⟨_, _, rfl⟩
      · exact assembleBranches_related entry hmem

/-- Under a column stands what the first row of the group has for its output. -/
theorem columnValues_bound {layout : Layout} {group : List Row} {column : String} {node : Node}
    (h : (layout.columnValues group).lookup column = some node) :
    ∃ output, node = .scalar ((group.head?.bind fun row => row.lookup output).getD .null) := by
  rw [Layout.columnValues, Dict.lookup_ofPairs] at h
  obtain ⟨named, -, hpair⟩ := List.mem_map.mp (List.mem_reverse.mp (Dict.mem_of_lookup h))
  exact ⟨named.2, (congrArg Prod.snd hpair).symm⟩

/-- Records assembled from valid rows are valid. -/
theorem assembled_valid : AssembledHave Row.Valid validOwner := by
  intro layout rows hrows record hrecord column
  obtain ⟨table, qualifier, lead, fields, columns, outputs, key, identity, relations, deferred⟩ :=
    layout
  rw [Layout.assemble] at hrecord
  obtain ⟨group, hgroup, rfl⟩ := List.mem_map.mp hrecord
  rw [Record.scalar, Dict.lookup_putAll]
  cases hentry : (assembleBranches relations group).reverse.lookup column with
  | some node =>
      obtain ⟨isToMany, records, hnode⟩ :=
        assembleBranches_related _ (List.mem_reverse.mp (Dict.mem_of_lookup hentry))
      dsimp only at hnode
      rw [Option.some_or, Option.bind_some, hnode]
      cases isToMany <;> cases records <;> trivial
  | none =>
      rw [Option.none_or]
      cases hvalue : Layout.columnValues ⟨table, qualifier, lead, fields, columns, outputs, key,
          identity, relations, deferred⟩ group |>.lookup column with
      | none => trivial
      | some node =>
          obtain ⟨output, rfl⟩ := columnValues_bound hvalue
          cases hfirst : group.head? with
          | none => trivial
          | some row =>
              exact hrows row (Layout.groups_subset _ hgroup (List.mem_of_mem_head? hfirst)) output

/-- What is done with the records of a node depends on these records alone. -/
theorem Node.mapRecords_congr {node : Node} {one other : Record → Record}
    (h : ∀ record ∈ node.records, one record = other record) :
    node.mapRecords one = node.mapRecords other := by
  cases node with
  | scalar value => rfl
  | object record => exact congrArg _ (h record List.mem_cons_self)
  | list records => exact congrArg _ (List.map_congr_left h)

mutual

/-- Loading what was put off for a batch of records loads each of them. -/
theorem loadDeferred_alone (hschema : schema.Consistent) (hdb : db.Valid) : ∀ {shape : Shape}
    {table : String} {layout : Layout}, shape.Planned schema table layout →
    shape.Proper schema table → shape.Throughout schema (SortsAlone schema db) table →
    ∀ {records : List Record}, (∀ record ∈ records, layout.Holds validOwner record) →
    (layout.loadDeferred schema records).Gives db.run fun load =>
      ∀ record ∈ records, load record = layout.loaded schema db record
  | ⟨fields, excluded, relations⟩, table,
      ⟨layoutTable, qualifier, lead, layoutFields, columns, outputs, key, identity, joined, deferred⟩,
      .intro htable hfields hkey hcarried hlinked hknown hrelations, hproper, hsorts, records,
      hrecords => by
      rw [Shape.Proper] at hproper
      rw [Shape.Throughout] at hsorts
      obtain ⟨hcolumns, hnodup, hbranches⟩ := hproper
      obtain ⟨hjoined, hdeferred, hdisjoint⟩ := hrelations.nodup hnodup
      cases htable
      have hlater : branchesThroughout schema (SortsAlone schema db) deferred layoutTable :=
        branchesThroughout_iff.mpr fun entry hentry =>
          branchesThroughout_iff.mp hsorts entry (hrelations.deferred_subset hentry)
      simp only [Layout.Holds] at hrecords
      rw [Layout.loadDeferred]
      refine Load.Gives.bind (loadBranches_alone hschema hdb (hrelations.deferred_proper hbranches)
        hlater fun record hrecord => (hrecords record hrecord).2.2) ?_
      intro here hhere
      have hloaded : ∀ record ∈ records,
          here record = loadedBranches schema db deferred layoutTable record :=
        fun record hrecord => hhere record fun entry _ relation _ => List.mem_map_of_mem hrecord
      have hkept : ∀ record ∈ records, ∀ branch ∈ joined,
          (here record).lookup branch.name = record.lookup branch.name := by
        intro record hrecord branch hbranch
        rw [hloaded record hrecord,
          lookup_loadedBranches (hdisjoint _ (List.mem_map_of_mem hbranch))]
      have howners : ∀ owner ∈ records.map here, branchesHold validOwner joined owner := by
        intro owner howner
        obtain ⟨record, hrecord, rfl⟩ := List.mem_map.mp howner
        refine branchesHold_iff.mpr fun branch hbranch => ?_
        rw [hkept record hrecord branch hbranch]
        exact branchesHold_iff.mp (hrecords record hrecord).2.1 branch hbranch
      refine Load.Gives.bind (loadDeferredBranches_alone hschema hdb hrelations hbranches hsorts
        hjoined howners) ?_
      intro beneath hbeneath
      refine Load.gives_pure ?_
      intro record hrecord
      rw [Layout.loaded, ← hloaded record hrecord]
      refine hbeneath _ ?_ ⟨_, List.mem_map_of_mem hrecord, fun branch _ => rfl⟩
      rw [hloaded record hrecord]
      exact sorted_loadedBranches (hrecords record hrecord).1.sorted

/-- What was put off beneath joined relations is loaded into the records as for each alone. -/
theorem loadDeferredBranches_alone (hschema : schema.Consistent) (hdb : db.Valid) :
    ∀ {relations : List (String × BranchOf Shape)} {table : String} {joined : List JoinedBranch}
      {deferred : List (String × Branch)}, BranchesPlanned schema relations table joined deferred →
    branchesProper schema relations table →
    branchesThroughout schema (SortsAlone schema db) relations table →
    (joined.map (·.name)).Nodup → ∀ {records : List Record},
    (∀ record ∈ records, branchesHold validOwner joined record) →
    (loadDeferredBranches schema joined records).Gives db.run fun load =>
      ∀ record, Dict.Sorted record → (∃ owner ∈ records, ∀ branch ∈ joined,
        record.lookup branch.name = owner.lookup branch.name) →
      load record = loadedBeneath schema db joined record
  | _, _, _, _, .nil, hproper, hsorts, hnodup, records, hrecords => by
      rw [loadDeferredBranches]
      refine Load.gives_pure fun record _ _ => ?_
      rw [loadedBeneath]
      rfl
  | _, table, _, _, @BranchesPlanned.joined _ name branch rest _ relation layout others deferred
      hjoinable hlayout hlead hrest, hproper, hsorts, hnodup, records, hrecords => by
      obtain ⟨hfirst, hothersProper⟩ := List.forall_mem_cons.mp (branchesProper_iff.mp hproper)
      obtain ⟨hsort, hothersSort⟩ := List.forall_mem_cons.mp (branchesThroughout_iff.mp hsorts)
      obtain ⟨-, found, hrelation, hshape⟩ := hfirst
      rw [(joinable?_eq_some hjoinable).1] at hrelation
      cases hrelation
      obtain ⟨-, hbeneath⟩ := hsort relation (joinable?_eq_some hjoinable).1
      rw [List.map_cons, List.nodup_cons] at hnodup
      rw [loadDeferredBranches]
      have hchildren : ∀ child ∈ records.flatMap (fun record =>
          ((record.lookup name).map Node.records).getD []), layout.Holds validOwner child := by
        intro child hchild
        obtain ⟨owner, howner, hmem⟩ := List.mem_flatMap.mp hchild
        have hholds := hrecords owner howner
        rw [branchesHold] at hholds
        obtain ⟨⟨node, hnode, -, hnodeHolds⟩, -⟩ := hholds
        rw [hnode] at hmem
        exact hnodeHolds child hmem
      refine Load.Gives.bind (loadDeferred_alone hschema hdb hlayout hshape hbeneath hchildren) ?_
      intro change hchange
      refine Load.Gives.bind (loadDeferredBranches_alone hschema hdb hrest
        (branchesProper_iff.mpr hothersProper) (branchesThroughout_iff.mpr hothersSort) hnodup.2
        fun record hrecord => ?_) ?_
      · have hholds := hrecords record hrecord
        rw [branchesHold] at hholds
        exact hholds.2
      intro more hmore
      refine Load.gives_pure ?_
      rintro record hsorted ⟨owner, howner, hsame⟩
      have hadjust : Dict.adjust name (Node.mapRecords change) record =
          Dict.adjust name (Node.mapRecords (layout.loaded schema db)) record := by
        refine hsorted.adjust_congr ?_
        intro node hnode
        refine Node.mapRecords_congr fun child hchild => hchange child ?_
        refine List.mem_flatMap.mpr ⟨owner, howner, ?_⟩
        rw [← hsame _ List.mem_cons_self, hnode]
        exact hchild
      rw [loadedBeneath, ← hadjust]
      refine hmore _ (hsorted.adjust _ _) ⟨owner, howner, fun other hother => ?_⟩
      rw [Dict.lookup_adjust_of_ne]
      · exact hsame other (List.mem_cons_of_mem _ hother)
      · intro heq
        exact hnodup.1 (List.mem_map.mpr ⟨other, hother, heq⟩)
  | _, _, _, _, .deferred hjoinable hrelation hrest, hproper, hsorts, hnodup, records,
      hrecords => by
      obtain ⟨-, hothersProper⟩ := List.forall_mem_cons.mp (branchesProper_iff.mp hproper)
      obtain ⟨-, hothersSort⟩ := List.forall_mem_cons.mp (branchesThroughout_iff.mp hsorts)
      exact loadDeferredBranches_alone hschema hdb hrest (branchesProper_iff.mpr hothersProper)
        (branchesThroughout_iff.mpr hothersSort) hnodup hrecords

end

end NestedQuery
