import NestedQuery.Proofs.FilterReading
import NestedQuery.Proofs.NestedRecords
import NestedQuery.Proofs.RecordShape
import NestedQuery.Proofs.SortOrder

/-!
# Nesting by follow-up statements

Follow-up statements fetch the related rows of many owners at once and hand them
out by key.  Each owner still gets the nested record that it would get alone, as
long as two linked values that are equal have the same key and the other way
round.
-/

namespace NestedQuery

variable {schema : Schema} {db : Database}

/-! ### Records of some columns -/

theorem Row.lookup_recordOf (row : Row) (columns : List String) (name : String) :
    (row.recordOf columns).lookup name =
      if name ∈ columns then some (.scalar (row.value name)) else none :=
  Dict.lookup_ofPairs_map _ _ _

/-- The record mirrors columns of a row. -/
structure Record.Mirrors (record : Record) (row : Row) (columns : List String) : Prop where
  sorted : Dict.Sorted record
  bound : ∀ column ∈ columns, record.lookup column = some (.scalar (row.value column))

/-- A column that is mirrored has the value of the row. -/
theorem Record.Mirrors.scalar {record : Record} {row : Row} {columns : List String}
    (h : record.Mirrors row columns) {column : String} (hcolumn : column ∈ columns) :
    record.scalar column = row.value column := by
  unfold Record.scalar
  rw [h.bound column hcolumn]
  rfl

/-- Some columns of a row. -/
def Row.only (row : Row) (columns : List String) : Row :=
  Dict.ofPairs (columns.map fun column => (column, row.value column))

theorem Row.lookup_only (row : Row) {columns : List String} {column : String}
    (h : column ∈ columns) : (row.only columns).lookup column = some (row.value column) := by
  unfold Row.only
  rw [Dict.lookup_ofPairs_map, if_pos h]

/-- The record of some columns of a row mirrors them. -/
theorem Row.toRecord_only_mirrors (row : Row) (columns : List String) :
    ((row.only columns).toRecord).Mirrors row columns := by
  have hcarries := @Row.toRecord_carries (row.only columns) [] (Dict.sorted_ofPairs _)
    fun field hfield => by cases hfield
  refine ⟨hcarries.sorted, ?_⟩
  intro column hcolumn
  rw [Row.toRecord, Dict.lookup_mapValues, Row.lookup_only row hcolumn]
  rfl

/-! ### Statements over one table -/

/-- A value is among others if it equals one of them, which null never does. -/
theorem Value.isOneOf_eq_true (value : Value) (values : List Value) :
    value.isOneOf values false = some true ↔ values.any value.sqlEq = true := by
  unfold Value.isOneOf
  cases hnull : value.isNull with
  | false => simp
  | true =>
      cases value with
      | null => simp [Value.sqlEq_null]
      | _ => cases hnull

/-- The cells of columns of a table are those of its row. -/
theorem cells_plain (table : String) (row : Row) (columns : List String) :
    Dict.ofPairs (cells (plainOutputs table columns) [(table, some row)]) = row.only columns := by
  have hrow : List.lookup table [(table, some row)] = some (some row) := by simp
  unfold cells plainOutputs Row.only
  rw [List.map_map]
  refine congrArg _ (List.map_congr_left ?_)
  intro column _
  simp only [Function.comp_apply, Output.cell, hrow]
  rfl

/-- A statement that yields columns of selected rows of its one table. -/
theorem run_of_selected {statement : Select} {columns : List String} (hsome : columns ≠ [])
    (houtputs : statement.outputs = plainOutputs statement.table columns) {selected : List Row}
    (hselected : selectRows db statement [] =
      .ok (selected.map fun row => [(statement.table, some row)])) :
    db.run statement = .ok ((Window.cut statement.window selected).map (·.only columns)) := by
  have hrun := run_cells hselected
    (fun _ => by rw [houtputs]; simpa [plainOutputs] using hsome) (by
      intro output houtput
      rw [houtputs] at houtput
      obtain ⟨column, -, rfl⟩ := List.mem_map.mp houtput
      refine ⟨_, _, rfl, ?_⟩
      intro bindings hbindings
      obtain ⟨row, -, rfl⟩ := List.mem_map.mp hbindings
      exact List.mem_cons_self)
  rw [hrun, cut_map, List.map_map]
  refine congrArg Except.ok (List.map_congr_left ?_)
  intro row _
  rw [Function.comp_apply, houtputs, cells_plain]

/-- Without columns a statement yields as many rows as it selects. -/
theorem run_of_selected_bare {statement : Select} (houtputs : statement.outputs = [])
    {tuples : List Bindings} (hselected : selectRows db statement [] = .ok tuples) :
    ∃ rows, db.run statement = .ok rows ∧
      rows.length = (Window.cut statement.window tuples).length := by
  let whole : Bindings → Row :=
    fun bindings => bindings.foldl (fun result source => Dict.putAll result (source.2.getD [])) []
  have hproject : ∀ bindings, project statement.outputs bindings = .ok (whole bindings) := by
    intro bindings
    rw [houtputs]
    rfl
  have hcounter : statement.counter? = none := by
    rw [SelectOf.counter?, houtputs]
    rfl
  have hrun : db.run statement = .ok ((Window.cut statement.window tuples).map whole) := by
    unfold Database.run
    simp only [hselected, hcounter, bind, Except.bind]
    exact mapM_ok fun bindings _ => hproject bindings
  exact ⟨_, hrun, List.length_map ..⟩

/-- A statement by keys yields the rows whose column equals one of them. -/
theorem run_keyed (table link : String) {columns : List String} (hsome : columns ≠ [])
    (keys : List Value) :
    db.run { table, outputs := plainOutputs table columns,
             filter := some (keyedBy table link keys) } =
      .ok (((db.rows table).filter fun row => keys.any (row.value link).sqlEq).map
        (·.only columns)) := by
  refine run_of_selected hsome rfl ?_
  have htruth : ∀ row : Row, (keyedBy table link keys).truth db ([(table, some row)] ++ []) =
      .ok ((row.value link).isOneOf keys false) := by
    intro row
    have hvalue : Bindings.value ([(table, some row)] ++ []) ⟨table, link⟩ = .ok (row.value link) :=
      Bindings.value_of_some (by simp) link
    unfold keyedBy Expr.col Expr.truth
    rw [Expr.eval, Expr.eval, hvalue]
    simp [bind, Except.bind, pure, Except.pure]
  have heval : ∀ bindings ∈ (db.rows table).map (fun row => [(table, some row)]),
      ∃ value, (keyedBy table link keys).eval db (bindings ++ []) = .ok value := by
    intro bindings hbindings
    obtain ⟨row, -, rfl⟩ := List.mem_map.mp hbindings
    exact (keyedBy_scoped (List.mem_singleton_self table)).eval_ok db fun name hname => hname
  have hkeep : ∀ row : Row, accepts (fun bindings =>
      (keyedBy table link keys).truth db (bindings ++ [])) [(table, some row)] =
        keys.any (row.value link).sqlEq := by
    intro row
    have haccept : accepts (fun bindings => (keyedBy table link keys).truth db (bindings ++ []))
        [(table, some row)] = decide ((row.value link).isOneOf keys false = some true) :=
      accepts_of_ok (htruth row)
    rw [haccept, Bool.eq_iff_iff, decide_eq_true_eq, Value.isOneOf_eq_true]
  rw [selectRows]
  simp only [Option.getD_none, joinAll, pure, Except.pure, bind, Except.bind, keepRows_ok heval,
    groupRows, sortRows, List.filter_map, Function.comp_def, hkeep]

/-! ### Fetching -/

/-- The ends of the links of a junction table from the given keys. -/
def Junction.ends (db : Database) (junction : Junction) (keys : List Value) :
    List (Value × Value) :=
  ((db.rows junction.table).filter fun link =>
    keys.any (link.value junction.fromColumn).sqlEq &&
      (!(link.value junction.fromColumn).isNull && !(link.value junction.toColumn).isNull)).map
    fun link => (link.value junction.fromColumn, link.value junction.toColumn)

/-- The related rows that are fetched by the given keys of owners, each with the key of its
owner. -/
def Relation.fetched (db : Database) (relation : Relation) (keys : List Value) :
    List (String × Row) :=
  match relation.junction with
  | none => ((db.rows relation.target).filter fun other =>
      keys.any (other.value relation.toColumn).sqlEq).map fun other =>
        ((other.value relation.toColumn).key, other)
  | some junction =>
    ((db.rows relation.target).filter fun other =>
      (distinctKeys ((junction.ends db keys).map (·.2))).any
        (other.value relation.toColumn).sqlEq).flatMap fun other =>
      ((junction.ends db keys).filter fun pair =>
        pair.2.key == (other.value relation.toColumn).key).map fun pair => (pair.1.key, other)

/-- The columns that a statement for related rows yields. -/
def relatedColumns (target : Table) (branch : Branch) (link : String) : List String :=
  withHidden branch.shape.fields
    (link :: target.linkColumns (branch.shape.relations.map (·.1)))

theorem relatedStatement_eq (target : Table) {branch : Branch} (h : branch.WithoutClauses)
    (link : String) (keys : List Value) :
    relatedStatement schema target branch link keys =
      { table := target.name, outputs := plainOutputs target.name (relatedColumns target branch link),
        filter := some (keyedBy target.name link keys) } := by
  unfold relatedStatement
  rw [h.filter, h.orderBy, h.distinct]
  simp [Schema.predicate?, Schema.sortKeys, SelectOf.andWhere?, relatedColumns]

theorem link_mem_relatedColumns (target : Table) (branch : Branch) (link : String) :
    link ∈ relatedColumns target branch link :=
  mem_withHidden.mpr (Or.inr List.mem_cons_self)

/-- The statement for related rows yields columns of those whose link is one of the keys. -/
theorem run_related (target : Table) {branch : Branch} (h : branch.WithoutClauses) (link : String)
    (keys : List Value) :
    db.run (relatedStatement schema target branch link keys) =
      .ok (((db.rows target.name).filter fun row => keys.any (row.value link).sqlEq).map
        (·.only (relatedColumns target branch link))) := by
  rw [relatedStatement_eq target h]
  exact run_keyed target.name link
    (List.ne_nil_of_mem (link_mem_relatedColumns target branch link)) keys

theorem keyIn_only (row : Row) {columns : List String} {column : String} (h : column ∈ columns) :
    (row.only columns).keyIn column = (row.value column).key := by
  unfold Row.keyIn
  rw [Row.lookup_only row h]
  rfl

/-- The ends of links, as far as neither is null. -/
theorem linkEnds_only (junction : Junction) (links : List Row) :
    linkEnds junction (links.map (·.only [junction.fromColumn, junction.toColumn])) =
      (links.filter fun link => !(link.value junction.fromColumn).isNull &&
        !(link.value junction.toColumn).isNull).map
        fun link => (link.value junction.fromColumn, link.value junction.toColumn) := by
  unfold linkEnds
  rw [List.filterMap_map, ← List.filterMap_eq_filter, List.map_filterMap]
  refine List.filterMap_congr ?_
  intro link _
  have hfrom : (link.only [junction.fromColumn, junction.toColumn]).lookup junction.fromColumn =
      some (link.value junction.fromColumn) := Row.lookup_only link (by simp)
  have hto : (link.only [junction.fromColumn, junction.toColumn]).lookup junction.toColumn =
      some (link.value junction.toColumn) := Row.lookup_only link (by simp)
  simp only [Function.comp_apply, hfrom, hto, Option.guard_apply]
  cases (link.value junction.fromColumn).isNull <;> cases (link.value junction.toColumn).isNull <;>
    rfl

/-- The ends of the links that a statement by keys yields. -/
theorem linkEnds_ends (junction : Junction) (keys : List Value) :
    linkEnds junction (((db.rows junction.table).filter fun link =>
        keys.any (link.value junction.fromColumn).sqlEq).map
          (·.only [junction.fromColumn, junction.toColumn])) = junction.ends db keys := by
  rw [linkEnds_only, List.filter_filter, Junction.ends]
  refine congrArg _ (List.filter_congr ?_)
  intro link _
  rw [Bool.and_comm]

/-- What a fetch gives: the fetched rows, each with the columns that are needed. -/
theorem fetch_related (relation : Relation) {branch : Branch} (h : branch.WithoutClauses)
    {target : Table} (htarget : schema.table? relation.target = some target)
    (hname : target.name = relation.target) (keys : List Value) :
    (fetch schema relation branch keys).Gives db.run fun related =>
      related = (relation.fetched db keys).map fun pair =>
        ⟨pair.1, (pair.2.only (relatedColumns target branch relation.toColumn)).toRecord⟩ := by
  have hlink := link_mem_relatedColumns target branch relation.toColumn
  unfold fetch Relation.fetched
  split
  · next hempty =>
      refine Load.gives_pure ?_
      rw [List.isEmpty_iff.mp hempty]
      cases relation.junction with
      | none => simp
      | some junction => simp [Junction.ends, distinctKeys, firstOfEach]
  · cases hjunction : relation.junction with
    | none =>
        unfold fetchDirect
        rw [htarget]
        refine Load.gives_ask (run_related target h relation.toColumn keys) (Load.gives_pure ?_)
        rw [hname, List.map_map, List.map_map]
        refine List.map_congr_left ?_
        intro other _
        simp only [Function.comp_apply, keyIn_only other hlink]
    | some junction =>
        unfold fetchLinked
        have hlinks : db.run (linkStatement junction keys) =
            .ok (((db.rows junction.table).filter fun link =>
              keys.any (link.value junction.fromColumn).sqlEq).map
                (·.only [junction.fromColumn, junction.toColumn])) :=
          run_keyed junction.table junction.fromColumn (List.cons_ne_nil _ _) keys
        refine Load.gives_ask hlinks ?_
        rw [linkEnds_ends]
        dsimp only
        split
        · next hempty =>
            refine Load.gives_pure ?_
            rw [List.isEmpty_iff.mp hempty]
            simp
        · rw [htarget]
          refine Load.gives_ask (run_related target h relation.toColumn _) (Load.gives_pure ?_)
          rw [hname, List.flatMap_map, List.map_flatMap]
          refine List.flatMap_congr ?_
          intro other _
          simp only [keyIn_only other hlink, List.map_map]
          rfl

/-! ### Batches -/

/-- The first items of every key have all keys. -/
theorem exists_firstOfEach {α : Type} (key : α → String) (seen : List String) {items : List α}
    {item : α} (hitem : item ∈ items) :
    key item ∈ seen ∨ ∃ first ∈ firstOfEach key seen items, key first = key item := by
  induction items generalizing seen with
  | nil => cases hitem
  | cons first rest ih =>
      rw [firstOfEach]
      rcases List.mem_cons.mp hitem with rfl | hmem
      · split
        · next hseen => exact Or.inl (List.contains_iff_mem.mp hseen)
        · exact Or.inr ⟨item, List.mem_cons_self, rfl⟩
      · split
        · exact ih seen hmem
        · rcases ih (key first :: seen) hmem with hseen | ⟨other, hother, hkey⟩
          · rcases List.mem_cons.mp hseen with heq | hseen
            · exact Or.inr ⟨first, List.mem_cons_self, heq.symm⟩
            · exact Or.inl hseen
          · exact Or.inr ⟨other, List.mem_cons_of_mem _ hother, hkey⟩

/-- Distinct keys are values that are not null. -/
theorem mem_distinctKeys {values : List Value} {key : Value} (h : key ∈ distinctKeys values) :
    key ∈ values ∧ key ≠ .null := by
  obtain ⟨hmem, hnull⟩ := List.mem_filter.mp ((firstOfEach_sublist _ _ _).subset h)
  exact ⟨hmem, Value.isNull_eq_false.mp (by simpa using hnull)⟩

/-- Every value that is not null has its key among the distinct ones. -/
theorem exists_distinctKey {values : List Value} {value : Value} (hvalue : value ∈ values)
    (hnull : value ≠ .null) : ∃ key ∈ distinctKeys values, key.key = value.key := by
  have hmem : value ∈ values.filter fun value => !value.isNull := by
    refine List.mem_filter.mpr ⟨hvalue, ?_⟩
    rw [Value.isNull_eq_false.mpr hnull]
    rfl
  rcases exists_firstOfEach Value.key [] hmem with hseen | hfirst
  · cases hseen
  · exact hfirst

/-- Selecting by the keys of a batch and then handing out by key is comparing with the one
value. -/
theorem keyed_any {values : List Value} {value one : Value}
    (hagrees : ∀ other ∈ values, value.AgreesOnKey other) (hone : one ∈ values)
    (hnull : one ≠ .null) :
    ((distinctKeys values).any value.sqlEq && value.key == one.key) = value.sqlEq one := by
  rw [Bool.eq_iff_iff, Bool.and_eq_true, List.any_eq_true, beq_iff_eq]
  constructor
  · rintro ⟨⟨key, -, heq⟩, hkey⟩
    exact (hagrees one hone (Value.ne_null_of_sqlEq heq).1 hnull).mpr hkey
  · intro heq
    have hkey := (hagrees one hone (Value.ne_null_of_sqlEq heq).1 hnull).mp heq
    obtain ⟨key, hmem, hsame⟩ := exists_distinctKey hone hnull
    obtain ⟨hvalues, hkeyNull⟩ := mem_distinctKeys hmem
    refine ⟨⟨key, hmem, ?_⟩, hkey⟩
    exact (hagrees key hvalues (Value.ne_null_of_sqlEq heq).1 hkeyNull).mpr (hkey.trans hsame.symm)

section Links

variable {relation : Relation} {junction : Junction} {table : String}
  (h : relation.Keyed db table) (hjunction : relation.junction = some junction)
  {owners : List Row} (howners : owners ⊆ db.rows table) {row : Row} (hrow : row ∈ owners)
  (hnull : row.value relation.fromColumn ≠ .null) {link : Row}
  (hlink : link ∈ db.rows junction.table)

include h hjunction howners hrow hnull hlink

/-- Of the links of a batch, those with the key of an owner are its own. -/
theorem Relation.Keyed.link_of_owner :
    ((distinctKeys (owners.map (·.value relation.fromColumn))).any
        (link.value junction.fromColumn).sqlEq &&
      (link.value junction.fromColumn).key == (row.value relation.fromColumn).key) =
      (link.value junction.fromColumn).sqlEq (row.value relation.fromColumn) := by
  refine keyed_any ?_ (List.mem_map_of_mem hrow) hnull
  intro value hvalue
  obtain ⟨owner, howner, rfl⟩ := List.mem_map.mp hvalue
  exact h.owners junction hjunction owner (howners howner) link hlink

/-- A link that leads from an owner to a row is one of the ends of the batch, and has both keys. -/
theorem Relation.Keyed.link_between {other : Row} (hother : other ∈ db.rows relation.target)
    (hreached : other.value relation.toColumn ≠ .null) :
    ((link.value junction.fromColumn).key == (row.value relation.fromColumn).key &&
      ((link.value junction.toColumn).key == (other.value relation.toColumn).key &&
        ((distinctKeys (owners.map (·.value relation.fromColumn))).any
            (link.value junction.fromColumn).sqlEq &&
          (!(link.value junction.fromColumn).isNull &&
            !(link.value junction.toColumn).isNull)))) =
      ((link.value junction.fromColumn).sqlEq (row.value relation.fromColumn) &&
        (other.value relation.toColumn).sqlEq (link.value junction.toColumn)) := by
  have htarget := h.targets junction hjunction link hlink other hother
  rw [← h.link_of_owner hjunction howners hrow hnull hlink, Bool.eq_iff_iff]
  simp only [Bool.and_eq_true, Bool.not_eq_true', beq_iff_eq]
  constructor
  · rintro ⟨hown, hreach, hany, -, hnotNull⟩
    exact ⟨⟨hany, hown⟩, (htarget hreached (Value.isNull_eq_false.mp hnotNull)).mpr hreach.symm⟩
  · rintro ⟨⟨hany, hown⟩, hreach⟩
    have hnotNull := (Value.ne_null_of_sqlEq hreach).2
    have hfromNull : link.value junction.fromColumn ≠ .null := by
      obtain ⟨key, -, hkey⟩ := List.any_eq_true.mp hany
      exact (Value.ne_null_of_sqlEq hkey).1
    exact ⟨hown, ((htarget hreached hnotNull).mp hreach).symm, hany,
      Value.isNull_eq_false.mpr hfromNull, Value.isNull_eq_false.mpr hnotNull⟩

/-- The end of a link of an owner is one of the ends of the batch. -/
theorem Relation.Keyed.end_of_link
    (hlinked : (link.value junction.fromColumn).sqlEq (row.value relation.fromColumn) = true)
    (hto : link.value junction.toColumn ≠ .null) :
    link.value junction.toColumn ∈ (junction.ends db
      (distinctKeys (owners.map (·.value relation.fromColumn)))).map (·.2) := by
  have hany := h.link_of_owner hjunction howners hrow hnull hlink
  rw [hlinked, Bool.and_eq_true] at hany
  have hfromNull := (Value.ne_null_of_sqlEq hlinked).1
  refine List.mem_map.mpr ⟨_, List.mem_map.mpr ⟨link, List.mem_filter.mpr ⟨hlink, ?_⟩, rfl⟩, rfl⟩
  rw [hany.1, Value.isNull_eq_false.mpr hfromNull, Value.isNull_eq_false.mpr hto]
  rfl

end Links

/-- Of one row of the target, an owner gets from a batch as many as there are links to it. -/
theorem Relation.fetched_through {relation : Relation} {junction : Junction} {table : String}
    (h : relation.Keyed db table) (hjunction : relation.junction = some junction)
    {owners : List Row} (howners : owners ⊆ db.rows table) {row : Row} (hrow : row ∈ owners)
    (hnull : row.value relation.fromColumn ≠ .null) {other : Row}
    (hother : other ∈ db.rows relation.target) :
    let ends := junction.ends db (distinctKeys (owners.map (·.value relation.fromColumn)))
    (if (distinctKeys (ends.map (·.2))).any (other.value relation.toColumn).sqlEq then
        (((ends.filter fun pair => pair.2.key == (other.value relation.toColumn).key).map
          fun pair => (pair.1.key, other)).filter
            fun pair => pair.1 == (row.value relation.fromColumn).key).map (·.2)
      else []) =
      ((db.rows junction.table).filter fun link =>
        (link.value junction.fromColumn).sqlEq (row.value relation.fromColumn) &&
          (other.value relation.toColumn).sqlEq (link.value junction.toColumn)).map
        fun _ => other := by
  intro ends
  by_cases hselected :
      (distinctKeys (ends.map (·.2))).any (other.value relation.toColumn).sqlEq = true
  · have hreached : other.value relation.toColumn ≠ .null := by
      obtain ⟨key, -, hkey⟩ := List.any_eq_true.mp hselected
      exact (Value.ne_null_of_sqlEq hkey).1
    rw [if_pos hselected, ← List.filter_congr fun link hlink =>
      h.link_between hjunction howners hrow hnull hlink hother hreached]
    unfold ends Junction.ends
    simp only [List.filter_map, List.map_map, List.filter_filter]
    rfl
  · have hagrees : ∀ value ∈ ends.map (·.2),
        (other.value relation.toColumn).AgreesOnKey value := by
      intro value hvalue
      obtain ⟨pair, hpair, rfl⟩ := List.mem_map.mp hvalue
      obtain ⟨link, hlink, rfl⟩ := List.mem_map.mp hpair
      exact h.targets junction hjunction link (List.mem_filter.mp hlink).1 other hother
    have hnone : (db.rows junction.table).filter (fun link =>
        (link.value junction.fromColumn).sqlEq (row.value relation.fromColumn) &&
          (other.value relation.toColumn).sqlEq (link.value junction.toColumn)) = [] := by
      refine List.filter_eq_nil_iff.mpr ?_
      intro link hlink hlinked
      obtain ⟨hown, hreach⟩ := Bool.and_eq_true_iff.mp hlinked
      have hnotNull := (Value.ne_null_of_sqlEq hreach).2
      have hboth := keyed_any hagrees
        (h.end_of_link hjunction howners hrow hnull hlink hown hnotNull) hnotNull
      rw [hreach, Bool.and_eq_true] at hboth
      exact hselected hboth.1
    rw [if_neg hselected, hnone]
    rfl

/-- An owner gets from a batch the rows that the relation links it to. -/
theorem Relation.fetched_of_owner {relation : Relation} {table : String}
    (h : relation.Keyed db table) {owners : List Row} (howners : owners ⊆ db.rows table) {row : Row}
    (hrow : row ∈ owners) (hnull : row.value relation.fromColumn ≠ .null) :
    ((relation.fetched db (distinctKeys (owners.map (·.value relation.fromColumn)))).filter
        fun pair => pair.1 == (row.value relation.fromColumn).key).map (·.2) =
      relation.linked db row := by
  have hvalue : row.value relation.fromColumn ∈ owners.map (·.value relation.fromColumn) :=
    List.mem_map_of_mem hrow
  unfold Relation.fetched Relation.linked
  cases hjunction : relation.junction with
  | none =>
      dsimp only
      rw [List.filter_map, List.map_map, List.filter_filter]
      have hkeep : ∀ other ∈ db.rows relation.target,
          (((fun pair : String × Row => pair.1 == (row.value relation.fromColumn).key) ∘
            fun other => ((other.value relation.toColumn).key, other)) other &&
            (distinctKeys (owners.map (·.value relation.fromColumn))).any
              (other.value relation.toColumn).sqlEq) =
            (other.value relation.toColumn).sqlEq (row.value relation.fromColumn) := by
        intro other hother
        rw [Bool.and_comm]
        refine keyed_any ?_ hvalue hnull
        intro value hmem
        obtain ⟨owner, howner, rfl⟩ := List.mem_map.mp hmem
        exact h.direct hjunction owner (howners howner) other hother
      rw [List.filter_congr hkeep]
      exact List.map_id _
  | some junction =>
      dsimp only
      rw [flatMap_filter, List.filter_flatMap, List.map_flatMap]
      refine List.flatMap_congr ?_
      intro other hother
      rw [← Relation.fetched_through h hjunction howners hrow hnull hother]
      split
      · rfl
      · rfl

/-! ### Attaching -/

/-- The names of the entries of known relations. -/
theorem names_nestBranches {relations : List (String × Branch)} {table : String} {row : Row}
    (hproper : branchesProper schema relations table) :
    (nestBranches schema db relations table row).map (·.1) = relations.map (·.1) := by
  induction relations with
  | nil => rfl
  | cons entry rest ih =>
      obtain ⟨name, ⟨shape, filter, orderBy, take, skip, distinct, joinKind⟩⟩ := entry
      rw [branchesProper] at hproper
      obtain ⟨⟨-, relation, hrelation, -⟩, hrest⟩ := hproper
      rw [nestBranches, hrelation]
      simp only [List.map_cons, ih hrest]

/-- A record is the nested record of a row if it shows just that. -/
theorem eq_nest {fields excluded : List String} {relations : List (String × Branch)}
    {table : String} {row : Row} (hproper : Shape.Proper schema ⟨fields, excluded, relations⟩ table)
    {record : Record} (hsorted : Dict.Sorted record)
    (hrelations : ∀ name ∈ relations.map (·.1),
      record.lookup name = (nestBranches schema db relations table row).lookup name)
    (hfields : ∀ field ∈ fields, record.lookup field = some (.scalar (row.value field)))
    (hothers : ∀ name, name ∉ fields → name ∉ relations.map (·.1) → record.lookup name = none) :
    record = Shape.nest schema db ⟨fields, excluded, relations⟩ table row := by
  rw [Shape.Proper] at hproper
  obtain ⟨hcolumns, hnodup, hbranches⟩ := hproper
  have hnames : (nestBranches schema db relations table row).map (·.1) = relations.map (·.1) :=
    names_nestBranches hbranches
  rw [Shape.nest]
  refine Dict.Sorted.ext hsorted ((Dict.sorted_ofPairs _).putAll _) ?_
  intro name
  rw [Dict.lookup_putAll_of_nodup (by rw [hnames]; exact hnodup), Row.lookup_recordOf]
  by_cases hrelation : name ∈ relations.map (·.1)
  · rw [hrelations name hrelation]
    rw [← hnames] at hrelation
    obtain ⟨node, hnode⟩ := Option.isSome_iff_exists.mp (Dict.lookup_isSome_iff.mpr hrelation)
    rw [hnode]
    rfl
  · have hnone : (nestBranches schema db relations table row).lookup name = none := by
      refine Dict.lookup_eq_none_iff.mpr ?_
      rw [Dict.names, hnames]
      exact hrelation
    rw [hnone, Option.none_or]
    by_cases hfield : name ∈ fields
    · rw [hfields name hfield, if_pos hfield]
    · rw [hothers name hfield hrelation, if_neg hfield]

/-- A record that mirrors the fields of a row, with the entries of the relations, shows the nested
record of the row. -/
theorem shown_nest {fields excluded : List String} {relations : List (String × Branch)}
    {table : String} {row : Row} (hproper : Shape.Proper schema ⟨fields, excluded, relations⟩ table)
    {record : Record} {columns : List String} (h : record.Mirrors row columns)
    (hfields : fields ⊆ columns) :
    Record.shown (Dict.putAll record (nestBranches schema db relations table row)) fields
        (relations.map (·.1)) =
      Shape.nest schema db ⟨fields, excluded, relations⟩ table row := by
  have hshape := hproper
  rw [Shape.Proper] at hshape
  obtain ⟨hcolumns, hnodup, hbranches⟩ := hshape
  have hnames : (nestBranches schema db relations table row).map (·.1) = relations.map (·.1) :=
    names_nestBranches hbranches
  have hlookup : ∀ name, (Dict.putAll record (nestBranches schema db relations table row)).lookup
      name = ((nestBranches schema db relations table row).lookup name).or
        (record.lookup name) :=
    Dict.lookup_putAll_of_nodup (by rw [hnames]; exact hnodup)
  refine eq_nest hproper ((h.sorted.putAll _).filter _) ?_ ?_ ?_
  · intro name hname
    rw [Record.lookup_shown, if_pos (by simp [hname]), hlookup]
    rw [← hnames] at hname
    obtain ⟨node, hnode⟩ := Option.isSome_iff_exists.mp (Dict.lookup_isSome_iff.mpr hname)
    rw [hnode]
    rfl
  · intro field hfield
    have hother : (nestBranches schema db relations table row).lookup field = none := by
      refine Dict.lookup_eq_none_iff.mpr ?_
      rw [Dict.names, hnames]
      exact fields_disjoint hcolumns hbranches field hfield
    rw [Record.lookup_shown, if_pos (by simp [hfield]), hlookup, hother, Option.none_or]
    exact h.bound field (hfields hfield)
  · intro name hfield hrelation
    rw [Record.lookup_shown, if_neg (by simp [hfield, hrelation])]

theorem Record.scalar_put_of_ne {record : Record} {name column : String} (h : column ≠ name)
    (node : Node) : Record.scalar (Dict.put name node record) column = record.scalar column := by
  unfold Record.scalar
  rw [Dict.lookup_put_of_ne h]

/-- What is asked of a relation that is loaded by follow-up statements. -/
structure FollowsKeys (db : Database) (table : String) (branch : Branch) (relation : Relation) :
    Prop where
  clauses : branch.WithoutClauses
  keyed : relation.Keyed db table

/-- The columns that a record needs so that the relations of a shape can be loaded. -/
def Shape.Needs (schema : Schema) (shape : Shape) (table : String) (columns : List String) : Prop :=
  shape.fields ⊆ columns ∧ ∀ entry ∈ shape.relations, ∀ relation,
    schema.relation? table entry.1 = some relation → relation.fromColumn ∈ columns

/-- The related records of rows of a table, each with the key of its owner. -/
def relatedOf (pairs : List (String × Row)) (columns : List String) : List Related :=
  pairs.map fun pair => ⟨pair.1, (pair.2.only columns).toRecord⟩

/-- What was fetched for a relation of some owners: of rows of the target the columns that are
needed, and for every owner the rows that the relation links it to. -/
def FetchedFor (schema : Schema) (db : Database) (table : String) (owners : List Row)
    (entry : String × Branch) (related : List Related) : Prop :=
  ∃ relation pairs columns, schema.relation? table entry.1 = some relation ∧
    related = relatedOf pairs columns ∧ entry.2.shape.Needs schema relation.target columns ∧
    (∀ pair ∈ pairs, pair.2 ∈ db.rows relation.target) ∧
    ∀ row ∈ owners, row.value relation.fromColumn ≠ .null →
      (pairs.filter fun pair => pair.1 == (row.value relation.fromColumn).key).map (·.2) =
        relation.linked db row

theorem Relation.fetched_subset (relation : Relation) (keys : List Value) :
    ∀ pair ∈ relation.fetched db keys, pair.2 ∈ db.rows relation.target := by
  intro pair hpair
  unfold Relation.fetched at hpair
  split at hpair
  · obtain ⟨other, hother, rfl⟩ := List.mem_map.mp hpair
    exact (List.mem_filter.mp hother).1
  · obtain ⟨other, hother, hmem⟩ := List.mem_flatMap.mp hpair
    obtain ⟨_, -, rfl⟩ := List.mem_map.mp hmem
    exact (List.mem_filter.mp hother).1

/-- The column that a relation starts from is one of those that link it. -/
theorem mem_linkColumns {name : String} {table : Table} (hknown : schema.table? name = some table)
    {names : List String} {key : String} (hkey : key ∈ names) {relation : Relation}
    (hrelation : schema.relation? name key = some relation) :
    relation.fromColumn ∈ table.linkColumns names := by
  rw [Schema.relation?, hknown, Option.bind_some] at hrelation
  exact List.mem_map_of_mem (List.mem_filterMap.mpr ⟨key, hkey, hrelation⟩)

theorem relatedColumns_needs {branch : Branch} {relation : Relation} {target : Table}
    (htarget : schema.table? relation.target = some target) :
    branch.shape.Needs schema relation.target
      (relatedColumns target branch relation.toColumn) := by
  constructor
  · exact fun field hfield => mem_withHidden.mpr (Or.inl hfield)
  · intro entry hentry inner hinner
    exact mem_withHidden.mpr (Or.inr (List.mem_cons_of_mem _
      (mem_linkColumns htarget (List.mem_map_of_mem hentry) hinner)))

/-- For every relation of a level is fetched what its owners need. -/
theorem fetchLevel_fetched (h : schema.Consistent) {table : String}
    {branches : List (String × Branch)} (hproper : branchesProper schema branches table)
    (hthroughout : branchesThroughout schema (FollowsKeys db) branches table)
    {owners : List Row} (howners : owners ⊆ db.rows table) {records : List Record}
    (hrecords : ∀ entry ∈ branches, ∀ relation, schema.relation? table entry.1 = some relation →
      records.map (·.scalar relation.fromColumn) = owners.map (·.value relation.fromColumn)) :
    (fetchLevel schema table branches records).Gives db.run
      (List.Forall₂ (FetchedFor schema db table owners) branches) := by
  unfold fetchLevel
  induction branches with
  | nil => exact Load.gives_pure List.Forall₂.nil
  | cons entry rest ih =>
      obtain ⟨name, ⟨shape, filter, orderBy, take, skip, distinct, joinKind⟩⟩ := entry
      rw [branchesProper] at hproper
      rw [branchesThroughout] at hthroughout
      obtain ⟨⟨-, relation, hrelation, -⟩, hrest⟩ := hproper
      obtain ⟨hfirst, hothers⟩ := hthroughout
      obtain ⟨⟨hclauses, hkeyed⟩, -⟩ := hfirst relation hrelation
      obtain ⟨target, htarget, htargetName⟩ := h.target_known hrelation
      rw [knownBranches_cons hrelation]
      refine Load.Gives.bind (fetch_related relation hclauses htarget htargetName _) ?_
      intro related hrelated
      refine Load.Gives.bind (ih hrest hothers fun other hother =>
        hrecords other (List.mem_cons_of_mem _ hother)) ?_
      intro others hothers
      refine Load.gives_pure (List.Forall₂.cons ?_ hothers)
      rw [hrecords _ List.mem_cons_self relation hrelation] at hrelated
      exact ⟨relation, _, _, hrelation, hrelated, relatedColumns_needs htarget,
        relation.fetched_subset _, fun row hrow hnull =>
          Relation.fetched_of_owner hkeyed howners hrow hnull⟩

/-- An owner of null is linked to nothing. -/
theorem Relation.linked_of_null (relation : Relation) {row : Row}
    (h : row.value relation.fromColumn = .null) : relation.linked db row = [] := by
  have hnone : ∀ value : Value, value.sqlEq (row.value relation.fromColumn) = false := by
    intro value
    rw [h, Value.sqlEq_comm, Value.sqlEq_null]
  unfold Relation.linked
  split
  · exact List.filter_eq_nil_iff.mpr fun other _ => by simp [hnone]
  · refine List.flatMap_eq_nil_iff.mpr ?_
    intro other _
    rw [List.map_eq_nil_iff]
    exact List.filter_eq_nil_iff.mpr fun link _ => by simp [hnone]

/-- Attaching finished records to an owner attaches the nested rows that it is linked to. -/
theorem attach_nest (name : String) {relation : Relation} {branch : Branch}
    (hclauses : branch.WithoutClauses) {pairs : List (String × Row)} {row : Row} {record : Record}
    (hscalar : record.scalar relation.fromColumn = row.value relation.fromColumn)
    (hlinked : row.value relation.fromColumn ≠ .null →
      (pairs.filter fun pair => pair.1 == (row.value relation.fromColumn).key).map (·.2) =
        relation.linked db row) (nest : Row → Record) :
    attach name relation branch (pairs.map fun pair => ⟨pair.1, nest pair.2⟩) record =
      Dict.put name (.ofRelated relation.kind.isToMany ((relation.linked db row).map nest))
        record := by
  unfold attach
  dsimp only
  rw [hclauses.page, hscalar]
  split
  · next hnull =>
      have heq : row.value relation.fromColumn = .null := by
        by_contra hne
        rw [Value.isNull_eq_false.mpr hne] at hnull
        cases hnull
      rw [relation.linked_of_null heq]
      rfl
  · next hnull =>
      rw [← hlinked (Value.isNull_eq_false.mp (by simpa using hnull)), List.filter_map,
        List.map_map, List.map_map]
      rfl

mutual

/-- Attaching what was fetched makes the entries of nested rows. -/
theorem attachLevel_nest (h : schema.Consistent) : ∀ {table : String}
    {branches : List (String × BranchOf Shape)} {fetched : List (List Related)},
    branchesProper schema branches table →
    branchesThroughout schema (FollowsKeys db) branches table → ∀ {owners : List Row},
    List.Forall₂ (FetchedFor schema db table owners) branches fetched →
    (attachLevel schema table branches fetched).Gives db.run fun load =>
      ∀ row ∈ owners, ∀ record : Record,
        (∀ entry ∈ branches, ∀ relation, schema.relation? table entry.1 = some relation →
          record.scalar relation.fromColumn = row.value relation.fromColumn) →
        load record = Dict.putAll record (nestBranches schema db branches table row)
  | table, [], fetched, hproper, hthroughout, owners, hfetched => by
      rw [attachLevel]
      exact Load.gives_pure fun row _ record _ => rfl
  | table, (name, ⟨shape, filter, orderBy, take, skip, distinct, joinKind⟩) :: rest, fetched,
      hproper, hthroughout, owners, hfetched => by
      rw [branchesProper] at hproper
      rw [branchesThroughout] at hthroughout
      obtain ⟨⟨hname, relation, hrelation, hshape⟩, hrest⟩ := hproper
      obtain ⟨hfirst, hmoreThroughout⟩ := hthroughout
      obtain ⟨⟨hclauses, -⟩, hbeneath⟩ := hfirst relation hrelation
      cases hfetched with
      | @cons _ related _ others hrelated hothers =>
          obtain ⟨found, pairs, columns, hfound, rfl, hneeds, hpairs, hlinked⟩ := hrelated
          rw [hrelation] at hfound
          cases hfound
          rw [attachLevel.eq_def]
          simp only [hrelation]
          refine Load.Gives.bind (finishRelated_nest h hshape hbeneath hpairs hneeds) ?_
          rintro finished rfl
          refine Load.Gives.bind (attachLevel_nest h hrest hmoreThroughout hothers) ?_
          intro more hmore
          refine Load.gives_pure ?_
          intro row hrow record hscalars
          have hattach := attach_nest name hclauses
            (hscalars _ List.mem_cons_self relation hrelation) (hlinked row hrow)
            (shape.nest schema db relation.target)
          dsimp only
          rw [hattach, nestBranches, hrelation]
          refine hmore row hrow _ ?_
          intro entry hentry other hother
          rw [Record.scalar_put_of_ne (h.fromColumn_ne hother hname)]
          exact hscalars entry (List.mem_cons_of_mem _ hentry) other hother

/-- Finishing related records makes nested records of their rows. -/
theorem finishRelated_nest (h : schema.Consistent) : ∀ {table : String} {shape : Shape},
    shape.Proper schema table → shape.Throughout schema (FollowsKeys db) table →
    ∀ {pairs : List (String × Row)}, (∀ pair ∈ pairs, pair.2 ∈ db.rows table) →
    ∀ {columns : List String}, shape.Needs schema table columns →
    (finishRelated schema table shape (relatedOf pairs columns)).Gives db.run fun finished =>
      finished = pairs.map fun pair => ⟨pair.1, shape.nest schema db table pair.2⟩
  | table, ⟨fields, excluded, relations⟩, hproper, hthroughout, pairs, hpairs, columns, hneeds => by
      have hshape := hproper
      rw [Shape.Proper] at hshape
      rw [Shape.Throughout] at hthroughout
      obtain ⟨hcolumns, hnodup, hbranches⟩ := hshape
      obtain ⟨hfields, hlinks⟩ := hneeds
      have howners : pairs.map (·.2) ⊆ db.rows table := by
        intro row hrow
        obtain ⟨pair, hpair, rfl⟩ := List.mem_map.mp hrow
        exact hpairs pair hpair
      have hscalars : ∀ row : Row, ∀ entry ∈ relations, ∀ relation,
          schema.relation? table entry.1 = some relation →
          ((row.only columns).toRecord).scalar relation.fromColumn =
            row.value relation.fromColumn :=
        fun row entry hentry relation hrelation =>
          (row.toRecord_only_mirrors columns).scalar (hlinks entry hentry relation hrelation)
      rw [finishRelated]
      refine Load.Gives.bind (fetchLevel_fetched h hbranches hthroughout howners ?_) ?_
      · intro entry hentry relation hrelation
        rw [relatedOf, List.map_map, List.map_map, List.map_map]
        exact List.map_congr_left fun pair _ => hscalars pair.2 entry hentry relation hrelation
      · intro fetched hfetched
        refine Load.Gives.bind (attachLevel_nest h hbranches hthroughout hfetched) ?_
        intro load hload
        refine Load.gives_pure ?_
        rw [relatedOf, List.map_map]
        refine List.map_congr_left ?_
        intro pair hpair
        have hrecord := hload pair.2 (List.mem_map_of_mem hpair)
          (pair.2.only columns).toRecord (hscalars pair.2)
        rw [Function.comp_apply]
        dsimp only
        rw [hrecord, shown_nest hproper (pair.2.toRecord_only_mirrors columns) hfields]

end

/-- Loading the relations of owners attaches the entries of nested rows to each of them. -/
theorem loadBranches_nest (h : schema.Consistent) {table : String}
    {branches : List (String × Branch)} (hproper : branchesProper schema branches table)
    (hthroughout : branchesThroughout schema (FollowsKeys db) branches table)
    {owners : List Row} (howners : owners ⊆ db.rows table) {records : List Record}
    (hrecords : ∀ entry ∈ branches, ∀ relation, schema.relation? table entry.1 = some relation →
      records.map (·.scalar relation.fromColumn) = owners.map (·.value relation.fromColumn)) :
    (loadBranches schema table branches records).Gives db.run fun load =>
      ∀ row ∈ owners, ∀ record : Record,
        (∀ entry ∈ branches, ∀ relation, schema.relation? table entry.1 = some relation →
          record.scalar relation.fromColumn = row.value relation.fromColumn) →
        load record = Dict.putAll record (nestBranches schema db branches table row) :=
  Load.Gives.bind (fetchLevel_fetched h hproper hthroughout howners hrecords) fun _ hfetched =>
    attachLevel_nest h hproper hthroughout hfetched

theorem selectRows_outputs (statement : Select) (outputs : List Output) (outer : Bindings) :
    selectRows db { statement with outputs } outer = selectRows db statement outer := by
  obtain ⟨_, _, _, _, _, _, _, _⟩ := statement
  rfl

/-- Found by separate statements, the records are the nested records of the rows that the base
statement selects. -/
theorem findSeparately_nest (engine : Engine) (h : engine.schema.Consistent) {table : Table}
    (args : FindArgs) (paging : Paging) {shape : Shape}
    (hproper : shape.Proper engine.schema table.name)
    (hknown : engine.schema.table? table.name = some table)
    (hthroughout : shape.Throughout engine.schema (FollowsKeys db) table.name)
    (hsome : withHidden shape.fields (table.linkColumns (shape.relations.map (·.1))) ≠ [])
    {selected : List Row} (hsubset : selected ⊆ db.rows table.name)
    (hselected : selectRows db (engine.baseStatement table args paging [] true) [] =
      .ok (selected.map fun row => [(table.name, some row)])) :
    (engine.findSeparately table args paging shape).Gives db.run fun records =>
      records = (Window.cut (engine.baseStatement table args paging [] true).window selected).map
        (shape.nest engine.schema db table.name) := by
  obtain ⟨-, -, htable, -⟩ := baseStatement_frame engine table args paging [] true
  unfold Engine.findSeparately
  extract_lets names columns base statement
  have hstatement : statement.table = table.name := htable
  have hrun : db.run statement = .ok ((Window.cut statement.window selected).map
      (·.only columns)) := by
    refine run_of_selected hsome ?_ ?_
    · rw [hstatement]
    · rw [hstatement]
      exact (selectRows_outputs _ _ _).trans hselected
  refine Load.gives_ask hrun ?_
  have hwindow : Window.cut statement.window selected ⊆ selected := cut_subset _ _
  generalize Window.cut statement.window selected = rows at hwindow ⊢
  have hshape := hproper
  obtain ⟨fields, excluded, relations⟩ := shape
  rw [Shape.Proper] at hshape
  rw [Shape.Throughout] at hthroughout
  have hlinks : ∀ row : Row, ∀ entry ∈ relations, ∀ relation,
      engine.schema.relation? table.name entry.1 = some relation →
      ((row.only columns).toRecord).scalar relation.fromColumn = row.value relation.fromColumn := by
    intro row entry hentry relation hrelation
    exact (row.toRecord_only_mirrors columns).scalar (mem_withHidden.mpr (Or.inr
      (mem_linkColumns hknown (List.mem_map_of_mem hentry) hrelation)))
  have howners : rows ⊆ db.rows table.name := List.Subset.trans hwindow hsubset
  refine Load.Gives.bind (loadBranches_nest h hshape.2.2 hthroughout howners ?_) ?_
  · intro entry hentry relation hrelation
    rw [List.map_map, List.map_map]
    exact List.map_congr_left fun row _ => hlinks row entry hentry relation hrelation
  · intro load hload
    refine Load.gives_pure ?_
    rw [List.map_map, List.map_map]
    refine List.map_congr_left ?_
    intro row hrow
    rw [Function.comp_apply, Function.comp_apply, hload row hrow _ (hlinks row)]
    exact shown_nest hproper (row.toRecord_only_mirrors columns)
      fun field hfield => mem_withHidden.mpr (Or.inl hfield)

end NestedQuery
