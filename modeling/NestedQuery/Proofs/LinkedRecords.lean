import NestedQuery.Proofs.DistinctRelations
import NestedQuery.Proofs.SortableRequests
import NestedQuery.Proofs.StoredRows

/-!
# Records through a junction table

A relation of many to many is loaded in two steps for all owners at once: first
the links from their keys, then the rows of the target that these links lead to.
Owners are handed to rows by the texts of keys.  Where values are equal just if
their keys are, nothing is lost on the way and nothing is added: an owner holds
the selected rows of the target, in the order of their statement, each as often
as links lead to it from the owner.  This is so for any batch of owners, hence at
every depth of a request, whichever way the owners were found.
-/

namespace NestedQuery

variable {schema : Schema} {db : Database}

/-! ### Rows by links -/

/-- The rows, each as often as links of the junction lead to it from the value. -/
def Relation.alongLinks (db : Database) (relation : Relation) (junction : Junction)
    (rows : List Row) (value : Value) : List Row :=
  rows.flatMap fun row => List.replicate ((db.rows junction.table).countP fun link =>
    (link.value junction.fromColumn).sqlEq value &&
      (row.value relation.toColumn).sqlEq (link.value junction.toColumn)) row

/-- From a value that no link starts from, no row is reached. -/
theorem Relation.alongLinks_unlinked (relation : Relation) {junction : Junction} (rows : List Row)
    {value : Value}
    (h : ∀ link ∈ db.rows junction.table, (link.value junction.fromColumn).sqlEq value = false) :
    relation.alongLinks db junction rows value = [] := by
  refine List.flatMap_eq_nil_iff.mpr fun row _ => (List.replicate_eq_nil_iff _).mpr ?_
  refine List.countP_eq_zero.mpr fun link hlink => ?_
  rw [h link hlink]
  exact Bool.false_ne_true

theorem Relation.alongLinks_null (relation : Relation) (junction : Junction) (rows : List Row) :
    relation.alongLinks db junction rows .null = [] :=
  relation.alongLinks_unlinked rows fun _ _ => (Value.sqlEq_comm _ _).trans (Value.sqlEq_null _)

/-- Rows that no link leads to may be left out. -/
theorem Relation.alongLinks_filter (relation : Relation) (junction : Junction) {keep : Row → Bool}
    (rows : List Row) {value : Value} (h : ∀ row ∈ rows, keep row = false →
      relation.alongLinks db junction [row] value = []) :
    relation.alongLinks db junction (rows.filter keep) value =
      relation.alongLinks db junction rows value := by
  unfold Relation.alongLinks
  refine flatMap_filter_of_nil fun row hrow hdropped => ?_
  have hnone := h row hrow hdropped
  rw [Relation.alongLinks, List.flatMap_singleton] at hnone
  exact hnone

/-- Where values are equal just if their keys are, links that meet are links that are equal. -/
theorem Relation.reached_eq_alongLinks {relation : Relation} {junction : Junction}
    (hjunction : relation.junction = some junction) {rows : List Row} {value : Value}
    (howner : ∀ link ∈ db.rows junction.table, (link.value junction.fromColumn).AgreesOnKey value)
    (htargets : ∀ link ∈ db.rows junction.table, ∀ row ∈ rows,
      (row.value relation.toColumn).AgreesOnKey (link.value junction.toColumn)) :
    relation.reached db rows value = relation.alongLinks db junction rows value := by
  unfold Relation.reached Relation.alongLinks
  rw [hjunction]
  refine List.flatMap_congr fun row hrow => ?_
  rw [List.map_const', List.countP_eq_length_filter]
  refine congrArg (fun links : List Row => List.replicate links.length row)
    (List.filter_congr fun link hlink => ?_)
  rw [Value.meets_eq_sqlEq (howner link hlink), Value.meets_eq_sqlEq (htargets link hlink row hrow)]

/-! ### The target statement of a batch -/

/-- The rows of a table that satisfy a filter. -/
def Database.satisfying (db : Database) (schema : Schema) (target : Table)
    (filter : Option Filter) : List Row :=
  (db.rows target.name).filter fun row =>
    db.passes (schema.predicate? target.name target.name filter [] 0).1 [(target.name, some row)]

theorem satisfying_none (target : Table) : db.satisfying schema target none = db.rows target.name :=
  List.filter_eq_self.mpr fun _ _ => rfl

/-- The rows that a statement for related rows selects, in its order. -/
def Database.answering (db : Database) (schema : Schema) (target : Table) (branch : Branch)
    (link : String) (keys : List Value) : List Row :=
  db.selected target.name (Branch.condition schema target branch link keys)
    (orderClause (schema.sortKeys target.name target.name branch.orderBy []))

/-- They are those that satisfy the filter of the branch, and whose link is one of the keys. -/
theorem answering_perm (target : Table) (branch : Branch) (link : String) (keys : List Value) :
    (db.answering schema target branch link keys).Perm
      ((db.satisfying schema target branch.filter).filter fun row =>
        keys.any (row.value link).sqlEq) := by
  refine (selected_perm_filter _ _ _).trans (List.Perm.of_eq ?_)
  rw [Database.satisfying, List.filter_filter]
  refine List.filter_congr fun row _ => ?_
  rw [Branch.condition, passes_andWhere? (keyedBy_scoped (List.mem_singleton_self _))
    (predicate?_scoped List.mem_cons_self (noTables_within _) 0) (List.Subset.refl _),
    passes_keyedBy]

theorem mem_answering {target : Table} {branch : Branch} {link : String} {keys : List Value}
    {row : Row} (h : row ∈ db.answering schema target branch link keys) :
    row ∈ db.rows target.name ∧ keys.any (row.value link).sqlEq = true := by
  obtain ⟨hmem, hkey⟩ := List.mem_filter.mp ((answering_perm target branch link keys).subset h)
  exact ⟨(List.mem_filter.mp hmem).1, hkey⟩

/-- A batch is answered, for each of its owners, with the selected rows that its value leads to. -/
theorem fetch_through (hdb : db.Valid) {relation : Relation} {junction : Junction}
    (hjunction : relation.junction = some junction) {branch : Branch} {target : Table}
    (htarget : schema.table? relation.target = some target) {values : List Value}
    (hvalues : ∀ value ∈ values, value.Valid) :
    let rows := db.answering schema target branch relation.toColumn (junction.targetKeys db values)
    (fetch schema relation branch (distinctKeys values)).Gives db.run fun related =>
      ∀ value ∈ values, value ≠ .null →
        (related.filter (·.owner == value.key)).map (·.record) =
          (relation.reached db rows value).map fun row =>
            (row.only (target.branchColumns branch relation.toColumn)).toRecord := by
  intro rows
  unfold fetch
  split
  · next hempty =>
      refine Load.gives_pure fun value hvalue hnull => ?_
      obtain ⟨key, hkey, -⟩ := exists_distinctKey hvalue hnull
      rw [List.isEmpty_iff.mp hempty] at hkey
      cases hkey
  simp only [hjunction]
  exact fun related hrelated => (fetchLinked_records hdb hjunction hvalues htarget
    (run_relatedStatement target branch relation.toColumn _)
    (fun row hrow => (mem_answering hrow).imp_left (hdb _ row)) related hrelated).2

/-! ### One relation of a batch -/

/-- For every relation of a level is fetched what is fetched for it alone. -/
theorem fetchLevel_each {answer : Select → Except QueryError (List Row)} {table : String}
    {branches : List (String × Branch)} (hproper : branchesProper schema branches table)
    (owners : List Record) :
    (fetchLevel schema table branches owners).Gives answer
      (List.Forall₂ (fun entry related => ∀ relation,
        schema.relation? table entry.1 = some relation →
          (fetch schema relation entry.2 (distinctKeys (owners.map
            (·.scalar relation.fromColumn)))).resultFrom answer = .ok related)
        branches) := by
  refine fetchLevel_fits fun entry hentry => ?_
  obtain ⟨-, relation, hrelation, -⟩ := branchesProper_iff.mp hproper entry hentry
  refine ⟨relation, hrelation, fun related hrelated found hfound => ?_⟩
  rw [hrelation] at hfound
  cases hfound
  exact hrelated

/-- The related records as a branch shows them, their own relations loaded. -/
def BranchOf.finished (branch : Branch) (load : Record → Record) (related : List Related) :
    List Related :=
  related.map fun one => { one with
    record := (load one.record).shown branch.shape.fields (branch.shape.relations.map (·.1)) }

/-- What an owner with the given value is handed of related records. -/
def BranchOf.handedTo (branch : Branch) (relation : Relation) (related : List Related)
    (value : Value) : Node :=
  .ofRelated relation.kind.isToMany (branch.page
    (if value.isNull then [] else (related.filter (·.owner == value.key)).map (·.record)))

theorem attach_eq (name : String) (relation : Relation) (branch : Branch) (related : List Related)
    (record : Record) : attach name relation branch related record =
      Dict.put name (branch.handedTo relation related (record.scalar relation.fromColumn)) record :=
  rfl

/-- Under a relation of a level stands what is handed out for it alone.  What was attached before
does not change the value that the relation starts from. -/
theorem attachLevel_entry (hschema : schema.Consistent) {table : String}
    {branches : List (String × Branch)} (hproper : branchesProper schema branches table)
    (hnodup : (branches.map (·.1)).Nodup) {fetched : List (List Related)}
    (hfetched : Fetched branches fetched) {fits : String × Branch → List Related → Prop}
    (hfits : List.Forall₂ fits branches fetched) {entry : String × Branch}
    (hentry : entry ∈ branches) {relation : Relation}
    (hrelation : schema.relation? table entry.1 = some relation) :
    (attachLevel schema table branches fetched).Gives db.run fun load =>
      ∃ related nested, fits entry related ∧
        (loadBranches schema relation.target entry.2.shape.relations
          (related.map (·.record))).resultFrom db.run = .ok nested ∧
        ∀ record, (load record).lookup entry.1 = some (entry.2.handedTo relation
          (entry.2.finished nested related) (record.scalar relation.fromColumn)) := by
  induction hfits with
  | nil => cases hentry
  | @cons first related rest fetched hfirst _ ih =>
      obtain ⟨name, branch⟩ := first
      obtain ⟨⟨hname, known, hknown, hshape⟩, hrest⟩ := hproper
      obtain ⟨-, hnodupBeneath, hbeneath⟩ := Shape.proper_iff.mp hshape
      obtain ⟨hnew, hnodup⟩ := List.nodup_cons.mp hnodup
      obtain ⟨-, hothers⟩ := List.forall₂_cons.mp hfetched
      obtain ⟨nested, hnested, -, -⟩ := @exists_loadBranches schema db hschema known.target
        branch.shape.relations hbeneath hnodupBeneath (related.map (·.record))
      rw [attachLevel.eq_def]
      simp only [hknown]
      refine Load.Gives.bind (Load.gives_of_result (finishRelated_result hnested)) ?_
      rintro finished rfl
      rcases List.mem_cons.mp hentry with rfl | hlater
      · rw [hknown] at hrelation
        cases hrelation
        refine Load.Gives.bind (attachLevel_gives hrest hnodup hothers) fun more hmore => ?_
        refine Load.gives_pure ⟨related, nested, hfirst, hnested, fun record => ?_⟩
        exact (hmore.others _ _ hnew).trans (Dict.lookup_put_self _ _ _)
      · refine Load.Gives.bind (ih hrest hnodup hothers hlater) fun more hmore => ?_
        obtain ⟨others, load, hfits, hload, hattached⟩ := hmore
        refine Load.gives_pure ⟨others, load, hfits, hload, fun record => ?_⟩
        rw [hattached, attach_eq, Record.scalar_put_of_ne (hschema.fromColumn_ne hrelation hname)]

/-- So it is with what is loaded for a batch. -/
theorem loadBranches_entry (hschema : schema.Consistent) {table : String}
    {branches : List (String × Branch)} (hproper : branchesProper schema branches table)
    (hnodup : (branches.map (·.1)).Nodup) (owners : List Record) {entry : String × Branch}
    (hentry : entry ∈ branches) {relation : Relation}
    (hrelation : schema.relation? table entry.1 = some relation) :
    (loadBranches schema table branches owners).Gives db.run fun load =>
      ∃ related nested, (fetch schema relation entry.2 (distinctKeys
          (owners.map (·.scalar relation.fromColumn)))).resultFrom db.run = .ok related ∧
        (loadBranches schema relation.target entry.2.shape.relations
          (related.map (·.record))).resultFrom db.run = .ok nested ∧
        ∀ record, (load record).lookup entry.1 = some (entry.2.handedTo relation
          (entry.2.finished nested related) (record.scalar relation.fromColumn)) := by
  have hknown : ∀ other ∈ branches, ∃ known, schema.relation? table other.1 = some known := by
    intro other hother
    obtain ⟨-, known, hknown, -⟩ := branchesProper_iff.mp hproper other hother
    exact ⟨known, hknown⟩
  refine Load.Gives.bind (fun fetched hfetched => And.intro
    (fetchLevel_gives hknown owners fetched hfetched)
    (fetchLevel_each hproper owners fetched hfetched)) ?_
  rintro fetched ⟨hcarries, heach⟩ load hload
  obtain ⟨related, nested, hrelated, hrest⟩ :=
    attachLevel_entry hschema hproper hnodup hcarries heach hentry hrelation load hload
  exact ⟨related, nested, hrelated relation hrelation, hrest⟩

/-! ### What owners hold -/

/-- The answer to the target statement of a batch of values: its rows in its order, and the record
that is made of a row, which shows the fields of the branch. -/
structure TargetAnswer (schema : Schema) (db : Database) (relation : Relation) (junction : Junction)
    (target : Table) (branch : Branch) where
  values : List Value
  rows : List Row
  record : Row → Record
  answered : db.run (relatedStatement schema target branch relation.toColumn
    (junction.targetKeys db values)) =
      .ok (rows.map (·.only (target.branchColumns branch relation.toColumn)))
  shows : ∀ row, ∀ field ∈ branch.shape.fields, (record row).scalar field = row.value field

/-- Under a relation an owner with the given value, which is one of the batch, holds what links lead
to: in the order of the answer the records of its rows, each as often as links lead to it; these are
all rows of the target that satisfy the filter and that links lead to; and there are none if no link
starts from the value. -/
structure TargetAnswer.HeldFrom {relation : Relation} {junction : Junction} {target : Table}
    {branch : Branch} (answer : TargetAnswer schema db relation junction target branch)
    (value : Value) (held : Option Node) : Prop where
  asked : value ∈ answer.values
  list : held =
    some (.list ((relation.alongLinks db junction answer.rows value).map answer.record))
  complete : (relation.alongLinks db junction answer.rows value).Perm
    (relation.alongLinks db junction (db.satisfying schema target branch.filter) value)
  unlinked : (value = .null ∨ ∀ link ∈ db.rows junction.table,
    (link.value junction.fromColumn).sqlEq value = false) → held = some (.list [])

section Holding

variable (hschema : schema.Consistent) (hdb : db.Valid) {table : String} {relation : Relation}
  {junction : Junction} (hjunction : relation.junction = some junction)
  (hkeyed : relation.Keyed db table) {target : Table}
  (htarget : schema.table? relation.target = some target)

include hkeyed hjunction

/-- The values of rows of a table, or of none, agree on their keys with those that links start
from. -/
theorem Relation.Keyed.agrees_from {row : Row} (hrow : row ∈ db.rowsOrBlank table) :
    ∀ link ∈ db.rows junction.table,
      (link.value junction.fromColumn).AgreesOnKey (row.value relation.fromColumn) := by
  intro link hlink
  rcases List.mem_cons.mp hrow with rfl | hstored
  · exact fun _ hnull => absurd rfl hnull
  · exact hkeyed.owners junction hjunction row hstored link hlink

include hschema htarget

theorem Relation.Keyed.reached_eq {rows : List Row} (hrows : rows ⊆ db.rows target.name) {row : Row}
    (hrow : row ∈ db.rowsOrBlank table) :
    relation.reached db rows (row.value relation.fromColumn) =
      relation.alongLinks db junction rows (row.value relation.fromColumn) := by
  have hname := hschema.table_name htarget
  exact relation.reached_eq_alongLinks hjunction (hkeyed.agrees_from hjunction hrow)
    fun link hlink other hother =>
      hkeyed.targets junction hjunction link hlink other (hname ▸ hrows hother)

/-- Of what was fetched for a batch, an owner of it is handed the records of the rows that links
lead to, each as often as they do. -/
theorem handedTo_linked (hmany : relation.kind.isToMany = true) {branch : Branch}
    (htake : branch.take = none) (hskip : branch.skip = none) (hdistinct : branch.distinct = none)
    {rows : List Row} (hrows : rows ⊆ db.rows target.name) {columns : List String}
    {related : List Related} {row : Row} (hrow : row ∈ db.rowsOrBlank table)
    (hfetched : row.value relation.fromColumn ≠ .null →
      (related.filter (·.owner == (row.value relation.fromColumn).key)).map (·.record) =
        (relation.reached db rows (row.value relation.fromColumn)).map fun other =>
          (other.only columns).toRecord) (nested : Record → Record) :
    branch.handedTo relation (branch.finished nested related) (row.value relation.fromColumn) =
      .list ((relation.alongLinks db junction rows (row.value relation.fromColumn)).map fun other =>
        (nested (other.only columns).toRecord).shown branch.shape.fields
          (branch.shape.relations.map (·.1))) := by
  rw [BranchOf.handedTo, hmany, page_forwards hdistinct (by simp [htake]), hskip, htake]
  refine congrArg Node.list ?_
  by_cases hnull : row.value relation.fromColumn = .null
  · rw [hnull, relation.alongLinks_null]
    rfl
  · have hown := congrArg (List.map fun record : Record => (nested record).shown branch.shape.fields
      (branch.shape.relations.map (·.1))) (hfetched hnull)
    rw [List.map_map, List.map_map, hkeyed.reached_eq hschema hjunction htarget hrows hrow] at hown
    rw [if_neg (by rw [Value.isNull_eq_false.mpr hnull]; exact Bool.false_ne_true),
      BranchOf.finished, List.filter_map, List.map_map]
    exact hown

include hdb

/-- The selected rows are all rows that satisfy the filter and that links of the batch lead to. -/
theorem alongLinks_answering {branch : Branch} {values : List Value}
    (hvalues : ∀ value ∈ values, value.Valid) {row : Row} (hrow : row ∈ db.rowsOrBlank table)
    (hvalue : row.value relation.fromColumn ∈ values) :
    (relation.alongLinks db junction (db.answering schema target branch relation.toColumn
        (junction.targetKeys db values)) (row.value relation.fromColumn)).Perm
      (relation.alongLinks db junction (db.satisfying schema target branch.filter)
        (row.value relation.fromColumn)) := by
  refine ((answering_perm target branch relation.toColumn _).flatMap_right _).trans
    (List.Perm.of_eq (relation.alongLinks_filter junction _ fun other hother hunselected => ?_))
  have hstored : other ∈ db.rows target.name := (List.mem_filter.mp hother).1
  by_cases hnull : row.value relation.fromColumn = .null
  · rw [hnull, relation.alongLinks_null]
  · rw [← hkeyed.reached_eq hschema hjunction htarget (List.cons_subset.mpr
      ⟨hstored, List.nil_subset _⟩) hrow]
    exact reached_unselected hdb hjunction hvalues hvalue hnull (hdb _ other hstored) hunselected

/-- Loading a relation of many to many for a batch of owners, perhaps along with others, gives each
of them just what links lead to. -/
theorem loadBranches_linked (hmany : relation.kind.isToMany = true)
    {branches : List (String × Branch)}
    (hproper : branchesProper schema branches table) (hnodup : (branches.map (·.1)).Nodup)
    {entry : String × Branch} (hentry : entry ∈ branches)
    (hrelation : schema.relation? table entry.1 = some relation) (htake : entry.2.take = none)
    (hskip : entry.2.skip = none) (hdistinct : entry.2.distinct = none) {owners : List Record}
    (howners : ∀ owner ∈ owners, ∃ row ∈ db.rowsOrBlank table,
      owner.scalar relation.fromColumn = row.value relation.fromColumn) :
    (loadBranches schema table branches owners).Gives db.run fun load =>
      ∃ answer : TargetAnswer schema db relation junction target entry.2, ∀ owner ∈ owners,
        answer.HeldFrom (owner.scalar relation.fromColumn) ((load owner).lookup entry.1) := by
  obtain ⟨-, known, hknown, hshape⟩ := branchesProper_iff.mp hproper entry hentry
  rw [hrelation] at hknown
  cases hknown
  obtain ⟨hfields, hnodupBeneath, hbeneath⟩ := Shape.proper_iff.mp hshape
  let values := owners.map (·.scalar relation.fromColumn)
  have hvalues : ∀ value ∈ values, value.Valid := by
    refine List.forall_mem_map.mpr fun owner howner => ?_
    obtain ⟨row, hrow, hvalue⟩ := howners owner howner
    rw [hvalue]
    rcases List.mem_cons.mp hrow with rfl | hstored
    · trivial
    · exact hdb table row hstored relation.fromColumn
  refine fun load hload => ?_
  obtain ⟨related, nested, hrelated, hnested, hheld⟩ :=
    loadBranches_entry hschema hproper hnodup owners hentry hrelation load hload
  have hfetched := fetch_through hdb hjunction htarget hvalues related hrelated
  have hothers := (loadBranches_gives hbeneath hnodupBeneath _ nested hnested).others
  let columns := target.branchColumns entry.2 relation.toColumn
  let rows := db.answering schema target entry.2 relation.toColumn (junction.targetKeys db values)
  let answer : TargetAnswer schema db relation junction target entry.2 :=
    { values := values
      rows := rows
      record := fun row => (nested (row.only columns).toRecord).shown entry.2.shape.fields
        (entry.2.shape.relations.map (·.1))
      answered := run_relatedStatement target entry.2 relation.toColumn _
      shows := fun row field hfield => by
        rw [Record.scalar_shown _ _ hfield, Record.scalar,
          hothers _ _ (fields_disjoint hfields hbeneath field hfield)]
        exact (row.toRecord_only_mirrors columns).scalar (mem_withHidden.mpr (Or.inl hfield)) }
  refine ⟨answer, fun owner howner => ?_⟩
  obtain ⟨row, hrow, hvalue⟩ := howners owner howner
  have hmem : owner.scalar relation.fromColumn ∈ values := List.mem_map_of_mem howner
  have hlist : (load owner).lookup entry.1 = some (.list ((relation.alongLinks db junction rows
      (owner.scalar relation.fromColumn)).map answer.record)) := by
    rw [hheld owner, hvalue]
    exact congrArg some (handedTo_linked hschema hjunction hkeyed htarget hmany htake hskip
      hdistinct (fun other hother => (mem_answering hother).1) hrow (hvalue ▸ hfetched _ hmem)
      nested)
  refine ⟨hmem, hlist, ?_, fun hunlinked => ?_⟩
  · rw [hvalue] at hmem ⊢
    exact alongLinks_answering hschema hdb hjunction hkeyed htarget hvalues hrow hmem
  · have hnone : relation.alongLinks db junction rows (owner.scalar relation.fromColumn) = [] := by
      rcases hunlinked with hnull | hnone
      · rw [hnull, relation.alongLinks_null]
      · exact relation.alongLinks_unlinked rows hnone
    rw [hlist, hnone]
    rfl

end Holding

/-- **Records through a junction table.**  Take a relation of many to many of a table, over a schema
that can come about and a database of valid values in which the values that the relation links by
are equal just if their keys are, and a branch that includes the relation without distinct columns,
count or offset, with whatever choices, filter and ordering.  Loading it for any batch of owners, alone
or along with other relations, returns where its rows can be sorted, and gives each owner what links
lead to it from its value.  So it is with requests that have this branch, by joins or without: every
record that they return holds what links lead to it from the value of the row that it shows. -/
theorem linked_records_found {schema : Schema} (h : schema.Reachable) {db : Database}
    (hdb : db.Valid) {table : Table} (hknown : schema.table? table.name = some table)
    {relation : Relation}
    (hlisted : table.relation? relation.name = some relation) (hkind : relation.kind = .manyToMany)
    (hkeyed : relation.Keyed db table.name) {branch : Branch} (htake : branch.take = none)
    (hskip : branch.skip = none) (hdistinct : branch.distinct = none) :
    ∃ junction target, relation.junction = some junction ∧
      schema.table? relation.target = some target ∧
      (∀ branches, (relation.name, branch) ∈ branches → branchesProper schema branches table.name →
        (branches.map (·.1)).Nodup → ∀ owners : List Record,
          (∀ owner ∈ owners, ∃ row ∈ db.rowsOrBlank table.name,
            owner.scalar relation.fromColumn = row.value relation.fromColumn) →
          let loading := loadBranches schema table.name branches owners
          loading.ReturnsOn db ∧ ∀ load, (loading.hold Database.source db).result = .ok load →
            ∃ answer : TargetAnswer schema db relation junction target branch, ∀ owner ∈ owners,
              answer.HeldFrom (owner.scalar relation.fromColumn)
                ((load owner).lookup relation.name)) ∧
      ∀ settings args,
        let shape := Engine.shapeFor ⟨schema, settings⟩ table args
        let request := Engine.findMany ⟨schema, settings⟩ table.name args
        (relation.name, branch) ∈ shape.relations →
          request.ReturnsOn db ∧ ∀ records, (request.hold Database.source db).result = .ok records →
            ∃ answer : TargetAnswer schema db relation junction target branch,
              ∀ record ∈ records, ∃ row ∈ db.rowsOrBlank table.name,
                (∀ field ∈ shape.fields, record.scalar field = row.value field) ∧
                  answer.HeldFrom (row.value relation.fromColumn)
                    (record.lookup relation.name) := by
  have hschema : schema.Consistent := h.consistent
  have hresolves := hschema.resolves hknown hlisted
  obtain ⟨junction, hjunction⟩ := Option.isSome_iff_exists.mp (hresolves.junction hkind)
  obtain ⟨target, htarget, -⟩ := hresolves.target
  have hmany : relation.kind.isToMany = true := by
    rw [hkind]
    rfl
  have hrelation : schema.relation? table.name relation.name = some relation := by
    rw [Schema.relation?, hknown]
    exact hlisted
  have hnot : Planner.joinable? schema table.name relation.name = none := by
    rw [Planner.joinable?, hrelation]
    simp [hkind]
  refine ⟨junction, target, hjunction, htarget, ?_, ?_⟩
  · intro branches hentry hproper hnodup owners howners loading
    refine ⟨(loadBranches_asks followUps_wellScoped table.name branches owners).returnsOn db, ?_⟩
    intro load hload
    exact (loadBranches_linked hschema hdb hjunction hkeyed htarget hmany hproper hnodup hentry
      hrelation htake hskip hdistinct howners).of_result hload
  · intro settings args shape request hentry
    have hgives : request.Gives db.run (FoundWith schema db table.name shape.fields
        (relation.name, branch) relation.fromColumn) :=
      @findMany_found db ⟨schema, settings⟩ hschema table hknown args _ hentry relation hrelation hnot
    refine ⟨findMany_returnsOn hschema hknown args db, fun records hresult => ?_⟩
    obtain ⟨branches, owners, load, hmem, hproper, hnodup, hload, howners, hrecords⟩ :=
      hgives.of_result hresult
    obtain ⟨answer, hheld⟩ := loadBranches_linked hschema hdb hjunction hkeyed htarget hmany hproper
      hnodup hmem hrelation htake hskip hdistinct (fun owner howner => by
        obtain ⟨row, hrow, hmirrors⟩ := howners owner howner
        exact ⟨row, hrow, hmirrors.scalar (List.mem_append_right _ List.mem_cons_self)⟩) load hload
    refine ⟨answer, fun record hrecord => ?_⟩
    obtain ⟨owner, howner, hfields, hentryHeld⟩ := hrecords record hrecord
    obtain ⟨row, hrow, hmirrors⟩ := howners owner howner
    refine ⟨row, hrow, fun field hfield => ?_, ?_⟩
    · rw [Record.scalar, hfields field hfield]
      exact hmirrors.scalar (List.mem_append_left _ hfield)
    · rw [hentryHeld, ← hmirrors.scalar (List.mem_append_right _ List.mem_cons_self)]
      exact hheld owner howner

/-- Readers, books, and the loans that link them. -/
def libraryTables : List TableDecl :=
  [{ name := "Reader"
     columns := [{ name := "id", type := .integer, primary := true },
       { name := "card", type := .integer }] },
   { name := "Book", columns := [{ name := "id", type := .integer, primary := true }] },
   { name := "Loan"
     columns := [{ name := "card", type := .integer }, { name := "book", type := .integer }] }]

/-- A reader who has borrowed the second book twice, and one without a card; a loan of a book that
is not there, and one without a card. -/
def libraryRows : Database :=
  [("Reader", [[("card", .integer 10), ("id", .integer 1)], [("card", .null), ("id", .integer 2)]]),
   ("Book", [[("id", .integer 1)], [("id", .integer 2)]]),
   ("Loan", [[("book", .integer 2), ("card", .integer 10)],
     [("book", .integer 2), ("card", .integer 10)], [("book", .integer 9), ("card", .integer 10)],
     [("book", .integer 1), ("card", .null)]])]

/-- The loans as a junction, from cards to books. -/
def loans : Junction := ⟨"Loan", "card", "book"⟩

/-- The books that a reader has borrowed. -/
def borrowed : Relation :=
  Relation.manyToMany "borrowed" "Book" "card" "id" loans

/-- Every reader is found with as many books as loans lead to from the card. -/
theorem linked_records_found_library :
    ∃ next, (Schema.ofDecls libraryTables).define "Reader" borrowed = .ok next ∧
      ∃ records, ((Engine.findMany ⟨next, {}⟩ "Reader" (({} : FindArgs).including "borrowed")).hold
        Database.source libraryRows).result = .ok records ∧
        ∀ record ∈ records, ∃ row ∈ libraryRows.rowsOrBlank "Reader",
          record.scalar "id" = row.value "id" ∧
            ∃ books, record.lookup "borrowed" = some (.list books) ∧ books.length =
              (borrowed.alongLinks libraryRows loans (libraryRows.rows "Book")
                (row.value "card")).length := by
  let next := (Schema.ofDecls libraryTables).adjust "Reader" (·.define borrowed)
  let args := ({} : FindArgs).including "borrowed"
  have hdefine : (Schema.ofDecls libraryTables).define "Reader" borrowed = .ok next := by
    decide +kernel
  have hreachable : next.Reachable := (Schema.Reachable.fresh.scan libraryTables).define hdefine
  have hrelation : next.relation? "Reader" "borrowed" = some borrowed := by decide +kernel
  obtain ⟨table, hknown, hlisted⟩ := Option.bind_eq_some_iff.mp hrelation
  have hname : table.name = "Reader" := hreachable.consistent.table_name hknown
  have hcolumns : next.hasColumn "Reader" "borrowed" = false ∧
      next.hasColumn "Reader" "id" = true := by
    decide +kernel
  rw [Schema.hasColumn, Schema.hasColumn, hknown] at hcolumns
  have hkeyed : borrowed.Keyed libraryRows table.name := by
    rw [hname]
    decide +kernel
  have hdb : libraryRows.Valid := Database.valid_of_entries (by decide +kernel)
  let branch := ({} : RelationArgs).branch next "Book"
  have htake : branch.take = none := rfl
  obtain ⟨junction, target, hjunction, htarget, -, hfind⟩ :=
    linked_records_found hreachable hdb (hname.symm ▸ hknown) hlisted rfl hkeyed htake rfl rfl
  have hshape : Engine.shapeFor ⟨next, {}⟩ table args = _ :=
    shape_asking (hname.symm ▸ hknown) hcolumns.1 hlisted rfl
  cases hjunction
  obtain ⟨hreturns, hfound⟩ := hfind {} args (hshape ▸ List.mem_cons_self)
  rw [hname] at hreturns hfound
  obtain ⟨records, hresult⟩ := hreturns (by decide +kernel)
  obtain ⟨answer, hheld⟩ := hfound records hresult
  refine ⟨next, hdefine, records, hresult, fun record hrecord => ?_⟩
  obtain ⟨row, hrow, hfields, hlinked⟩ := hheld record hrecord
  refine ⟨row, hrow, hfields "id" (hshape ▸ mem_columnNames.mpr hcolumns.2), _, hlinked.list, ?_⟩
  have hbooks : libraryRows.satisfying next target branch.filter = libraryRows.rows "Book" :=
    (satisfying_none target).trans (congrArg _ (hreachable.consistent.table_name htarget))
  rw [List.length_map, hlinked.complete.length_eq, hbooks]
  rfl

end NestedQuery
