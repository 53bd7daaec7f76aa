import NestedQuery.Proofs.Dictionary
import NestedQuery.Schema.Inference
import NestedQuery.Statement.Evaluation

/-!
# Schemas that can come about

A schema starts empty, is scanned from catalogs and has relations defined on it
by hand.  Whatever the order of these steps, every table is known by its own
name, every relation is listed under its own name, leads from a column of its
table to a column of a known table, and has a junction when it relates many to
many.  Each step keeps this because it changes nothing but the relations of one
table, and adds only what it has checked.
-/

namespace NestedQuery

/-! ### Relations that lead somewhere -/

/-- The relation leads from a column of `owner` to a column of a known table, and what it says of
a junction fits. -/
structure Schema.Resolves (schema : Schema) (owner : Table) (relation : Relation) : Prop where
  fromColumn : owner.hasColumn relation.fromColumn
  target : ∃ target, schema.table? relation.target = some target ∧
    target.hasColumn relation.toColumn
  junction : relation.kind = .manyToMany → relation.junction.isSome
  junctionColumns : ∀ junction, relation.junction = some junction →
    ∀ table, schema.table? junction.table = some table →
      table.hasColumn junction.fromColumn ∧ table.hasColumn junction.toColumn

/-- Tables are known by their own names, and so are relations, each of which leads somewhere. -/
structure Schema.Consistent (schema : Schema) : Prop where
  table_name : ∀ {name table}, schema.table? name = some table → table.name = name
  relation_name : ∀ {name table key relation}, schema.table? name = some table →
    table.relation? key = some relation → relation.name = key
  resolves : ∀ {name table key relation}, schema.table? name = some table →
    table.relation? key = some relation → schema.Resolves table relation

/-- The ways in which a schema comes about. -/
inductive Schema.Reachable : Schema → Prop
  | fresh : Reachable {}
  | scan {schema : Schema} (h : Reachable schema) (decls : List TableDecl) :
      Reachable (schema.scan decls)
  | define {schema next : Schema} {table : String} {relation : Relation} (h : Reachable schema)
      (hdefine : schema.define table relation = .ok next) : Reachable next

namespace Schema

variable {schema : Schema}

/-! ### Changing the relations of one table -/

@[simp]
theorem hasColumn_define (table : Table) (relation : Relation) (column : String) :
    (table.define relation).hasColumn column = table.hasColumn column := rfl

/-- Under a name a table has the relation defined last. -/
theorem relation?_define (table : Table) (relation : Relation) (key : String) :
    (table.define relation).relation? key =
      if key = relation.name then some relation else table.relation? key :=
  Dict.lookup_put _ _ _ _

/-- Changing a table changes what is known under its name alone. -/
theorem table?_adjust (schema : Schema) (owner name : String) (change : Table → Table) :
    (schema.adjust owner change).table? name =
      (schema.table? name).map fun table => if name = owner then change table else table :=
  Dict.lookup_adjust _ _ _ _

/-- What a relation leads to depends on the columns of tables only. -/
theorem Resolves.adjust {owner changed : Table} {relation : Relation}
    (h : schema.Resolves owner relation) (name : String) {change : Table → Table}
    (hchange : ∀ table column, (change table).hasColumn column = table.hasColumn column)
    (hchanged : ∀ column, changed.hasColumn column = owner.hasColumn column) :
    (schema.adjust name change).Resolves changed relation := by
  refine ⟨by rw [hchanged]; exact h.fromColumn, ?_, h.junction, ?_⟩
  · obtain ⟨target, htarget, hcolumn⟩ := h.target
    refine ⟨_, by rw [table?_adjust, htarget]; rfl, ?_⟩
    split
    · rw [hchange]; exact hcolumn
    · exact hcolumn
  · intro junction hjunction table htable
    rw [table?_adjust] at htable
    obtain ⟨known, hknown, rfl⟩ := Option.map_eq_some_iff.mp htable
    have hcolumns := h.junctionColumns junction hjunction known hknown
    split
    · rw [hchange, hchange]; exact hcolumns
    · exact hcolumns

/-- Defining a relation that leads somewhere, or nothing, keeps a schema consistent. -/
theorem Consistent.adjust (h : schema.Consistent) {owner : String} {relation : Relation}
    {change : Table → Table}
    (hchange : ∀ table, change table = table ∨ change table = table.define relation)
    (hresolves : ∀ table, schema.table? owner = some table → schema.Resolves table relation) :
    (schema.adjust owner change).Consistent := by
  have hcolumns : ∀ table column, (change table).hasColumn column = table.hasColumn column := by
    intro table column
    rcases hchange table with heq | heq <;> rw [heq]
    exact hasColumn_define table relation column
  have known : ∀ {name table}, (schema.adjust owner change).table? name = some table →
      ∃ before, schema.table? name = some before ∧
        (table = before ∨ name = owner ∧ table = before.define relation) := by
    intro name table htable
    rw [table?_adjust] at htable
    obtain ⟨before, hbefore, rfl⟩ := Option.map_eq_some_iff.mp htable
    refine ⟨before, hbefore, ?_⟩
    split
    · next heq => exact (hchange before).imp id fun hdefine => ⟨heq, hdefine⟩
    · exact Or.inl rfl
  refine ⟨?_, ?_, ?_⟩
  · intro name table htable
    obtain ⟨before, hbefore, rfl | ⟨-, rfl⟩⟩ := known htable
    · exact h.table_name hbefore
    · exact (show before.name = name from h.table_name hbefore)
  · intro name table key found htable hfound
    obtain ⟨before, hbefore, rfl | ⟨-, rfl⟩⟩ := known htable
    · exact h.relation_name hbefore hfound
    · rw [relation?_define] at hfound
      split at hfound
      · next heq =>
          cases hfound
          exact heq.symm
      · exact h.relation_name hbefore hfound
  · intro name table key found htable hfound
    obtain ⟨before, hbefore, rfl | ⟨rfl, rfl⟩⟩ := known htable
    · exact (h.resolves hbefore hfound).adjust owner hcolumns fun _ => rfl
    · rw [relation?_define] at hfound
      split at hfound
      · cases hfound
        exact (hresolves before hbefore).adjust name hcolumns fun _ => rfl
      · exact (h.resolves hbefore hfound).adjust name hcolumns fun _ => rfl

/-! ### Defining by hand -/

/-- What is accepted by the check of a definition leads somewhere. -/
theorem resolves_of_fault?_none {owner target : Table} {name : String} {relation : Relation}
    (htarget : schema.table? relation.target = some target)
    (h : schema.fault? owner target name relation = none) : schema.Resolves owner relation := by
  unfold fault? at h
  split at h
  · cases h
  · next hfrom =>
      split at h
      · cases h
      · next hto =>
          refine ⟨by simpa using hfrom, ⟨target, htarget, by simpa using hto⟩, ?_, ?_⟩
          · intro hkind
            cases hjunction : relation.junction with
            | none => simp [hjunction, hkind] at h
            | some junction => rfl
          · intro junction hjunction table htable
            simp only [hjunction, htable, Option.map_eq_none_iff, List.find?_eq_none] at h
            exact ⟨by simpa using h junction.fromColumn (by simp),
              by simpa using h junction.toColumn (by simp)⟩

/-- A definition that succeeds changes the relations of one known table, by a relation that leads
somewhere. -/
theorem define_ok {next : Schema} {table : String} {relation : Relation}
    (h : schema.define table relation = .ok next) :
    next = schema.adjust table (·.define relation) ∧
      ∀ owner, schema.table? table = some owner → schema.Resolves owner relation := by
  unfold define at h
  split at h
  · cases h
  · cases h
  · next owner target howner htarget =>
      split at h
      · cases h
      · next hfault =>
          cases h
          refine ⟨rfl, ?_⟩
          intro known hknown
          cases howner.symm.trans hknown
          exact resolves_of_fault?_none htarget hfault

/-! ### Scanning -/

/-- A relation between columns of known tables that needs no junction leads somewhere. -/
theorem resolves_direct {owner target : Table} {relation : Relation}
    (hfrom : owner.hasColumn relation.fromColumn)
    (htarget : schema.table? relation.target = some target)
    (hto : target.hasColumn relation.toColumn) (hkind : relation.kind ≠ .manyToMany)
    (hjunction : relation.junction = none) : schema.Resolves owner relation := by
  refine ⟨hfrom, ⟨target, htarget, hto⟩, fun heq => absurd heq hkind, ?_⟩
  intro junction hsome
  rw [hjunction] at hsome
  cases hsome

/-- What a foreign key makes leads somewhere, forward on the owner and backward on the target. -/
theorem keyRelations?_resolves {owner : String} {key : ForeignKey} {made : KeyRelations}
    (h : schema.keyRelations? owner key = some made) :
    (∀ table, schema.table? owner = some table → schema.Resolves table made.forward) ∧
      (∀ table, schema.table? key.table = some table → schema.Resolves table made.backward) := by
  unfold keyRelations? at h
  split at h
  · next columnName foreignName _ =>
      obtain ⟨ownerTable, howner, h⟩ := Option.bind_eq_some_iff.mp h
      obtain ⟨column, hcolumn, h⟩ := Option.bind_eq_some_iff.mp h
      obtain ⟨target, htarget, h⟩ := Option.bind_eq_some_iff.mp h
      have hname : (column.name == columnName) = true :=
        List.find?_some (p := fun known : Column => known.name == columnName) hcolumn
      have hown : ownerTable.hasColumn columnName :=
        List.any_eq_true.mpr ⟨column, List.mem_of_find?_eq_some hcolumn, hname⟩
      by_cases hforeign : target.hasColumn foreignName
      · generalize hsingle : (column.unique || ownerTable.key == [columnName]) = single at h
        simp only [hforeign, Bool.not_true, Bool.false_eq_true, if_false] at h
        cases h
        constructor
        · intro table htable
          cases howner.symm.trans htable
          exact resolves_direct hown htarget hforeign (by cases single <;> simp) rfl
        · intro table htable
          cases htarget.symm.trans htable
          cases single
          · exact resolves_direct hforeign howner hown (by simp [Relation.oneToMany]) rfl
          · exact resolves_direct hforeign howner hown (by simp [Relation.oneToOne]) rfl
      · simp [hforeign] at h
  · cases h

/-- A relation is defined under a free name, or nothing happens. -/
theorem defineIfFree_cases (table : Table) (relation : Relation) :
    table.defineIfFree relation = table ∨ table.defineIfFree relation = table.define relation := by
  unfold Table.defineIfFree
  split
  · exact Or.inl rfl
  · exact Or.inr rfl

/-- The relations of a foreign key keep a schema consistent. -/
theorem Consistent.infer (h : schema.Consistent) (owner : String) (key : ForeignKey) :
    (schema.infer owner key).Consistent := by
  unfold Schema.infer
  cases hmade : schema.keyRelations? owner key with
  | none => exact h
  | some made =>
      obtain ⟨hforward, hbackward⟩ := keyRelations?_resolves hmade
      have hfirst := h.adjust (defineIfFree_cases · made.forward) hforward
      refine hfirst.adjust (defineIfFree_cases · made.backward) ?_
      intro table htable
      rw [table?_adjust] at htable
      obtain ⟨before, hbefore, rfl⟩ := Option.map_eq_some_iff.mp htable
      have hcolumns : ∀ known column,
          (Table.defineIfFree known made.forward).hasColumn column = known.hasColumn column := by
        intro known column
        rcases defineIfFree_cases known made.forward with heq | heq <;> rw [heq]
        exact hasColumn_define known made.forward column
      refine (hbackward before hbefore).adjust owner hcolumns ?_
      intro column
      split
      · exact hcolumns before column
      · rfl

/-- The relations of all foreign keys of a declaration keep a schema consistent. -/
theorem Consistent.inferAll (h : schema.Consistent) (decl : TableDecl) :
    (schema.inferAll decl).Consistent := by
  unfold Schema.inferAll
  split
  · generalize decl.allKeys = keys
    induction keys generalizing schema with
    | nil => exact h
    | cons key rest ih => exact ih (h.infer decl.name key)
  · exact h

/-- Every table is known by its own name and has no relations yet. -/
def Bare (schema : Schema) : Prop :=
  ∀ name table, schema.table? name = some table → table.name = name ∧ table.relations = []

/-- Registering a table adds one without relations. -/
theorem Bare.register (h : schema.Bare) (decl : TableDecl) : (schema.register decl).Bare := by
  unfold Schema.register
  split
  · intro name table htable
    rw [table?, Dict.lookup_put] at htable
    split at htable
    · next heq =>
        cases htable
        exact ⟨heq.symm, rfl⟩
    · exact h name table htable
  · exact h

/-- A schema without relations is consistent. -/
theorem Bare.consistent (h : schema.Bare) : schema.Consistent := by
  have hnone : ∀ {name table key relation}, schema.table? name = some table →
      table.relation? key = some relation → False := by
    intro name table key relation htable hrelation
    rw [Table.relation?, (h name table htable).2] at hrelation
    cases hrelation
  exact ⟨fun htable => (h _ _ htable).1, fun htable hrelation => (hnone htable hrelation).elim,
    fun htable hrelation => (hnone htable hrelation).elim⟩

/-- Scanning a schema without tables makes a consistent one. -/
theorem consistent_scan (hempty : schema.tables = []) (decls : List TableDecl) :
    (schema.scan decls).Consistent := by
  have hbare : schema.Bare := by
    intro name table htable
    rw [table?, hempty] at htable
    cases htable
  have hregistered : (decls.foldl register schema).Bare := by
    clear hempty
    induction decls generalizing schema with
    | nil => exact hbare
    | cons decl rest ih => exact ih (hbare.register decl)
  have hinferred : (decls.foldl inferAll (decls.foldl register schema)).Consistent := by
    generalize decls.foldl register schema = registered at hregistered
    have hconsistent := hregistered.consistent
    clear hregistered
    induction decls generalizing registered with
    | nil => exact hconsistent
    | cons decl rest ih => exact ih _ (hconsistent.inferAll decl)
  unfold scan
  split
  · exact hbare.consistent
  · exact ⟨fun htable => hinferred.table_name htable,
      fun htable hrelation => hinferred.relation_name htable hrelation,
      fun htable hrelation =>
        let found := hinferred.resolves htable hrelation
        ⟨found.fromColumn, found.target, found.junction, found.junctionColumns⟩⟩

/-! ### Every way -/

/-- A schema that can come about is consistent, and without tables until it is scanned. -/
theorem Reachable.consistent_and_empty (h : schema.Reachable) :
    schema.Consistent ∧ (schema.isScanned = false → schema.tables = []) := by
  induction h with
  | fresh =>
      refine ⟨Bare.consistent ?_, fun _ => rfl⟩
      intro name table htable
      cases htable
  | @scan schema h decls ih =>
      cases hscanned : schema.isScanned with
      | false =>
          refine ⟨consistent_scan (ih.2 hscanned) decls, ?_⟩
          intro hafter
          simp [Schema.scan, hscanned] at hafter
      | true =>
          have hsame : schema.scan decls = schema := by simp [Schema.scan, hscanned]
          rw [hsame]
          exact ih
  | @define schema next table relation h hdefine ih =>
      obtain ⟨rfl, hresolves⟩ := define_ok hdefine
      refine ⟨ih.1.adjust (fun _ => Or.inr rfl) hresolves, ?_⟩
      intro hscanned
      have htables := ih.2 hscanned
      simp [Schema.adjust, htables, Dict.adjust]

/-- A schema that can come about is consistent. -/
theorem Reachable.consistent (h : schema.Reachable) : schema.Consistent :=
  h.consistent_and_empty.1

/-- A relation leads from a column of its table. -/
theorem Consistent.fromColumn_isColumn (h : schema.Consistent) {table name : String}
    {relation : Relation} (hrelation : schema.relation? table name = some relation) :
    schema.hasColumn table relation.fromColumn = true := by
  rw [relation?] at hrelation
  obtain ⟨known, hknown, hlisted⟩ := Option.bind_eq_some_iff.mp hrelation
  rw [hasColumn, hknown]
  exact (h.resolves hknown hlisted).fromColumn

/-- So it is not called like what is no column. -/
theorem Consistent.fromColumn_ne (h : schema.Consistent) {table name other : String}
    {relation : Relation} (hrelation : schema.relation? table name = some relation)
    (hother : schema.hasColumn table other = false) : relation.fromColumn ≠ other := by
  rintro rfl
  rw [h.fromColumn_isColumn hrelation] at hother
  cases hother

/-- The target of a relation is known, by its own name. -/
theorem Consistent.target_known (h : schema.Consistent) {table name : String}
    {relation : Relation} (hrelation : schema.relation? table name = some relation) :
    ∃ target, schema.table? relation.target = some target ∧ target.name = relation.target := by
  rw [relation?] at hrelation
  obtain ⟨known, hknown, hlisted⟩ := Option.bind_eq_some_iff.mp hrelation
  obtain ⟨target, htarget, -⟩ := (h.resolves hknown hlisted).target
  exact ⟨target, htarget, h.table_name htarget⟩

/-- Defining several relations is a way too, whether or not one of them fails. -/
theorem Reachable.defineAll (h : schema.Reachable) (table : String) (relations : List Relation) :
    (schema.defineAll table relations).1.Reachable := by
  induction relations generalizing schema with
  | nil => exact h
  | cons relation rest ih =>
      rw [Schema.defineAll]
      split
      · next next hdefine => exact ih (h.define hdefine)
      · exact h

end Schema

/-! ### A blog -/

/-- The tables of a blog: authors, and posts that refer to them. -/
def blogTables : List TableDecl :=
  [{ name := "Author"
     columns := [{ name := "id", type := .integer, primary := true }, { name := "name" }] },
   { name := "Post"
     columns := [{ name := "id", type := .integer, primary := true }, { name := "title" },
       { name := "authorId", type := .integer, references := some ⟨"Author", "id"⟩ }] }]

/-- Some authors and posts. -/
def blogRows : Database :=
  [("Author", [[("id", .integer 1), ("name", .text "Ann")],
      [("id", .integer 2), ("name", .text "Bob")]]),
   ("Post", [[("authorId", .integer 1), ("id", .integer 1), ("title", .text "Joins")],
      [("authorId", .integer 1), ("id", .integer 2), ("title", .text "Keys")]])]

theorem reachable_blog : (Schema.ofDecls blogTables).Reachable :=
  Schema.Reachable.fresh.scan blogTables

/-- The authors are found under their name. -/
theorem exists_blog_author : ∃ known,
    (Schema.ofDecls blogTables).table? "Author" = some known ∧ known.name = "Author" := by
  obtain ⟨known, hknown⟩ := Option.isSome_iff_exists.mp
    (show ((Schema.ofDecls blogTables).table? "Author").isSome by decide +kernel)
  exact ⟨known, hknown, reachable_blog.consistent.table_name hknown⟩

end NestedQuery
