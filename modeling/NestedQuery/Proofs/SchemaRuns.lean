import NestedQuery.Proofs.Reachability

/-!
# Runs of schema calls

A schema is built up by calls: scanning a catalog, defining one relation,
defining several in turn.  A call may fail, and any call may come before the
first scan.  A definition is accepted exactly if its relation leads somewhere,
so whatever the calls, every relation of the schema does; a call that fails
leaves the schema as it was, and of several definitions those before the first
failing one stay.
-/

namespace NestedQuery

/-- A call that builds a schema up. -/
inductive SchemaCall where
  | scan (decls : List TableDecl)
  | define (table : String) (relation : Relation)
  | defineAll (table : String) (relations : List Relation)

namespace Schema

variable {schema : Schema}

/-- The schema after a call, and the error of a call that fails. -/
def call (schema : Schema) : SchemaCall → Schema × Option QueryError
  | .scan decls => (schema.scan decls, none)
  | .define table relation =>
    match schema.define table relation with
    | .ok next => (next, none)
    | .error error => (schema, some error)
  | .defineAll table relations => schema.defineAll table relations

/-- The schema after calls in turn, whether or not some of them fail. -/
def after (schema : Schema) : List SchemaCall → Schema
  | [] => schema
  | call :: rest => (schema.call call).1.after rest

/-! ### One call -/

/-- A call on a schema that can come about gives one. -/
theorem Reachable.call (h : schema.Reachable) (call : SchemaCall) :
    (schema.call call).1.Reachable := by
  cases call with
  | scan decls => exact h.scan decls
  | define table relation =>
      cases hdefine : schema.define table relation with
      | ok next => simpa [Schema.call, hdefine] using h.define hdefine
      | error error => simpa [Schema.call, hdefine] using h
  | defineAll table relations => exact h.defineAll table relations

/-- What leads somewhere passes the check of a definition. -/
theorem Resolves.fault?_none {owner target : Table} {relation : Relation}
    (h : schema.Resolves owner relation) (htarget : schema.table? relation.target = some target)
    (name : String) : schema.fault? owner target name relation = none := by
  obtain ⟨known, hknown, hto⟩ := h.target
  cases htarget.symm.trans hknown
  simp only [fault?, h.fromColumn, hto, Bool.not_true, Bool.false_eq_true, if_false]
  cases hjunction : relation.junction with
  | none =>
      have hkind : relation.kind ≠ .manyToMany := by
        intro heq
        simpa [hjunction] using h.junction heq
      simp [hkind]
  | some junction =>
      cases htable : schema.table? junction.table with
      | none => simp [htable]
      | some table =>
          obtain ⟨hfrom, hto⟩ := h.junctionColumns junction hjunction table htable
          simp [htable, hfrom, hto]

/-- A relation that leads somewhere can be defined on its table. -/
theorem Resolves.define_ok {owner : Table} {relation : Relation}
    (h : schema.Resolves owner relation) {table : String}
    (howner : schema.table? table = some owner) :
    schema.define table relation = .ok (schema.adjust table (·.define relation)) := by
  obtain ⟨target, htarget, -⟩ := h.target
  simp only [define, howner, htarget, h.fault?_none htarget]
  rfl

/-- A definition is accepted exactly if its table is known and its relation leads somewhere. -/
theorem define_accepted_iff (schema : Schema) (table : String) (relation : Relation) :
    (schema.call (.define table relation)).2 = none ↔
      ∃ owner, schema.table? table = some owner ∧ schema.Resolves owner relation := by
  constructor
  · intro haccepted
    cases hdefine : schema.define table relation with
    | error error => simp [call, hdefine] at haccepted
    | ok next =>
        obtain ⟨-, hresolves⟩ := Schema.define_ok hdefine
        cases htable : schema.table? table with
        | none => simp [define, htable, throw, throwThe, MonadExceptOf.throw] at hdefine
        | some owner => exact ⟨owner, rfl, hresolves owner htable⟩
  · rintro ⟨owner, howner, hresolves⟩
    simp [call, hresolves.define_ok howner]

/-- Several definitions fail where the first failing one does, and those before it stay. -/
theorem defineAll_failed {table : String} {relations : List Relation} {reached : Schema}
    {error : QueryError} (h : schema.defineAll table relations = (reached, some error)) :
    ∃ before failing rest, relations = before ++ failing :: rest ∧
      schema.defineAll table before = (reached, none) ∧
      reached.define table failing = .error error := by
  induction relations generalizing schema with
  | nil => cases h
  | cons relation others ih =>
      rw [defineAll] at h
      split at h
      · next next hdefine =>
          obtain ⟨before, failing, rest, rfl, hbefore, hfailing⟩ := ih h
          refine ⟨relation :: before, failing, rest, rfl, ?_, hfailing⟩
          rw [defineAll, hdefine]
          exact hbefore
      · next found hdefine =>
          cases h
          exact ⟨[], relation, others, rfl, rfl, hdefine⟩

/-! ### What is listed -/

/-- Tables are listed in the order of their names, each once, and so are the relations of each. -/
structure Listed (schema : Schema) : Prop where
  tables : Dict.Sorted schema.tables
  relations : ∀ {name table}, schema.table? name = some table → Dict.Sorted table.relations

/-- A table is adjusted in its place, so the schema stays listed. -/
theorem Listed.adjust (h : schema.Listed) (owner : String) {change : Table → Table}
    (hchange : ∀ table, Dict.Sorted table.relations → Dict.Sorted (change table).relations) :
    (schema.adjust owner change).Listed := by
  refine ⟨h.tables.adjust owner change, ?_⟩
  intro name table htable
  rw [table?_adjust] at htable
  obtain ⟨before, hbefore, rfl⟩ := Option.map_eq_some_iff.mp htable
  split
  · exact hchange before (h.relations hbefore)
  · exact h.relations hbefore

/-- Defining a relation keeps the relations of a table sorted by name. -/
theorem sorted_define (table : Table) (relation : Relation) (h : Dict.Sorted table.relations) :
    Dict.Sorted (table.define relation).relations :=
  h.put relation.name relation

/-- So does defining one under a name that is free. -/
theorem sorted_defineIfFree (table : Table) (relation : Relation)
    (h : Dict.Sorted table.relations) : Dict.Sorted (table.defineIfFree relation).relations := by
  rcases defineIfFree_cases table relation with heq | heq <;> rw [heq]
  · exact h
  · exact sorted_define table relation h

/-- Inferring relations from a foreign key keeps the schema listed. -/
theorem Listed.infer (h : schema.Listed) (owner : String) (key : ForeignKey) :
    (schema.infer owner key).Listed := by
  unfold Schema.infer
  split
  · exact h
  · next made _ =>
      apply (h.adjust owner fun table => sorted_defineIfFree table made.forward).adjust
      exact fun table => sorted_defineIfFree table made.backward

/-- So does inferring them from all foreign keys of a table. -/
theorem Listed.inferAll (h : schema.Listed) (decl : TableDecl) :
    (schema.inferAll decl).Listed := by
  unfold Schema.inferAll
  split
  · induction decl.allKeys generalizing schema with
    | nil => exact h
    | cons key rest ih => exact ih (h.infer decl.name key)
  · exact h

/-- Registering a table keeps the schema listed. -/
theorem Listed.register (h : schema.Listed) (decl : TableDecl) : (schema.register decl).Listed := by
  unfold Schema.register
  split
  · refine ⟨h.tables.put decl.name _, ?_⟩
    intro name table htable
    rw [table?, Dict.lookup_put] at htable
    split at htable
    · cases htable
      exact List.Pairwise.nil
    · exact h.relations htable
  · exact h

/-- So does registering tables one after the other. -/
theorem Listed.registerAll (h : schema.Listed) (decls : List TableDecl) :
    (decls.foldl Schema.register schema).Listed := by
  induction decls generalizing schema with
  | nil => exact h
  | cons decl rest ih => exact ih (h.register decl)

/-- So does inferring relations from tables one after the other. -/
theorem Listed.inferEach (h : schema.Listed) (decls : List TableDecl) :
    (decls.foldl Schema.inferAll schema).Listed := by
  induction decls generalizing schema with
  | nil => exact h
  | cons decl rest ih => exact ih (h.inferAll decl)

/-- So does scanning a whole list of tables. -/
theorem Listed.scan (h : schema.Listed) (decls : List TableDecl) : (schema.scan decls).Listed := by
  unfold Schema.scan
  split
  · exact h
  · have hlisted := (h.registerAll decls).inferEach decls
    exact ⟨hlisted.tables, fun htable => hlisted.relations htable⟩

/-- A schema that can come about lists its tables and relations in order. -/
theorem Reachable.listed (h : schema.Reachable) : schema.Listed := by
  induction h with
  | fresh => exact ⟨List.Pairwise.nil, fun htable => by cases htable⟩
  | scan h decls ih => exact ih.scan decls
  | define h hdefine ih =>
      obtain ⟨rfl, -⟩ := define_ok hdefine
      exact ih.adjust _ fun table => sorted_define table _

/-- A relation that a schema lists for a table is found there under its own name. -/
theorem Reachable.found_of_listed (h : schema.Reachable) {table : String} {relation : Relation}
    (hlisted : relation ∈ schema.relations table) :
    schema.relation? table relation.name = some relation := by
  unfold Schema.relations at hlisted
  split at hlisted
  · next known hknown =>
      obtain ⟨⟨key, found⟩, hmem, rfl⟩ := List.mem_map.mp hlisted
      have hfound : known.relation? key = some found :=
        Dict.lookup_of_mem (h.listed.relations hknown).names_nodup hmem
      have hname : found.name = key := h.consistent.relation_name hknown hfound
      simp only [Schema.relation?, hknown, Option.bind_some, hname, hfound]
  · cases hlisted

/-- A relation that is found is listed. -/
theorem mem_relations {table name : String} {relation : Relation}
    (h : schema.relation? table name = some relation) : relation ∈ schema.relations table := by
  obtain ⟨known, hknown, hfound⟩ := Option.bind_eq_some_iff.mp h
  rw [Schema.relations, hknown]
  exact List.mem_map.mpr ⟨(name, relation), Dict.mem_of_lookup hfound, rfl⟩

/-! ### Runs -/

/-- Calls in turn lead to a schema that can come about. -/
theorem Reachable.after (h : schema.Reachable) (calls : List SchemaCall) :
    (schema.after calls).Reachable := by
  induction calls generalizing schema with
  | nil => exact h
  | cons call rest ih => exact ih (h.call call)

/-- **Schemas stay consistent.**  After any calls on a fresh schema, failing ones and calls before
the first scan included, tables and relations are known by their own names, and every relation
leads from a column of its table to a column of a known table, with a junction that fits.  From
there on a definition is accepted exactly if its relation leads somewhere; one that fails changes
nothing; and several definitions of which one fails leave the schema as those before it do. -/
theorem calls_keep_consistent (calls : List SchemaCall) :
    let schema := Schema.after {} calls
    schema.Consistent ∧
      (∀ table, ∀ relation ∈ schema.relations table,
        schema.relation? table relation.name = some relation) ∧
      (∀ table relation, (schema.call (.define table relation)).2 = none ↔
        ∃ owner, schema.table? table = some owner ∧ schema.Resolves owner relation) ∧
      (∀ table relation error, (schema.call (.define table relation)).2 = some error →
        (schema.call (.define table relation)).1 = schema) ∧
      ∀ table relations reached error,
        schema.call (.defineAll table relations) = (reached, some error) →
          ∃ before failing rest, relations = before ++ failing :: rest ∧
            schema.call (.defineAll table before) = (reached, none) ∧
            (reached.call (.define table failing)).2 = some error := by
  intro schema
  have hreachable : schema.Reachable := Reachable.fresh.after calls
  refine ⟨hreachable.consistent, fun table relation => hreachable.found_of_listed,
    schema.define_accepted_iff, ?_, ?_⟩
  · intro table relation error herror
    cases hdefine : schema.define table relation <;> simp_all [Schema.call]
  · intro table relations reached error hfailed
    obtain ⟨before, failing, rest, hsplit, hbefore, hdefine⟩ := defineAll_failed hfailed
    refine ⟨before, failing, rest, hsplit, hbefore, ?_⟩
    simp [Schema.call, hdefine]

end Schema

end NestedQuery
