import NestedQuery.Proofs.JoinedChoices
import NestedQuery.Proofs.RelatedCounts
import NestedQuery.Proofs.RelationPages

/-!
# Accepted relations

A definition is accepted whatever its kind, with a junction table or without one.
Joins and follow-up statements then read it apart: whatever does not relate many
to many is joined by its two columns alone, while a follow-up statement goes
through a junction wherever there is one.  So a relation without a junction
relates the same rows either way, and one with a junction that is not of many to
many means two things.
-/

namespace NestedQuery

variable {schema : Schema} {db : Database}

/-- The request for all records of a table with one relation, by the given strategy. -/
def askingFor (name : String) (strategy : LoadStrategy) : FindArgs :=
  { ({} : FindArgs).including name with strategy := some strategy }

/-- The record of a row, which holds the records of the rows related to it. -/
def Relation.holder (relation : Relation) (owner target : Table) (related : Row → List Row)
    (row : Row) : Record :=
  Dict.put relation.name (.ofRelated relation.kind.isToMany
    ((related row).map (·.recordOf target.columnNames))) (row.recordOf owner.columnNames)

/-- A branch that shows all columns of its table, and that no argument changes. -/
def wholeBranch (target : Table) : Branch :=
  { shape := { fields := target.columnNames } }

theorem wholeBranch_page (target : Table) (records : List Record) :
    (wholeBranch target).page records = records := rfl

/-- The joined rows of a base row pair it with the rows that the columns of the relation link it to,
whether or not there is a junction. -/
theorem Planner.block_direct {planner : Planner} {join : PlannedJoin}
    (hjoins : planner.joins = [join]) (hkind : join.kind = .left) {table : String}
    (hsource : join.source = table) (hlabel : join.label ≠ table) (row : Row) :
    planner.block db table row =
      (orNone (join.relation.direct.linked db row)).map (row.beside table join.label) := by
  let direct : PlannedJoin := { join with relation := join.relation.direct }
  have hsame : planner.block db table row =
      Planner.block ⟨planner.count, [direct]⟩ db table row := by
    rw [Planner.block, Planner.block, hjoins]
    rfl
  rw [hsame]
  have hone : (⟨planner.count, [direct]⟩ : Planner).joins = [direct] := rfl
  exact Planner.block_one hone hkind rfl hsource hlabel row

/-- A layout that joins one relation repeats base rows if the relation is to many. -/
theorem Layout.JoinsOnly.fansOut {layout : Layout} {joined : JoinedBranch}
    (h : layout.JoinsOnly joined) : layout.fansOut = joined.isToMany := by
  obtain ⟨hrelations, -, hbeneath, -⟩ := h
  obtain ⟨_, _, _, _, _, _, _, _, _, _⟩ := layout
  obtain ⟨name, isToMany, branch, ⟨_, _, _, _, _, _, _, _, _, _⟩⟩ := joined
  cases hrelations
  cases hbeneath
  simp [Layout.fansOut, branchesFanOut]

/-- What it takes to read a relation off the records of a request that includes it: it is a relation
of the table, not of many to many and not named like a column; the rows of both tables are told
apart by their primary keys; and the table is not named like the join. -/
structure ReadOff (schema : Schema) (db : Database) (table target : Table) (relation : Relation) :
    Prop where
  known : schema.table? table.name = some table
  listed : table.relation? relation.name = some relation
  leads : schema.table? relation.target = some target
  kind : relation.kind ≠ .manyToMany
  column : table.hasColumn relation.name = false
  apart : ApartBy (schema.usableKey table.name) (db.rows table.name)
  related : ApartBy (schema.usableKey relation.target) (db.rows relation.target)
  label : relation.name ++ "_1" ≠ table.name

section Requests

variable (settings : Settings) {table target : Table} {relation : Relation}
  (h : ReadOff schema db table target relation)

include h

theorem ReadOff.relation_eq : schema.relation? table.name relation.name = some relation := by
  rw [Schema.relation?, h.known]
  exact h.listed

/-- The request shows all columns of both tables. -/
theorem ReadOff.shape_eq (strategy : LoadStrategy) :
    Engine.shapeFor ⟨schema, settings⟩ table (askingFor relation.name strategy) =
      { fields := table.columnNames, relations := [(relation.name, wholeBranch target)] } := by
  have hbranch : ({} : RelationArgs).branch schema relation.target = wholeBranch target := by
    have hfields : Shape.chosenFields target none = target.columnNames :=
      List.filter_eq_self.mpr fun _ _ => rfl
    rw [RelationArgs.branch, h.leads]
    dsimp only
    rw [chosenBranches, chosenBranches, Shape.ofTable, hfields]
    rfl
  rw [← hbranch]
  exact shape_asking h.known h.column h.listed rfl

omit h in
/-- It cuts no page but the greatest. -/
theorem paging_askingFor (name : String) (strategy : LoadStrategy) :
    Engine.paging ⟨schema, settings⟩ (askingFor name strategy) =
      ⟨settings.maxTake, none, false⟩ := by
  unfold Engine.paging Settings.pageSize
  cases settings.maxTake <;> rfl

/-- Nothing is sorted. -/
theorem ReadOff.sorts (strategy : LoadStrategy) :
    (Engine.shapeFor ⟨schema, settings⟩ table (askingFor relation.name strategy)).Throughout schema
      (SortsAlone schema db) table.name := by
  rw [h.shape_eq, Shape.Throughout]
  refine branchesThroughout_iff.mpr (List.forall_mem_singleton.mpr fun known hknown => ⟨?_, ?_⟩)
  · exact fun _ _ key hkey => nomatch hkey
  · change Shape.Throughout schema _ { fields := target.columnNames } known.target
    rw [Shape.Throughout, branchesThroughout]
    trivial

/-- The relation can be joined. -/
theorem ReadOff.joinable : Planner.joinable? schema table.name relation.name = some relation := by
  rw [Planner.joinable?, h.relation_eq]
  simp [h.kind, h.leads]

/-- The plan of the request has one join, labelled by the relation. -/
theorem ReadOff.joins_eq :
    (Engine.planFor ⟨schema, settings⟩ table (askingFor relation.name .join)).2.joins =
      [⟨relation, relation.name, table.name, relation.name ++ "_1", .left⟩] := by
  have hlabel : relation.name ++ "_" ++ toString (0 + 1) = relation.name ++ "_1" := by
    rw [String.append_assoc]
    rfl
  rw [Engine.planFor, h.shape_eq, Shape.layout, Shape.plan, planBranches]
  simp only [Planner.add, h.joinable, hlabel, Shape.plan, planBranches, wholeBranch,
    List.nil_append]

omit h in
/-- Its base statement has nothing but a window. -/
theorem baseStatement_askingFor (name : String) (strategy : LoadStrategy) (most : Option Nat)
    (joined : JoinedTables) (paged : Bool) :
    Engine.baseStatement ⟨schema, settings⟩ table (askingFor name strategy) ⟨most, none, false⟩
        joined paged =
      { table := table.name
        window := if paged && most.isSome then some ⟨most, none⟩ else none } := by
  simp [Engine.baseStatement, Engine.baseOrder, askingFor, FindArgs.including, Schema.predicate?,
    Schema.sortKeys, SelectOf.andWhere?, orderClause, Table.distinctColumns]

variable (hschema : schema.Consistent)

include hschema

/-- Its layout joins the relation, and nothing else. -/
theorem ReadOff.exists_leaf :
    let layout := (Engine.planFor ⟨schema, settings⟩ table (askingFor relation.name .join)).1
    ∃ leaf, layout.JoinsOnly ⟨relation.name, relation.kind.isToMany, wholeBranch target, leaf⟩ ∧
      (wholeBranch target).shape.Planned schema relation.target leaf ∧ leaf.isBase = false ∧
      leaf.qualifier = relation.name ++ "_1" ∧ layout.fansOut = relation.kind.isToMany := by
  intro layout
  have hplanned := @planFor_planned ⟨schema, settings⟩ hschema table
    (askingFor relation.name .join)
  obtain ⟨leaf, hone, hleaf, hbase⟩ := hplanned.planned.joins_only
    (congrArg Shape.relations (h.shape_eq settings .join)) rfl h.joinable
  refine ⟨leaf, hone, hleaf, hbase, ?_, hone.fansOut⟩
  have hjoins := hplanned.joins_eq
  rw [hone.joins (hplanned.planned.table_eq.symm ▸ h.relation_eq), h.joins_eq,
    List.singleton_inj] at hjoins
  exact (congrArg PlannedJoin.label hjoins).symm
variable (hmost : settings.maxTake = none ∨ relation.kind.isToMany = true)

include hmost

/-- The joined statement neither filters nor sorts, and cuts no window. -/
theorem ReadOff.statement_clauses :
    let engine : Engine := ⟨schema, settings⟩
    let args := askingFor relation.name .join
    let plan := engine.planFor table args
    let statement := engine.joinedStatement table args (engine.paging args) plan.1 plan.2
    statement.filter = none ∧ statement.orderBy = none ∧ statement.window = none := by
  intro engine args plan statement
  obtain ⟨leaf, hone, -, -, -, hfans⟩ := h.exists_leaf settings hschema
  have hpaging : engine.paging args = ⟨settings.maxTake, none, false⟩ := paging_askingFor _ _ _
  have hwindow : (!plan.1.fansOut && settings.maxTake.isSome) = false := by
    rcases hmost with hmost | hmany
    · rw [hmost, Option.isSome_none, Bool.and_false]
    · rw [hfans, hmany]
      rfl
  have hframe : statement = _ :=
    joinedStatement_frame engine table args (engine.paging args) plan.1 plan.2
  rw [hone.clauses rfl, hpaging, baseStatement_askingFor, hwindow] at hframe
  rw [hframe]
  exact ⟨rfl, rfl, rfl⟩

omit hmost in
/-- Folded, the joined rows make a record of every base row, in their order. -/
theorem ReadOff.assemble_tuples {leaf : Layout} (plan : Layout × Planner)
    (hplan : Engine.planFor ⟨schema, settings⟩ table (askingFor relation.name .join) = plan)
    (hone : plan.1.JoinsOnly ⟨relation.name, relation.kind.isToMany, wholeBranch target, leaf⟩)
    (hleaf : (wholeBranch target).shape.Planned schema relation.target leaf)
    (hbase : leaf.isBase = false) (hqualifier : leaf.qualifier = relation.name ++ "_1") :
    plan.1.assemble ((plan.2.tuples db table.name).map plan.1.yield) =
      (db.rows table.name).map fun row => Dict.put relation.name (.ofRelated relation.kind.isToMany
        ((wholeBranch target).page ((relation.direct.linked db row).map (·.recordOf leaf.columns))))
          (row.recordOf plan.1.columns) := by
  have hplanned := @planFor_planned ⟨schema, settings⟩ hschema table
    (askingFor relation.name .join)
  have hjoins := h.joins_eq settings
  rw [hplan] at hplanned hjoins
  have hbegins := hplanned.begins
  have hlabel : leaf.qualifier ≠ table.name := hqualifier ▸ h.label
  have hapart : ApartBy plan.1.key (db.rows table.name) := hbegins.key_eq ▸ h.apart
  have hrelated : ApartBy leaf.key (db.rows relation.target) := hleaf.key_eq ▸ h.related
  have hjoined : ⟨relation.name, relation.kind.isToMany, wholeBranch target, leaf⟩ ∈
      plan.1.relations := by
    rw [hone.relations]
    exact List.mem_cons_self
  have hshows : plan.1.Shows leaf :=
    Layout.shows_joined hbegins.named hbegins.outputNames hjoined hleaf.key_subset
  have hblock : ∀ row, plan.2.block db table.name row =
      (orNone (relation.direct.linked db row)).map (row.beside table.name leaf.qualifier) := by
    rw [← hqualifier] at hjoins
    exact Planner.block_direct hjoins rfl rfl hlabel
  have hgroups := @groupsOf_blocks _ _ _ plan.1.groupKey [()] (List.cons_ne_nil _ _)
    (db.rows table.name) plan.1.rowKey (fun _ => plan.2.block db table.name)
    (fun _ _ row _ => by rw [hblock]; simpa using orNone_ne_nil _)
    (fun _ _ row _ tuple htuple => by
      obtain ⟨more, rfl⟩ := plan.2.begins_block table.name row tuple htuple
      rw [hbegins.groupKey_eq_rowKey, Bindings.rowOf_cons_self, Option.getD_some])
    hapart.rowKeys_nodup
  simp only [List.flatMap_singleton] at hgroups
  rw [hbegins.assemble_yield, show plan.2.tuples db table.name =
    (db.rows table.name).flatMap (plan.2.block db table.name) from rfl, hgroups, List.map_map]
  refine List.map_congr_left fun row _ => ?_
  rw [Function.comp_apply, hblock]
  have hlinked : (relation.direct.linked db row).Sublist (db.rows relation.target) :=
    Relation.linked_sublist rfl row
  exact hone.fold_beside hshows hlabel hbase hbegins row (hrelated.sublist hlinked)

variable (hdb : db.Valid)

include hdb

/-- By a joined statement every base row holds the rows that the columns of the relation link it
to. -/
theorem ReadOff.findMany_join :
    (Engine.findMany ⟨schema, settings⟩ table.name (askingFor relation.name .join)).Gives db.run
      fun records => records = (pageOf none settings.maxTake (db.rows table.name)).map
        (relation.holder table target (relation.direct.linked db)) := by
  let engine : Engine := ⟨schema, settings⟩
  let args := askingFor relation.name .join
  let plan := engine.planFor table args
  have hpaging : engine.paging args = ⟨settings.maxTake, none, false⟩ := paging_askingFor _ _ _
  have hjoins := h.joins_eq settings
  have hplan : (engine.shapeFor table args).layout engine.schema table.name [] =
      (plan.1, plan.2) := rfl
  have hbyJoins : engine.Joins table args := by
    refine ⟨rfl, ?_⟩
    rw [show (engine.planFor table args).2.joins = _ from hjoins]
    rfl
  have hplanned := @planFor_planned engine hschema table args
  obtain ⟨leaf, hone, hleaf, hbase, hqualifier, hfans⟩ := h.exists_leaf settings hschema
  obtain ⟨hfilter, horder, hwindow⟩ := h.statement_clauses settings hschema hmost
  have htuples : engine.joinedTuples db table args (engine.paging args) plan.1 plan.2 =
      plan.2.tuples db table.name := by
    unfold Engine.joinedTuples
    dsimp only
    rw [hfilter, horder]
    exact List.filter_eq_self.mpr fun _ _ => rfl
  have hfolded : engine.foldedRecords db table args (engine.paging args) plan.1 plan.2 =
      pageOf none settings.maxTake (plan.1.assemble ((plan.2.tuples db table.name).map
        plan.1.yield)) := by
    unfold Engine.foldedRecords
    dsimp only
    rw [hwindow, htuples, hpaging, hfans]
    rcases hmost with hnone | hmany
    · rw [hnone]
      exact ite_self _
    · exact if_pos hmany
  rw [findMany_joined h.known hbyJoins]
  refine gives_forwards (fun records hrecords => ?_) (by rw [hpaging])
  rw [findJoined_loaded hschema hdb (schema.shape_proper _ _ _ _) (h.sorts settings .join)
    (engine.paging args) hplan ?_
    (hplanned.begins.key_eq ▸ h.apart) rfl records hrecords, hfolded,
    h.assemble_tuples settings hschema plan rfl hone hleaf hbase hqualifier, ← pageOf_map,
    List.map_map]
  · refine List.map_congr_left fun row _ => ?_
    have honly : plan.1.JoinsOnly
        ⟨relation.name, relation.direct.kind.isToMany, wholeBranch target, leaf⟩ := hone
    have howner : plan.1.strip (plan.1.loaded schema db _) = _ :=
      honly.owner_eq rfl hplanned.planned.fields_subset hleaf.fields_subset hleaf.fields_eq [] row
    rw [BranchOf.owner, rowsInOrder_nil, wholeBranch_page, wholeBranch_page,
      hplanned.planned.fields_eq.trans (congrArg Shape.fields (h.shape_eq settings .join))]
      at howner
    rw [Function.comp_apply, wholeBranch_page]
    exact howner
  · rw [hjoins]
    exact List.forall_mem_singleton.mpr (Or.inl rfl)

omit hmost in
/-- By follow-up statements it holds the rows that the relation leads to, through the junction if
there is one. -/
theorem ReadOff.findMany_query :
    (Engine.findMany ⟨schema, settings⟩ table.name (askingFor relation.name .query)).Gives db.run
      fun records => records = (pageOf none settings.maxTake (db.rows table.name)).map
        (relation.holder table target fun row =>
          relation.reached db (db.rows relation.target) (row.value relation.fromColumn)) := by
  let engine : Engine := ⟨schema, settings⟩
  let args := askingFor relation.name .query
  have hpaging : engine.paging args = ⟨settings.maxTake, none, false⟩ := paging_askingFor _ _ _
  have hshown : engine.shownRows db table args (engine.paging args) =
      pageOf none settings.maxTake (db.rows table.name) := by
    have hwhole : engine.shownRows db table args ⟨none, none, false⟩ = db.rows table.name :=
      shownRows_whole rfl rfl rfl
    rw [hpaging, ← hwhole]
    exact (pageOf_eq_cut ⟨settings.maxTake, none, false⟩ _).symm
  have hcandidates :
      db.candidates schema target (wholeBranch target) = db.rows relation.target := by
    rw [Database.candidates, hschema.table_name h.leads]
    exact (selected_all _ _).trans (rowsInOrder_nil _)
  have hfrom : relation.fromColumn ∈ table.columnNames :=
    mem_columnNames.mpr (hschema.resolves h.known h.listed).fromColumn
  intro records hrecords
  rw [findMany_loaded h.known hschema hdb rfl (by rw [hpaging]) rfl (h.sorts settings .query)
    records hrecords, hshown]
  refine List.map_congr_left fun row _ => ?_
  rw [show schema.shape table.name _ _ _ = _ from h.shape_eq settings .query]
  have mirrors := row.toRecord_only_mirrors
    (withHidden table.columnNames (table.linkColumns [relation.name]))
  have hfields : table.columnNames ⊆
      withHidden table.columnNames (table.linkColumns [relation.name]) :=
    fun field hfield => mem_withHidden.mpr (Or.inl hfield)
  have hloaded : ∀ other : Row, (wholeBranch target).shape.loaded schema db relation.target
      (other.only (target.branchColumns (wholeBranch target) relation.toColumn)).toRecord =
        other.recordOf target.columnNames := fun other =>
    ((other.toRecord_only_mirrors _).subset fun field hfield =>
      mem_withHidden.mpr (Or.inl hfield)).shown
  rw [Shape.loaded, loadedBranches_cons h.relation_eq, loadedBranches_nil]
  simp only [id_eq, List.map_cons, List.map_nil]
  rw [mirrors.scalar (hfields hfrom), wholeBranch_page, Relation.recordsFor, h.leads]
  dsimp only
  rw [hcandidates, List.map_map]
  simp only [Function.comp_def, hloaded]
  exact mirrors.shown_put hfields _ _

end Requests

/-- A relation that is accepted is listed for its table. -/
theorem listed_of_define {next : Schema} {owner : String} {relation : Relation}
    (h : schema.define owner relation = .ok next) : ∃ table, next.table? owner = some table ∧
      table.relation? relation.name = some relation := by
  obtain ⟨rfl, -⟩ := Schema.define_ok h
  cases hknown : schema.table? owner with
  | none => simp [Schema.define, hknown, throw, throwThe, MonadExceptOf.throw] at h
  | some known =>
      refine ⟨known.define relation, ?_, ?_⟩
      · rw [Schema.table?_adjust, hknown, Option.map_some, if_pos rfl]
      · rw [Schema.relation?_define, if_pos rfl]

/-- **Accepted relations.**  Take a relation that a schema which can come about accepts for a table,
not of many to many and not named like a column, and a database of valid values in which the rows of
both tables are told apart by their primary keys.  Included without arguments, by follow-up
statements the relation relates a row to those that it leads to, through its junction if it has
one; by a joined statement it relates the row to those that its two columns link it to, whether or
not it has a junction.  So both relate the same rows if there is no junction and the values of the
columns are equal where their keys are. -/
theorem accepted_relation_found {schema next : Schema} (h : schema.Reachable) {owner : String}
    {relation : Relation} (hdefine : schema.define owner relation = .ok next)
    (hkind : relation.kind ≠ .manyToMany) (hcolumn : next.hasColumn owner relation.name = false)
    (hlabel : relation.name ++ "_1" ≠ owner) {settings : Settings}
    (hmost : settings.maxTake = none ∨ relation.kind.isToMany = true) {db : Database}
    (hdb : db.Valid) (hapart : ApartBy (next.usableKey owner) (db.rows owner))
    (hrelated : ApartBy (next.usableKey relation.target) (db.rows relation.target)) :
    ∃ table target, next.table? owner = some table ∧ next.table? relation.target = some target ∧
      let find := fun strategy => ((Engine.findMany ⟨next, settings⟩ owner
        (askingFor relation.name strategy)).hold Database.source db).result
      let owners := pageOf none settings.maxTake (db.rows owner)
      let reached := fun row =>
        relation.reached db (db.rows relation.target) (row.value relation.fromColumn)
      find .query = .ok (owners.map (relation.holder table target reached)) ∧
        find .join = .ok (owners.map (relation.holder table target (relation.direct.linked db))) ∧
        (relation.junction = none → relation.Keyed db owner → find .join = find .query) := by
  have hschema : next.Consistent := (h.define hdefine).consistent
  obtain ⟨table, hknown, hlisted⟩ := listed_of_define hdefine
  obtain ⟨target, hleads, -⟩ := (hschema.resolves hknown hlisted).target
  have hname : table.name = owner := hschema.table_name hknown
  subst hname
  have hreads : ReadOff next db table target relation :=
    ⟨hknown, hlisted, hleads, hkind, by rwa [Schema.hasColumn, hknown] at hcolumn, hapart, hrelated,
      hlabel⟩
  obtain ⟨joined, hjoin, rfl⟩ := findMany_result hschema hknown
    (hreads.findMany_join settings hschema hmost hdb)
  obtain ⟨loaded, hquery, rfl⟩ := findMany_result hschema hknown
    (hreads.findMany_query settings hschema hdb)
  refine ⟨table, target, hknown, hleads, hquery, hjoin, fun hdirect hkeyed => ?_⟩
  refine hjoin.trans (Eq.trans (congrArg _ (List.map_congr_left fun row hrow => ?_)) hquery.symm)
  have hsame : relation.direct.linked db row =
      relation.reached db (db.rows relation.target) (row.value relation.fromColumn) := by
    rw [hkeyed.reached_direct hdirect (pageOf_subset _ _ _ hrow) (List.Subset.refl _)]
    rfl
  rw [Relation.holder, Relation.holder, hsame]

/-- Authors, tags, and the links between them. -/
def tagTables : List TableDecl :=
  [{ name := "Author", columns := [{ name := "id", type := .integer, primary := true }] },
   { name := "Tag", columns := [{ name := "id", type := .integer, primary := true }] },
   { name := "AuthorTag"
     columns := [{ name := "authorId", type := .integer }, { name := "tagId", type := .integer }] }]

/-- One author, who has the second of two tags. -/
def tagRows : Database :=
  [("Author", [[("id", .integer 1)]]),
   ("Tag", [[("id", .integer 1)], [("id", .integer 2)]]),
   ("AuthorTag", [[("authorId", .integer 1), ("tagId", .integer 2)]])]

/-- The tags of an author: one to many, but through the links. -/
def linkedTags : Relation :=
  { Relation.oneToMany "tags" "Tag" "id" "id" with
    junction := some ⟨"AuthorTag", "authorId", "tagId"⟩ }

/-- Defined a second time by hand, the posts of an author are the same by joins and by follow-up
statements. -/
theorem accepted_relation_found_blog :
    let writings := Relation.oneToMany "writings" "Post" "id" "authorId"
    ∃ next, (Schema.ofDecls blogTables).define "Author" writings = .ok next ∧
      let find := fun strategy => ((Engine.findMany ⟨next, {}⟩ "Author"
        (askingFor "writings" strategy)).hold Database.source blogRows).result
      find .join = find .query := by
  intro writings
  let next := (Schema.ofDecls blogTables).adjust "Author" (·.define writings)
  have hdefine : (Schema.ofDecls blogTables).define "Author" writings = .ok next := by
    decide +kernel
  have hmost : ({} : Settings).maxTake = none ∨ writings.kind.isToMany = true := Or.inl rfl
  have hvalid : blogRows.Valid := Database.valid_of_entries (by decide +kernel)
  obtain ⟨-, -, -, -, -, -, hsame⟩ := accepted_relation_found reachable_blog hdefine
    (by decide) (by decide +kernel) (by decide) hmost hvalid (by decide +kernel) (by decide +kernel)
  exact ⟨next, hdefine, hsame rfl (by decide +kernel)⟩

/-- A relation to many through a junction is accepted; joined, it leads to the tag with the number
of the author, and loaded by follow-up statements to the tag that is linked. -/
theorem junction_ignored_by_join :
    ∃ next, (Schema.ofDecls tagTables).define "Author" linkedTags = .ok next ∧
      let tags := fun strategy => ((Engine.findMany ⟨next, {}⟩ "Author"
        (askingFor "tags" strategy)).hold Database.source tagRows).result.toOption.map
          (List.map fun record => (record.related "tags").map (·.scalar "id"))
      tags .join = some [[.integer 1]] ∧ tags .query = some [[.integer 2]] := by
  refine ⟨(Schema.ofDecls tagTables).adjust "Author" (·.define linkedTags), ?_⟩
  decide +kernel

end NestedQuery
