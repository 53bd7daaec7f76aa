import NestedQuery.Proofs.IncludedAlone
import NestedQuery.Proofs.SortableRequests

/-!
# Distinct columns of an included relation

The related records of an owner are made distinct after the columns that are not
shown have been dropped from them.  Two requests that differ only in the columns
they choose of a relation ask the same rows, and give each owner the same related
rows in the same order; so the list that one shows can be compared with the list
that the other shows.  It is the same list, cut to the chosen columns, when the
distinct columns are among them.  Otherwise a distinct column that is not shown
counts as null in every record.
-/

namespace NestedQuery

variable {schema : Schema} {db : Database}

/-! ### Pages of changed records -/

/-- Records that keep the distinct columns have the page that they had. -/
theorem page_map {branch : Branch} {change : Record → Record}
    (hkeeps : ∀ column ∈ branch.distinct.getD [], ∀ record,
      (change record).scalar column = record.scalar column) (records : List Record) :
    branch.page (records.map change) = (branch.page records).map change := by
  unfold BranchOf.page
  rw [distinctBy_map hkeeps]
  cases branch.take with
  | none => exact (pageOf_map _ _ _ _).symm
  | some take =>
      dsimp only
      split
      · rw [← pageOf_map, lastOf, lastOf, List.length_map, List.map_drop]
      · exact (pageOf_map _ _ _ _).symm

/-! ### Loading for two requests -/

/-- What was fetched for a level is attached alike to all records. -/
theorem attachLevel_alike (hschema : schema.Consistent) {table : String} :
    ∀ {branches : List (String × Branch)} {fetched : List (List Related)},
    branchesProper schema branches table → Fetched branches fetched →
    (attachLevel schema table branches fetched).Gives db.run (AttachesAlike schema table branches)
  | [], fetched, _, _ => by
      rw [attachLevel]
      exact Load.gives_pure (AttachesAlike.nil table)
  | (name, ⟨shape, filter, orderBy, take, skip, distinct, joinKind⟩) :: rest, fetched, hproper,
      hfetched => by
      obtain ⟨⟨hname, relation, hrelation, -⟩, hrest⟩ :=
        List.forall_mem_cons.mp (branchesProper_iff.mp hproper)
      let branch : Branch := ⟨shape, filter, orderBy, take, skip, distinct, joinKind⟩
      cases hfetched with
      | @cons _ related _ others hrelated hothers =>
          rw [attachLevel.eq_def]
          simp only [hrelation]
          refine Load.Gives.bind (fun _ _ => trivial) fun finished _ => ?_
          refine Load.Gives.bind (attachLevel_alike hschema (branchesProper_iff.mpr hrest) hothers) ?_
          intro more hmore
          exact Load.gives_pure (hmore.cons hschema hname hrelation branch fun value =>
            .ofRelated relation.kind.isToMany (branch.page (if value.isNull then [] else
              (finished.filter fun one : Related => one.owner == value.key).map Related.record)))

/-- Loading relations has a result, which attaches alike. -/
theorem exists_loadBranches (hschema : schema.Consistent) {table : String}
    {branches : List (String × Branch)} (hproper : branchesProper schema branches table)
    (hnodup : (branches.map (·.1)).Nodup) (owners : List Record) :
    ∃ load, (loadBranches schema table branches owners).resultFrom db.run = .ok load ∧
      AttachesAlike schema table branches load ∧
      ∀ record, Dict.Sorted record → Dict.Sorted (load record) := by
  obtain ⟨load, hload⟩ := ((loadBranches_asks (@followUps_wellScoped schema) table branches owners).hold_ok
    fun statement hscoped => hscoped.run_ok db).1
  rw [Load.hold_result] at hload
  have hgives : (loadBranches schema table branches owners).Gives db.run
      (AttachesAlike schema table branches) := by
    refine Load.Gives.bind (fetchLevel_gives (fun entry hentry => ?_) owners) fun fetched hfetched =>
      attachLevel_alike hschema hproper hfetched
    obtain ⟨-, relation, hrelation, -⟩ := branchesProper_iff.mp hproper entry hentry
    exact ⟨relation, hrelation⟩
  exact ⟨load, hload, hgives load hload, (loadBranches_gives hproper hnodup owners load hload).sorted⟩

/-- It depends on its owners by the values that they start the relations from. -/
theorem loadBranches_congr {table : String} {branches : List (String × Branch)}
    {owners others : List Record} (h : ∀ entry ∈ branches, ∀ relation,
      schema.relation? table entry.1 = some relation →
        owners.map (·.scalar relation.fromColumn) = others.map (·.scalar relation.fromColumn)) :
    loadBranches schema table branches owners = loadBranches schema table branches others := by
  have hlevel : fetchLevel schema table branches owners = fetchLevel schema table branches others := by
    unfold fetchLevel
    refine congrArg _ (List.map_congr_left ?_)
    rintro ⟨name, branch, relation⟩ hknown
    obtain ⟨entry, hentry, hfound⟩ := List.mem_filterMap.mp hknown
    obtain ⟨found, hrelation, heq⟩ := Option.map_eq_some_iff.mp hfound
    cases heq
    simp only [h entry hentry relation hrelation]
  rw [loadBranches, loadBranches, hlevel]

/-- Finishing related records is loading their relations and dropping what is not shown. -/
theorem finishRelated_result {table : String} {shape : Shape} {related : List Related}
    {load : Record → Record} (hload : (loadBranches schema table shape.relations
      (related.map (·.record))).resultFrom db.run = .ok load) :
    (finishRelated schema table shape related).resultFrom db.run =
      .ok (related.map fun one => { one with
        record := (load one.record).shown shape.fields (shape.relations.map (·.1)) }) := by
  obtain ⟨fields, excluded, relations⟩ := shape
  rw [loadBranches, Load.resultFrom_bind] at hload
  rw [finishRelated, Load.resultFrom_bind]
  cases hfetched : (fetchLevel schema table relations (related.map (·.record))).resultFrom db.run with
  | error error =>
      rw [hfetched] at hload
      cases hload
  | ok fetched =>
      rw [hfetched] at hload
      change (attachLevel schema table relations fetched).resultFrom db.run = .ok load at hload
      change (attachLevel schema table relations fetched >>= _).resultFrom db.run = _
      rw [Load.resultFrom_bind, hload]
      rfl

/-! ### Related rows for two requests -/

/-- Which rows a statement for related rows selects, and in which order, depends on the filter and
the ordering of its branch. -/
theorem exists_related (target : Table) (link : String) (keys : List Value) (filter : Option Filter)
    (orderBy : Option SortRequest) :
    ∃ rows : List Row, ∀ branch : Branch, branch.filter = filter → branch.orderBy = orderBy →
      db.run (relatedStatement schema target branch link keys) =
        .ok (rows.map (·.only (target.branchColumns branch link))) := by
  refine ⟨db.selected target.name (Branch.condition schema target { shape := {}, filter } link keys)
    (orderClause (schema.sortKeys target.name target.name orderBy [])), ?_⟩
  rintro branch rfl rfl
  exact run_relatedStatement target branch link keys

/-- Rows with the keys of their owners, as the related records of a branch. -/
def relatedBy (target : Table) (branch : Branch) (link : String) (pairs : List (String × Row)) :
    List Related :=
  pairs.map fun pair => ⟨pair.1, (pair.2.only (target.branchColumns branch link)).toRecord⟩

theorem Load.gives_of_result {α : Type} {answer : Select → Except QueryError (List Row)}
    {load : Load α} {result : α} (h : load.resultFrom answer = .ok result) :
    load.Gives answer (· = result) := by
  intro other hother
  rw [h] at hother
  cases hother
  rfl

/-- So it is with the related rows of owners with given keys, directly or through links. -/
theorem exists_fetched (relation : Relation) {target : Table}
    (htarget : schema.table? relation.target = some target) (keys : List Value)
    (filter : Option Filter) (orderBy : Option SortRequest) :
    ∃ pairs : List (String × Row), ∀ branch : Branch, branch.filter = filter →
      branch.orderBy = orderBy → (fetch schema relation branch keys).resultFrom db.run =
        .ok (relatedBy target branch relation.toColumn pairs) := by
  have hlink : ∀ branch, relation.toColumn ∈ target.branchColumns branch relation.toColumn :=
    fun branch => mem_withHidden.mpr (Or.inr List.mem_cons_self)
  unfold fetch
  by_cases hempty : keys.isEmpty = true
  · exact ⟨[], fun branch _ _ => by rw [if_pos hempty]; rfl⟩
  simp only [if_neg hempty]
  cases relation.junction with
  | none =>
      obtain ⟨rows, hrows⟩ := @exists_related schema db target relation.toColumn keys filter orderBy
      refine ⟨rows.map fun row => ((row.value relation.toColumn).key, row), ?_⟩
      intro branch hfilter horder
      unfold fetchDirect relatedBy
      rw [htarget]
      dsimp only
      rw [Load.resultFrom_ask (hrows branch hfilter horder)]
      refine congrArg Except.ok ?_
      rw [List.map_map, List.map_map]
      refine List.map_congr_left fun row _ => ?_
      simp only [Function.comp_apply, keyIn_only row (hlink branch)]
  | some junction =>
      have hlinks : db.run (linkStatement junction keys) =
          .ok (((db.rows junction.table).filter fun link =>
            keys.any (link.value junction.fromColumn).sqlEq).map
              (·.only [junction.fromColumn, junction.toColumn])) :=
        run_keyed junction.table junction.fromColumn (List.cons_ne_nil _ _) keys
      let ends := junction.ends db keys
      obtain ⟨rows, hrows⟩ := @exists_related schema db target relation.toColumn
        (distinctKeys (ends.map (·.2))) filter orderBy
      unfold fetchLinked
      simp only [Load.resultFrom_ask hlinks, linkEnds_ends, htarget]
      by_cases hnone : (distinctKeys (ends.map (·.2))).isEmpty = true
      · exact ⟨[], fun branch _ _ => by rw [if_pos hnone]; rfl⟩
      simp only [ends] at hnone
      simp only [if_neg hnone]
      refine ⟨rows.flatMap fun row => (ends.filter fun pair =>
        pair.2.key == (row.value relation.toColumn).key).map fun pair => (pair.1.key, row), ?_⟩
      intro branch hfilter horder
      unfold relatedBy
      rw [Load.resultFrom_ask (hrows branch hfilter horder)]
      refine congrArg Except.ok ?_
      rw [List.flatMap_map, List.map_flatMap]
      refine List.flatMap_congr fun row _ => ?_
      simp only [keyIn_only row (hlink branch), List.map_map]
      rfl

/-- The columns of a branch hold the values that its relations start from. -/
theorem scalar_branchColumns {target : Table} (htarget : schema.table? target.name = some target)
    (branch : Branch) (link : String) (row : Row) {entry : String × Branch}
    (hentry : entry ∈ branch.shape.relations) {relation : Relation}
    (hrelation : schema.relation? target.name entry.1 = some relation) :
    ((row.only (target.branchColumns branch link)).toRecord).scalar relation.fromColumn =
      row.value relation.fromColumn := by
  refine (row.toRecord_only_mirrors _).scalar (linked_subset_branchColumns target branch link ?_)
  exact List.mem_append_right _ (mem_linkColumns htarget (List.mem_map_of_mem hentry) hrelation)

/-! ### Lists for two requests -/

/-- The rows that are handed out to an owner with the given value. -/
def rowsOf (pairs : List (String × Row)) (value : Value) : List Row :=
  if value.isNull then [] else (pairs.filter (·.1 == value.key)).map (·.2)

/-- The related records of rows as a branch shows them, not yet cut to its page. -/
def BranchOf.shownFrom (branch : Branch) (target : Table) (link : String) (load : Record → Record)
    (rows : List Row) : List Record :=
  rows.map fun row => (load (row.only (target.branchColumns branch link)).toRecord).shown
    branch.shape.fields (branch.shape.relations.map (·.1))

/-- Loading one relation attaches to each owner the page of its related records. -/
theorem loadBranches_one {table name : String} {relation : Relation}
    (hrelation : schema.relation? table name = some relation) {branch : Branch} {target : Table}
    (htarget : target.name = relation.target) {owners : List Record} {pairs : List (String × Row)}
    (hfetched : (fetch schema relation branch
      (distinctKeys (owners.map (·.scalar relation.fromColumn)))).resultFrom db.run =
        .ok (relatedBy target branch relation.toColumn pairs)) {load : Record → Record}
    (hload : (loadBranches schema target.name branch.shape.relations
      ((relatedBy target branch relation.toColumn pairs).map (·.record))).resultFrom db.run =
        .ok load) :
    (loadBranches schema table [(name, branch)] owners).resultFrom db.run = .ok fun record =>
      Dict.put name (.ofRelated relation.kind.isToMany (branch.page
        (branch.shownFrom target relation.toColumn load
          (rowsOf pairs (record.scalar relation.fromColumn))))) record := by
  have hfinished := finishRelated_result hload
  rw [htarget] at hfinished
  have hattach : ∀ record : Record, attach name relation branch
      ((relatedBy target branch relation.toColumn pairs).map fun one => { one with
        record := (load one.record).shown branch.shape.fields (branch.shape.relations.map (·.1)) })
      record = Dict.put name (.ofRelated relation.kind.isToMany (branch.page
        (branch.shownFrom target relation.toColumn load
          (rowsOf pairs (record.scalar relation.fromColumn))))) record := by
    intro record
    unfold attach relatedBy BranchOf.shownFrom rowsOf
    dsimp only
    split
    · rfl
    · rw [List.map_map, List.filter_map, List.map_map, List.map_map]
      rfl
  have hlevel : (fetchLevel schema table [(name, branch)] owners).resultFrom db.run =
      .ok [relatedBy target branch relation.toColumn pairs] := by
    rw [fetchLevel, knownBranches_cons hrelation]
    exact (Load.resultFrom_bind _ _).trans (by rw [hfetched]; rfl)
  rw [loadBranches, Load.resultFrom_bind, hlevel]
  change (attachLevel schema table [(name, branch)]
    [relatedBy target branch relation.toColumn pairs]).resultFrom db.run = _
  simp only [← hattach]
  obtain ⟨shape, filter, orderBy, take, skip, distinct, joinKind⟩ := branch
  rw [attachLevel.eq_def]
  simp only [hrelation]
  rw [Load.resultFrom_bind, hfinished]
  change (attachLevel schema table [] [] >>= _).resultFrom db.run = _
  rw [attachLevel]
  rfl

/-- Requests that include one relation under the same filter and ordering, with the same relations
beneath it, give each owner related records of the same rows, loaded in the same way. -/
theorem exists_included {engine : Engine} (hschema : engine.schema.Consistent)
    {strategy : Option LoadStrategy}
    (hstrategy : strategy.getD engine.settings.strategy = .query) {table : Table}
    (hknown : engine.schema.table? table.name = some table) {name : String} {relation : Relation}
    (hname : table.hasColumn name = false) (hrelation : table.relation? name = some relation)
    {target : Table} (htarget : engine.schema.table? relation.target = some target)
    (filter : Option Filter) (orderBy : Option SortRequest)
    {relations : List (String × Branch)}
    (hrelations : branchesProper engine.schema relations target.name)
    (hnodup : (relations.map (·.1)).Nodup) :
    ∃ (owners : List Row) (linked : Row → List Row) (load : Record → Record),
      AttachesAlike engine.schema target.name relations load ∧
      (∀ record, Dict.Sorted record → Dict.Sorted (load record)) ∧
      ∀ args : RelationArgs, args.filter = filter → args.orderBy = orderBy →
        (args.branch engine.schema relation.target).shape.relations = relations →
        let branch := args.branch engine.schema relation.target
        (engine.findMany table.name { included := some [(name, .relation args)], strategy }).Gives
          db.run fun found => found.map (·.lookup name) = owners.map fun owner =>
            some (.ofRelated relation.kind.isToMany (branch.page
              (branch.shownFrom target relation.toColumn load (linked owner)))) := by
  have htargetName : target.name = relation.target := hschema.table_name htarget
  have hknownRelation : engine.schema.relation? table.name name = some relation := by
    rw [Schema.relation?, hknown]
    exact hrelation
  have hfrom := (hschema.resolves hknown hrelation).fromColumn
  let columns := withHidden table.columnNames (table.linkColumns [name])
  have hfield : relation.fromColumn ∈ columns :=
    mem_withHidden.mpr (Or.inl (mem_columnNames.mpr hfrom))
  let bare : FindArgs := { strategy }
  let owners := engine.shownRows db table bare (engine.paging bare)
  let records := (owners.map (·.only columns)).map Row.toRecord
  obtain ⟨pairs, hpairs⟩ := @exists_fetched engine.schema db relation target htarget
    (distinctKeys (records.map (·.scalar relation.fromColumn))) filter orderBy
  let first : Branch := { shape := { relations }, filter, orderBy }
  obtain ⟨load, hload, halike, hsorted⟩ := @exists_loadBranches engine.schema db hschema target.name
    relations hrelations hnodup ((relatedBy target first relation.toColumn pairs).map (·.record))
  refine ⟨owners, fun owner => rowsOf pairs (owner.value relation.fromColumn), load, halike, hsorted,
    ?_⟩
  intro args hfilter horder hbeneath branch
  have hbranch : branch = _ := RelationArgs.branch_eq args relation.target
  have hfetched := hpairs branch (by rw [hbranch]; exact hfilter) (by rw [hbranch]; exact horder)
  have hsame : loadBranches engine.schema target.name branch.shape.relations
      ((relatedBy target branch relation.toColumn pairs).map (·.record)) =
        loadBranches engine.schema target.name relations
          ((relatedBy target first relation.toColumn pairs).map (·.record)) := by
    rw [show branch.shape.relations = relations from hbeneath]
    refine loadBranches_congr fun entry hentry beneath hfound => ?_
    unfold relatedBy
    rw [List.map_map, List.map_map, List.map_map, List.map_map]
    refine List.map_congr_left fun pair _ => ?_
    have htargetKnown := htargetName.symm ▸ htarget
    exact (scalar_branchColumns htargetKnown branch _ pair.2 (hbeneath ▸ hentry) hfound).trans
      (scalar_branchColumns htargetKnown first _ pair.2 hentry hfound).symm
  rw [← hsame] at hload
  refine @findMany_separately db engine table { included := some [(name, .relation args)], strategy }
    hknown hstrategy rfl _ ?_
  rw [shape_including hknown hname hrelation args]
  unfold Engine.findSeparately
  dsimp only
  have hrun := @run_base db engine table { included := some [(name, .relation args)], strategy }
    (engine.paging bare) rfl columns (List.ne_nil_of_mem hfield)
  refine Load.gives_ask hrun ?_
  have hloaded := loadBranches_one hknownRelation htargetName hfetched hload
  refine Load.Gives.bind (Load.gives_of_result hloaded) ?_
  rintro _ rfl
  refine Load.gives_pure ?_
  rw [List.map_map, List.map_map, List.map_map]
  refine List.map_congr_left fun row _ => ?_
  have hvalue := (row.toRecord_only_mirrors columns).scalar hfield
  simp only [Function.comp_apply]
  rw [Record.lookup_shown, List.map_singleton, List.contains_iff_mem.mpr List.mem_cons_self,
    Bool.or_true, if_pos rfl, Dict.lookup_put_self, hvalue]

/-! ### Choices of columns -/

/-- The arguments with all columns of the table, none chosen and none omitted. -/
def RelationArgs.allColumns (args : RelationArgs) (table : Table) : RelationArgs :=
  { args with
    selected := args.selected.map (·.filter fun pair => !table.hasColumn pair.1)
    omitted := none }

/-- The arguments without distinct columns and without a page. -/
def RelationArgs.allRecords (args : RelationArgs) : RelationArgs :=
  { args with take := none, skip := none, distinct := none }

theorem addBranches_columns (table : Table) (choices : List (String × Choice RelationArgs))
    (known : Branches) :
    addBranches schema table (choices.filter fun pair => !table.hasColumn pair.1) known =
      addBranches schema table choices known := by
  induction choices generalizing known with
  | nil => rfl
  | cons pair rest ih =>
      obtain ⟨key, choice⟩ := pair
      cases hcolumn : table.hasColumn key with
      | true =>
          rw [List.filter_cons_of_neg (by simp [hcolumn]), addBranches_cons, ih, addChoice,
            if_pos hcolumn]
      | false =>
          rw [List.filter_cons_of_pos (by simp [hcolumn]), addBranches_cons, addBranches_cons, ih]

/-- Choosing no column shows all of them, beside the same relations. -/
theorem shape_allColumns {name : String} {table : Table} (htable : schema.table? name = some table)
    (args : RelationArgs) :
    ((args.allColumns table).branch schema name).shape.fields = table.columnNames ∧
      ((args.allColumns table).branch schema name).shape.relations =
        (args.branch schema name).shape.relations := by
  have hfields : Shape.chosenFields table
      (args.selected.map (·.filter fun pair => !table.hasColumn pair.1)) = table.columnNames := by
    have hnone : ∀ pair ∈ (args.selected.map (·.filter fun pair => !table.hasColumn pair.1)).getD [],
        ¬ (table.hasColumn pair.1 && Shape.isChosen pair.2) = true := by
      intro pair hpair hboth
      cases hselected : args.selected with
      | none =>
          rw [hselected] at hpair
          cases hpair
      | some choices =>
          rw [hselected] at hpair
          have hcolumn := (List.mem_filter.mp hpair).2
          rw [(Bool.and_eq_true_iff.mp hboth).1] at hcolumn
          cases hcolumn
    unfold Shape.chosenFields
    rw [List.filter_eq_nil_iff.mpr hnone]
    exact List.filter_eq_self.mpr fun _ _ => rfl
  rw [branch_shape htable, branch_shape htable]
  refine ⟨hfields, ?_⟩
  unfold Shape.ofTable RelationArgs.allColumns
  dsimp only
  simp only [chosenBranches_eq]
  cases args.selected with
  | none => rfl
  | some choices => simp only [Option.map_some, Option.getD_some, addBranches_columns]

/-- What a branch shows of rows depends on its shape. -/
theorem shownFrom_of_shape {target : Table} (htarget : schema.table? target.name = some target)
    {branch other : Branch} {load : Record → Record}
    (halike : AttachesAlike schema target.name branch.shape.relations load)
    (hsorted : ∀ record, Dict.Sorted record → Dict.Sorted (load record))
    (hshape : other.shape = branch.shape) (link : String) (rows : List Row) :
    other.shownFrom target link load rows = branch.shownFrom target link load rows := by
  refine List.map_congr_left fun row _ => ?_
  rw [hshape]
  exact halike.shown_only htarget hsorted row
    (hshape ▸ linked_subset_branchColumns target other link)
    (linked_subset_branchColumns target branch link)

/-- Dropping the columns that a branch does not show from records that show all columns leaves the
records that it shows. -/
theorem shownFrom_cut {target : Table} (htarget : schema.table? target.name = some target)
    {branch whole : Branch} {load : Record → Record}
    (halike : AttachesAlike schema target.name branch.shape.relations load)
    (hsorted : ∀ record, Dict.Sorted record → Dict.Sorted (load record))
    (hrelations : whole.shape.relations = branch.shape.relations)
    (hfields : branch.shape.fields ⊆ whole.shape.fields) (link : String) (rows : List Row) :
    (whole.shownFrom target link load rows).map
        (·.shown branch.shape.fields (branch.shape.relations.map (·.1))) =
      branch.shownFrom target link load rows := by
  unfold BranchOf.shownFrom
  rw [List.map_map]
  refine List.map_congr_left fun row _ => ?_
  rw [Function.comp_apply, hrelations, Record.shown_shown _ hfields (List.Subset.refl _)]
  refine halike.shown_only htarget hsorted row ?_ (linked_subset_branchColumns target branch link)
  rw [← hrelations]
  exact List.append_subset.mpr
    ⟨fun field hfield => linked_subset_branchColumns target whole link
        (List.mem_append_left _ (hfields hfield)),
      fun column hcolumn => linked_subset_branchColumns target whole link
        (List.mem_append_right _ hcolumn)⟩

/-- **Distinct columns after the choice of columns.**  By the query strategy, a request that includes
one relation to many returns where its rows can be sorted.  Whatever is included under the relation,
the list of an owner is what the arguments of the relation page of its related records, cut to the
columns that they choose: distinct columns that are not shown are cut off before they are compared.
So the list is that of all columns, cut to the chosen ones, if the distinct columns are among
these. -/
theorem distinct_after_choice {schema : Schema} (h : schema.Reachable) (settings : Settings)
    {strategy : Option LoadStrategy} (hstrategy : strategy.getD settings.strategy = .query)
    (db : Database) {table : Table} (hknown : schema.table? table.name = some table) {name : String}
    {relation : Relation} (hname : table.hasColumn name = false)
    (hrelation : table.relation? name = some relation) (hmany : relation.kind.isToMany = true)
    {target : Table} (htarget : schema.table? relation.target = some target)
    (args : RelationArgs) :
    let request := fun args : RelationArgs => Engine.findMany ⟨schema, settings⟩ table.name
      { included := some [(name, .relation args)], strategy }
    let find := fun args : RelationArgs => ((request args).hold Database.source db).result
    let branch := args.branch schema relation.target
    let cut := fun record : Record =>
      record.shown branch.shape.fields (branch.shape.relations.map (·.1))
    (∀ args, (request args).ReturnsOn db) ∧
    ∃ related : List (List Record),
      (∀ wholes, find (args.allColumns target).allRecords = .ok wholes →
        wholes.map (·.lookup name) = related.map fun records => some (.list records)) ∧
      (∀ others, find (args.allColumns target) = .ok others →
        others.map (·.lookup name) =
          related.map fun records => some (.list (branch.page records))) ∧
      ∀ owners, find args = .ok owners →
        owners.map (·.lookup name) =
          related.map (fun records => some (.list (branch.page (records.map cut)))) ∧
        (branch.distinct.getD [] ⊆ branch.shape.fields → owners.map (·.lookup name) =
          related.map fun records => some (.list ((branch.page records).map cut))) := by
  intro request find branch cut
  have htargetName : target.name = relation.target := h.consistent.table_name htarget
  have hproper : branch.shape.Proper schema target.name := htargetName ▸ args.branch_proper _
  obtain ⟨hcolumns, hnodup, hbranches⟩ := Shape.proper_iff.mp hproper
  obtain ⟨rows, linked, load, halike, hsorted, hgives⟩ := @exists_included db ⟨schema, settings⟩
    h.consistent strategy hstrategy table hknown name relation hname hrelation target htarget
    args.filter args.orderBy branch.shape.relations hbranches hnodup
  obtain ⟨hall, hbeneath⟩ := @shape_allColumns schema relation.target target htarget args
  have hlists : ∀ other : RelationArgs, other.filter = args.filter → other.orderBy = args.orderBy →
      (other.branch schema relation.target).shape.relations = branch.shape.relations →
      ∀ records, find other = .ok records → records.map (·.lookup name) = rows.map fun owner =>
        some (.list ((other.branch schema relation.target).page
          ((other.branch schema relation.target).shownFrom target relation.toColumn load
            (linked owner)))) := by
    intro other hfilter horder hrelations records hrecords
    have hother := hgives other hfilter horder hrelations
    rw [hmany] at hother
    exact hother.of_result hrecords
  let whole := (args.allColumns target).allRecords.branch schema relation.target
  let all := (args.allColumns target).branch schema relation.target
  have hshape : whole.shape = all.shape := by
    simp only [whole, all, RelationArgs.branch_eq]
    rfl
  have hpage : ∀ records, all.page records = branch.page records := by
    intro records
    simp only [all, branch, RelationArgs.branch_eq]
    rfl
  have hwhole : ∀ records, whole.page records = records := by
    intro records
    simp only [whole, RelationArgs.branch_eq]
    rfl
  have htargetKnown : schema.table? target.name = some target := htargetName.symm ▸ htarget
  have hshown : ∀ owner, branch.shownFrom target relation.toColumn load (linked owner) =
      (whole.shownFrom target relation.toColumn load (linked owner)).map cut := by
    intro owner
    have hsubset : branch.shape.fields ⊆ whole.shape.fields := by
      rw [hshape, hall]
      intro field hfield
      have hcolumn := hcolumns field hfield
      rw [Schema.hasColumn, htargetKnown] at hcolumn
      exact mem_columnNames.mpr hcolumn
    exact (shownFrom_cut htargetKnown halike hsorted (hshape ▸ hbeneath) hsubset _ _).symm
  have hsame : ∀ owner, all.shownFrom target relation.toColumn load (linked owner) =
      whole.shownFrom target relation.toColumn load (linked owner) := by
    intro owner
    exact (shownFrom_of_shape htargetKnown (hbeneath.symm ▸ halike) hsorted hshape _ _).symm
  refine ⟨fun other => findMany_returnsOn h.consistent hknown _ db,
    rows.map fun owner => whole.shownFrom target relation.toColumn load (linked owner),
    fun wholes hwholes => ?_, fun others hothers => ?_,
    fun owners howners => ⟨?_, fun hdistinct => ?_⟩⟩
  · rw [hlists (args.allColumns target).allRecords rfl rfl hbeneath wholes hwholes, List.map_map]
    exact List.map_congr_left fun owner _ => congrArg _ (congrArg _ (hwhole _))
  · rw [hlists (args.allColumns target) rfl rfl hbeneath others hothers, List.map_map]
    exact List.map_congr_left fun owner _ =>
      congrArg _ (congrArg _ ((hpage _).trans (congrArg _ (hsame owner))))
  · rw [hlists args rfl rfl rfl owners howners, List.map_map]
    exact List.map_congr_left fun owner _ =>
      congrArg _ (congrArg _ (congrArg _ (hshown owner)))
  · rw [hlists args rfl rfl rfl owners howners, List.map_map]
    refine List.map_congr_left fun owner _ => congrArg _ (congrArg _ ?_)
    refine (congrArg _ (hshown owner)).trans (page_map (fun column hcolumn record => ?_) _)
    exact Record.scalar_shown record _ (hdistinct hcolumn)

/-- The titles of the posts of each author, distinct by title and in their order. -/
theorem distinct_after_choice_blog :
    let args : RelationArgs :=
      { selected := some [("title", .flag true)], distinct := some ["title"]
        orderBy := some (.by "title" .ascending) }
    ∃ target, (Schema.ofDecls blogTables).table? "Post" = some target ∧
      let find := fun args : RelationArgs => ((Engine.findMany ⟨Schema.ofDecls blogTables, {}⟩ "Author"
        { included := some [("posts", .relation args)]
          strategy := some .query }).hold Database.source blogRows).result
      let branch := args.branch (Schema.ofDecls blogTables) "Post"
      let cut := fun record : Record =>
        record.shown branch.shape.fields (branch.shape.relations.map (·.1))
      ∃ (owners others wholes : List Record) (related : List (List Record)),
        find args = .ok owners ∧ find (args.allColumns target) = .ok others ∧
        find (args.allColumns target).allRecords = .ok wholes ∧
        wholes.map (·.lookup "posts") = related.map (fun records => some (.list records)) ∧
        others.map (·.lookup "posts") =
          related.map (fun records => some (.list (branch.page records))) ∧
        owners.map (·.lookup "posts") =
          related.map (fun records => some (.list (branch.page (records.map cut)))) ∧
        (branch.distinct.getD [] ⊆ branch.shape.fields → owners.map (·.lookup "posts") =
          related.map fun records => some (.list ((branch.page records).map cut))) := by
  intro args
  obtain ⟨known, hknown, hname⟩ := exists_blog_author
  obtain ⟨target, htarget⟩ := Option.isSome_iff_exists.mp
    (show ((Schema.ofDecls blogTables).table? "Post").isSome by decide +kernel)
  let relation := Relation.oneToMany "posts" "Post" "id" "authorId"
  have htable : ((Schema.ofDecls blogTables).table? "Author").map (fun table =>
      (table.hasColumn "posts", table.relation? "posts")) = some (false, some relation) := by
    decide +kernel
  rw [hknown, Option.map_some, Option.some_inj, Prod.mk.injEq] at htable
  have hfound := @distinct_after_choice _ reachable_blog {} (some .query) rfl blogRows known
    (hname ▸ hknown) "posts" relation htable.1 htable.2 rfl target htarget args
  rw [hname] at hfound
  obtain ⟨hreturns, related, hwholes, hothers, howners⟩ := hfound
  have hsortable : ∀ post ∈ (Schema.ofDecls blogTables).table? "Post",
      ∀ asked ∈ [args, args.allColumns post, (args.allColumns post).allRecords],
        (Engine.findMany ⟨Schema.ofDecls blogTables, {}⟩ "Author"
          { included := some [("posts", .relation asked)]
            strategy := some .query }).Sortable blogRows := by
    decide +kernel
  have hasked := hsortable target htarget
  obtain ⟨owners, hfoundOwners⟩ := hreturns args (hasked args (by simp))
  obtain ⟨others, hfoundOthers⟩ := hreturns _ (hasked (args.allColumns target) (by simp))
  obtain ⟨wholes, hfoundWholes⟩ := hreturns _ (hasked (args.allColumns target).allRecords (by simp))
  exact ⟨target, htarget, owners, others, wholes, related, hfoundOwners, hfoundOthers, hfoundWholes,
    hwholes wholes hfoundWholes, hothers others hfoundOthers, howners owners hfoundOwners⟩

/-- Posts with different titles are merged when their titles are not shown. -/
theorem distinct_merges_unshown :
    let found := fun args : RelationArgs =>
      ((Engine.findMany ⟨Schema.ofDecls blogTables, {}⟩ "Author"
        { included := some [("posts", .relation args)]
          strategy := some .query }).hold Database.source blogRows).result.toOption.map
            (List.map fun owner => (owner.lookup "posts").map fun node =>
              node.records.map (·.scalar "id"))
    found { distinct := some ["title"] } = some [some [.integer 1, .integer 2], some []] ∧
      found { selected := some [("id", .flag true)], distinct := some ["title"] } =
        some [some [.integer 1], some []] := by
  exact ⟨by decide +kernel, by decide +kernel⟩

end NestedQuery
