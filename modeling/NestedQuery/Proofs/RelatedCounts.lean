import NestedQuery.Proofs.BaseRecords

/-!
# How many related records a record holds

Relations are attached level by level, and much happens to a record after that:
deferred relations are filled in beneath it, hidden columns are dropped, and so
on for the records that it holds.  None of this changes how many records stand
under a relation.  What is fetched for an owner is as many rows as its value
leads to, in whatever order they come.
-/

namespace NestedQuery

variable {schema : Schema} {db : Database} {engine : Engine}

/-! ### Related records -/

/-- The related records that a record holds under a name. -/
def Record.related (record : Record) (name : String) : List Record :=
  ((record.lookup name).map Node.records).getD []

theorem Record.related_of_lookup {record : Record} {name : String} {node : Node}
    (h : record.lookup name = some node) : record.related name = node.records := by
  rw [Record.related, h]
  rfl

theorem Record.related_congr {one other : Record} {name : String}
    (h : one.lookup name = other.lookup name) : one.related name = other.related name := by
  rw [Record.related, Record.related, h]

/-- Dropping columns keeps the related records of relations that are shown. -/
theorem Record.related_shown (record : Record) (fields : List String) {relations : List String}
    {name : String} (h : name ∈ relations) :
    (record.shown fields relations).related name = record.related name := by
  refine Record.related_congr ?_
  rw [Record.lookup_shown, List.contains_iff_mem.mpr h, Bool.or_true, if_pos rfl]

/-- The function keeps how many records a record holds under each name. -/
def KeepsCounts (change : Record → Record) : Prop :=
  ∀ (record : Record) (name : String),
    ((change record).related name).length = (record.related name).length

theorem keepsCounts_id : KeepsCounts id :=
  fun _ _ => rfl

/-- Changing the records under a name keeps their number. -/
theorem keepsCounts_adjust (name : String) (change : Record → Record) :
    KeepsCounts (Dict.adjust name (Node.mapRecords change)) := by
  intro record other
  unfold Record.related
  rw [Dict.lookup_adjust]
  cases record.lookup other with
  | none => rfl
  | some node =>
      simp only [Option.map_some, Option.getD_some]
      split
      · rw [Node.records_mapRecords, List.length_map]
      · rfl

/-- So does stripping the records of joined relations. -/
theorem stripBranches_keepsCounts : ∀ (branches : List JoinedBranch),
    KeepsCounts (stripBranches branches)
  | [], record, name => by rw [stripBranches]
  | ⟨joined, _, _, layout⟩ :: rest, record, name => by
      rw [stripBranches]
      exact (stripBranches_keepsCounts rest _ name).trans
        (keepsCounts_adjust joined layout.strip record name)

/-- So does loading what was put off beneath them. -/
theorem loadDeferredBranches_keepsCounts {answer : Select → Except QueryError (List Row)} :
    ∀ (branches : List JoinedBranch) (records : List Record),
      (loadDeferredBranches schema branches records).Gives answer KeepsCounts
  | [], records => by
      rw [loadDeferredBranches]
      exact Load.gives_pure keepsCounts_id
  | ⟨joined, _, _, layout⟩ :: rest, records => by
      rw [loadDeferredBranches]
      refine Load.Gives.bind (fun _ _ => trivial : Load.Gives _ _ fun _ => True) fun change _ => ?_
      refine Load.Gives.bind (loadDeferredBranches_keepsCounts rest records) fun more hmore => ?_
      exact Load.gives_pure fun record name =>
        (hmore _ name).trans (keepsCounts_adjust joined change record name)

/-! ### What is fetched -/

/-- The branch shows all related rows, in whatever order, beside all owners. -/
structure BranchOf.ShowsAll (branch : Branch) : Prop where
  filter : branch.filter = none
  take : branch.take = none
  skip : branch.skip = none
  distinct : branch.distinct = none
  joinKind : branch.joinKind = .left

instance (branch : Branch) : Decidable branch.ShowsAll :=
  decidable_of_iff (branch.filter = none ∧ branch.take = none ∧ branch.skip = none ∧
      branch.distinct = none ∧ branch.joinKind = .left)
    ⟨fun ⟨filter, take, skip, distinct, joinKind⟩ => ⟨filter, take, skip, distinct, joinKind⟩,
      fun h => ⟨h.filter, h.take, h.skip, h.distinct, h.joinKind⟩⟩

/-- Its page is everything. -/
theorem BranchOf.ShowsAll.page {branch : Branch} (h : branch.ShowsAll) (records : List Record) :
    branch.page records = records := by
  unfold BranchOf.page
  rw [h.take, h.distinct, h.skip]
  rfl

/-- Without its ordering a branch is fetched the same, up to the order. -/
theorem fetch_unsorted (relation : Relation) (branch : Branch) (keys : List Value) :
    (fetch schema relation branch keys).Gives db.run fun related => ∃ others,
      (fetch schema relation { branch with orderBy := none } keys).resultFrom db.run = .ok others ∧
        related.Perm others := by
  have hrows : ∀ (target : Table) (link : String) (keys : List Value), ∃ rows others : List Row,
      db.run (relatedStatement schema target branch link keys) = .ok rows ∧
      db.run (relatedStatement schema target { branch with orderBy := none } link keys) =
        .ok others ∧ rows.Perm others := by
    intro target link keys
    exact ⟨_, _, run_relatedStatement target branch link keys, run_relatedStatement _ _ link keys,
      ((selected_perm_filter _ _ _).trans (selected_perm_filter _ _ _).symm).map _⟩
  unfold fetch
  split
  · exact Load.gives_pure ⟨_, rfl, List.Perm.refl _⟩
  cases relation.junction with
  | none =>
      unfold fetchDirect
      cases schema.table? relation.target with
      | none => exact Load.gives_pure ⟨_, rfl, List.Perm.refl _⟩
      | some target =>
          obtain ⟨rows, others, hrun, hothers, hperm⟩ := hrows target relation.toColumn keys
          refine Load.gives_ask hrun (Load.gives_pure ⟨_, ?_, hperm.map _⟩)
          exact Load.resultFrom_ask hothers
  | some junction =>
      have hlinks : db.run (linkStatement junction keys) = _ :=
        run_keyed junction.table junction.fromColumn (List.cons_ne_nil _ _) keys
      unfold fetchLinked
      refine Load.gives_ask hlinks ?_
      rw [Load.resultFrom_ask hlinks]
      dsimp only
      split
      · exact Load.gives_pure ⟨_, rfl, List.Perm.refl _⟩
      cases schema.table? relation.target with
      | none => exact Load.gives_pure ⟨_, rfl, List.Perm.refl _⟩
      | some target =>
          obtain ⟨rows, others, hrun, hothers, hperm⟩ := hrows target relation.toColumn _
          exact Load.gives_ask hrun (Load.gives_pure
            ⟨_, Load.resultFrom_ask hothers, hperm.flatMap_right _⟩)

/-- A relation leads nowhere from null. -/
theorem Relation.reached_null (relation : Relation) (rows : List Row) :
    relation.reached db rows .null = [] := by
  unfold Relation.reached
  cases relation.junction <;> simp [Value.meets_null]

/-- Without a filter a batch fetches, for each of its owners, as many rows as its value leads to. -/
theorem fetch_counts (hdb : db.Valid) (relation : Relation) {branch : Branch}
    (hfilter : branch.filter = none) {target : Table}
    (htarget : schema.table? relation.target = some target) (hname : target.name = relation.target)
    {values : List Value} (hvalues : ∀ value ∈ values, value.Valid) :
    (fetch schema relation branch (distinctKeys values)).Gives db.run fun related =>
      ∀ value ∈ values, value ≠ .null → (related.filter (·.owner == value.key)).length =
        (relation.reached db (db.rows relation.target) value).length := by
  have hsorts : Branch.Sorts schema db target { branch with orderBy := none } :=
    fun key hkey => nomatch hkey
  have hall : db.candidates schema target { branch with orderBy := none } =
      db.rows relation.target := by
    unfold Database.candidates
    rw [hfilter, ← hname]
    exact (selected_all target.name []).trans (rowsInOrder_nil _)
  intro related hrelated value hvalue hnull
  obtain ⟨others, hothers, hperm⟩ := fetch_unsorted relation branch _ related hrelated
  have hrecords := (fetch_records hdb relation htarget hsorts hvalues others hothers).2 value hvalue
    hnull
  rw [(hperm.filter _).length_eq, ← List.length_map (·.record), hrecords, Relation.recordsFor, htarget]
  dsimp only
  rw [List.length_map, hall]

/-! ### What is attached -/

/-- What was fetched for a relation of a batch: for every value of an owner as many rows as it leads
to. -/
def FetchedCounts (schema : Schema) (db : Database) (table : String) (owners : List Record)
    (entry : String × Branch) (related : List Related) : Prop :=
  ∀ relation, schema.relation? table entry.1 = some relation →
    ∀ value ∈ owners.map (·.scalar relation.fromColumn), value ≠ .null →
      (related.filter (·.owner == value.key)).length =
        (relation.reached db (db.rows relation.target) value).length

/-- For every relation of a level are fetched as many rows as its owners lead to. -/
theorem fetchLevel_counts (hschema : schema.Consistent) (hdb : db.Valid) {table : String}
    {branches : List (String × Branch)} (hproper : branchesProper schema branches table)
    (hall : ∀ entry ∈ branches, entry.2.ShowsAll) {owners : List Record}
    (howners : ∀ owner ∈ owners, owner.Valid) :
    (fetchLevel schema table branches owners).Gives db.run
      (List.Forall₂ (FetchedCounts schema db table owners) branches) := by
  refine fetchLevel_fits fun entry hentry => ?_
  obtain ⟨-, relation, hrelation, -⟩ := branchesProper_iff.mp hproper entry hentry
  obtain ⟨target, htarget, hname⟩ := hschema.target_known hrelation
  have hvalues : ∀ value ∈ owners.map (·.scalar relation.fromColumn), value.Valid :=
    List.forall_mem_map.mpr fun owner howner => howners owner howner relation.fromColumn
  refine ⟨relation, hrelation, fun related hrelated found hfound => ?_⟩
  rw [hrelation] at hfound
  cases hfound
  exact fetch_counts hdb relation (hall entry hentry).filter htarget hname hvalues related hrelated

/-- Related records keep their owners when they are finished. -/
theorem finishRelated_owners {answer : Select → Except QueryError (List Row)} (table : String)
    (shape : Shape) (related : List Related) :
    (finishRelated schema table shape related).Gives answer fun finished =>
      finished.map (·.owner) = related.map (·.owner) := by
  obtain ⟨fields, _, relations⟩ := shape
  rw [finishRelated]
  refine Load.Gives.bind (fun _ _ => trivial : Load.Gives _ _ fun _ => True) fun fetched _ => ?_
  refine Load.Gives.bind (fun _ _ => trivial : Load.Gives _ _ fun _ => True) fun load _ => ?_
  exact Load.gives_pure (by rw [List.map_map]; rfl)

/-- The function attaches the relations of a level: to an owner of a batch, under each relation to
many, as many records as its value leads to. -/
structure AttachesAll (schema : Schema) (db : Database) (table : String)
    (branches : List (String × Branch)) (owners : List Record) (load : Record → Record) : Prop where
  others : ∀ record name, name ∉ branches.map (·.1) → (load record).lookup name = record.lookup name
  counts : ∀ record, InBatch schema table branches owners record → ∀ entry ∈ branches,
    ∀ relation, schema.relation? table entry.1 = some relation → relation.kind.isToMany = true →
      ((load record).related entry.1).length =
        (relation.reached db (db.rows relation.target) (record.scalar relation.fromColumn)).length

/-- Attached are all records of an owner that were fetched. -/
theorem attach_count (name : String) {relation : Relation} (hmany : relation.kind.isToMany = true)
    {branch : Branch} (hall : branch.ShowsAll) {related : List Related} {record : Record}
    (hrelated : record.scalar relation.fromColumn ≠ .null →
      (related.filter (·.owner == (record.scalar relation.fromColumn).key)).length =
        (relation.reached db (db.rows relation.target) (record.scalar relation.fromColumn)).length) :
    ((attach name relation branch related record).related name).length =
      (relation.reached db (db.rows relation.target) (record.scalar relation.fromColumn)).length := by
  unfold attach
  rw [Record.related_of_lookup (Dict.lookup_put_self _ _ _), hall.page,
    Node.records_ofRelated fun hone => absurd (hone.symm.trans hmany) Bool.false_ne_true]
  split
  · next hnull =>
      have heq : record.scalar relation.fromColumn = .null := by
        by_contra hne
        rw [Value.isNull_eq_false.mpr hne] at hnull
        cases hnull
      rw [heq, relation.reached_null]
      rfl
  · next hnull =>
      rw [List.length_map]
      exact hrelated (Value.isNull_eq_false.mp (by simpa using hnull))

/-- Attaching what was fetched for a batch attaches all of it.  What is attached later stands under
other names, and the values of the owner remain. -/
theorem attachLevel_counts (hschema : schema.Consistent) {table : String}
    {branches : List (String × Branch)} {fetched : List (List Related)} {owners : List Record}
    (hproper : branchesProper schema branches table) (hnodup : (branches.map (·.1)).Nodup)
    (hall : ∀ entry ∈ branches, entry.2.ShowsAll)
    (hfetched : List.Forall₂ (FetchedCounts schema db table owners) branches fetched) :
    (attachLevel schema table branches fetched).Gives db.run
      (AttachesAll schema db table branches owners) := by
  induction hfetched with
  | nil =>
      rw [attachLevel]
      exact Load.gives_pure ⟨fun _ _ _ => rfl, fun _ _ entry hentry => nomatch hentry⟩
  | @cons entry related rest fetched hrelated _ ih =>
      obtain ⟨name, branch⟩ := entry
      obtain ⟨⟨hname, relation, hrelation, -⟩, hrest⟩ := hproper
      obtain ⟨hnew, hnodup⟩ := List.nodup_cons.mp hnodup
      obtain ⟨hfirst, hothers⟩ := List.forall_mem_cons.mp hall
      rw [attachLevel.eq_def]
      simp only [hrelation]
      refine Load.Gives.bind (finishRelated_owners _ _ _) fun finished howners => ?_
      refine Load.Gives.bind (ih hrest hnodup hothers) fun more hmore => ?_
      refine Load.gives_pure ⟨fun record other hother => ?_, fun record hbatch => ?_⟩
      · rw [List.map_cons, List.mem_cons, not_or] at hother
        rw [hmore.others _ _ hother.2]
        exact Dict.lookup_put_of_ne hother.1 _ _
      have hfinished : ∀ text, (finished.filter (·.owner == text)).length =
          (related.filter (·.owner == text)).length := by
        intro text
        have hcount := congrArg (List.countP (· == text)) howners
        rwa [List.countP_map, List.countP_map, List.countP_eq_length_filter,
          List.countP_eq_length_filter] at hcount
      refine List.forall_mem_cons.mpr ⟨?_, fun other hother found hfound hmany => ?_⟩
      · intro found hfound hmany
        rw [hrelation] at hfound
        cases hfound
        rw [Record.related_congr (hmore.others _ _ hnew)]
        refine attach_count name hmany hfirst fun hnull => ?_
        rw [hfinished]
        exact hrelated relation hrelation _ (hbatch _ List.mem_cons_self relation hrelation) hnull
      · have hscalar : ∀ key next, schema.relation? table key = some next →
            (attach name relation branch finished record).scalar next.fromColumn =
              record.scalar next.fromColumn :=
          fun key next hnext => Record.scalar_put_of_ne (hschema.fromColumn_ne hnext hname) _
        have hcount := hmore.counts (attach name relation branch finished record)
          (fun entry hentry next hnext => by
            rw [hscalar _ _ hnext]
            exact hbatch entry (List.mem_cons_of_mem _ hentry) next hnext)
          other hother found hfound hmany
        rwa [hscalar _ _ hfound] at hcount

/-- Loading the relations of a batch attaches all of them. -/
theorem loadBranches_counts (hschema : schema.Consistent) (hdb : db.Valid) {table : String}
    {branches : List (String × Branch)} (hproper : branchesProper schema branches table)
    (hnodup : (branches.map (·.1)).Nodup) (hall : ∀ entry ∈ branches, entry.2.ShowsAll)
    {owners : List Record} (howners : ∀ owner ∈ owners, owner.Valid) :
    (loadBranches schema table branches owners).Gives db.run
      (AttachesAll schema db table branches owners) :=
  Load.Gives.bind (fetchLevel_counts hschema hdb hproper hall howners) fun _ hfetched =>
    attachLevel_counts hschema hproper hnodup hall hfetched

/-! ### Records of rows -/

/-- A record of a row: it shows the fields of the row, and under each relation to many it holds as
many related records as `count` says. -/
structure Record.Counts (schema : Schema) (shape : Shape) (table : String) (row : Row)
    (count : String → Nat) (record : Record) : Prop where
  fields : ∀ field ∈ shape.fields, record.scalar field = row.value field
  related : ∀ entry ∈ shape.relations, ∀ relation,
    schema.relation? table entry.1 = some relation → relation.kind.isToMany = true →
      (record.related entry.1).length = count entry.1

/-- How many rows the named relation of a table leads to from a row, each once for every link. -/
def Schema.linkedCount (schema : Schema) (db : Database) (table : String) (row : Row)
    (name : String) : Nat :=
  match schema.relation? table name with
  | some relation =>
    (relation.reached db (db.rows relation.target) (row.value relation.fromColumn)).length
  | none => 0

theorem Schema.linkedCount_of_relation {table name : String} {relation : Relation}
    (h : schema.relation? table name = some relation) (row : Row) :
    schema.linkedCount db table row name =
      (relation.reached db (db.rows relation.target) (row.value relation.fromColumn)).length := by
  rw [Schema.linkedCount, h]

/-- By separate statements a request finds a record of each row that it shows, with all rows that
its relations lead to.  Without columns there are only as many empty records as rows. -/
theorem findSeparately_counts (hschema : engine.schema.Consistent) (hdb : db.Valid) {table : Table}
    (hknown : engine.schema.table? table.name = some table) {args : FindArgs}
    (hdistinct : args.distinct = none) {shape : Shape}
    (hproper : shape.Proper engine.schema table.name)
    (hall : ∀ entry ∈ shape.relations, entry.2.ShowsAll) (paging : Paging) :
    (engine.findSeparately table args paging shape).Gives db.run
      (List.Forall₂ (fun row record => record.Counts engine.schema shape table.name row
        (engine.schema.linkedCount db table.name row)) (engine.shownRows db table args paging)) := by
  obtain ⟨hcolumns, hnodup, hbranches⟩ := Shape.proper_iff.mp hproper
  by_cases hnone : withHidden shape.fields (table.linkColumns (shape.relations.map (·.1))) = []
  · obtain ⟨hfields, hrelations⟩ := shown_nothing hproper hknown hnone
    obtain ⟨rows, hrun, hlength⟩ := run_of_selected_bare
      (show plainOutputs table.name (withHidden shape.fields
        (table.linkColumns (shape.relations.map (·.1)))) = [] by rw [hnone]; rfl)
      (selectRows_base hdistinct _)
    unfold Engine.findSeparately
    refine Load.gives_ask hrun ?_
    refine Load.Gives.bind (fun _ _ => trivial : Load.Gives _ _ fun _ => True) fun load _ => ?_
    refine Load.gives_pure (List.forall₂_iff_zip.mpr ⟨?_, fun _ => ⟨?_, ?_⟩⟩)
    · rw [List.length_map, List.length_map, hlength, cut_map, List.length_map]
      rfl
    · rw [hfields]
      exact fun _ hfield => nomatch hfield
    · rw [hrelations]
      exact fun _ hentry => nomatch hentry
  · unfold Engine.findSeparately
    refine Load.gives_ask (run_base hdistinct hnone) ?_
    refine Load.Gives.bind (loadBranches_counts hschema hdb hbranches hnodup hall
      (List.forall_mem_map.mpr (List.forall_mem_map.mpr fun row hrow =>
        Row.only_valid (hdb table.name row (shownRows_subset hrow)) _))) fun load hload => ?_
    refine Load.gives_pure ?_
    rw [List.map_map, List.map_map]
    refine List.forall₂_map_right_iff.mpr (List.forall₂_same.mpr fun row hrow => ?_)
    have hmirrors := row.toRecord_only_mirrors
      (withHidden shape.fields (table.linkColumns (shape.relations.map (·.1))))
    refine ⟨fun field hfield => ?_, fun entry hentry relation hrelation hmany => ?_⟩
    · rw [Function.comp_apply, Function.comp_apply, Record.scalar_shown _ _ hfield, Record.scalar,
        hload.others _ _ (fields_disjoint hcolumns hbranches field hfield)]
      exact hmirrors.scalar (mem_withHidden.mpr (Or.inl hfield))
    · have hlink := mem_linkColumns hknown (List.mem_map_of_mem hentry) hrelation
      rw [Function.comp_apply, Function.comp_apply,
        Record.related_shown _ _ (List.mem_map_of_mem hentry),
        hload.counts _ (fun _ _ _ _ => List.mem_map_of_mem (List.mem_map_of_mem
          (List.mem_map_of_mem hrow))) entry hentry relation hrelation hmany,
        hmirrors.scalar (mem_withHidden.mpr (Or.inr hlink)),
        Schema.linkedCount_of_relation hrelation]

/-! ### Records of joined rows -/

/-- A record that is found comes from an assembled one: its fields are the same, under joined
relations it holds as many related records, and under those that were put off as many as its value
leads to. -/
structure Layout.Finishes (schema : Schema) (db : Database) (layout : Layout)
    (record found : Record) : Prop where
  fields : ∀ field ∈ layout.fields, found.scalar field = record.scalar field
  joined : ∀ joined ∈ layout.relations,
    (found.related joined.name).length = (record.related joined.name).length
  deferred : ∀ entry ∈ layout.deferred, ∀ relation,
    schema.relation? layout.table entry.1 = some relation → relation.kind.isToMany = true →
      (found.related entry.1).length =
        (relation.reached db (db.rows relation.target) (record.scalar relation.fromColumn)).length

/-- Stripping keeps the fields of a record. -/
theorem strip_scalar {shape : Shape} {table : String} {layout : Layout}
    (hplanned : shape.Planned schema table layout) (hproper : shape.Proper schema table)
    {record : Record} (hsorted : Dict.Sorted record) {field : String} (hfield : field ∈ shape.fields) :
    (layout.strip record).scalar field = record.scalar field := by
  rw [← Record.scalar_shown (layout.strip record) [] hfield, strip_shown hplanned hproper hsorted,
    Record.scalar_shown _ _ hfield]

/-- Stripping keeps how many records stand under the relations. -/
theorem strip_related (layout : Layout) (record : Record) {name : String}
    (h : name ∈ layout.relations.map (·.name) ++ layout.deferred.map (·.1)) :
    ((layout.strip record).related name).length = (record.related name).length := by
  obtain ⟨_, _, _, _, _, _, _, _, relations, deferred⟩ := layout
  rw [Layout.strip, stripBranches_keepsCounts, Record.related_shown _ _ h]

/-- Loading what was put off attaches all of it, and keeps how many records stand under other
names. -/
theorem loadDeferred_counts (hschema : schema.Consistent) (hdb : db.Valid) {layout : Layout}
    (hproper : branchesProper schema layout.deferred layout.table)
    (hnodup : (layout.deferred.map (·.1)).Nodup) (hall : ∀ entry ∈ layout.deferred, entry.2.ShowsAll)
    {records : List Record} (hrecords : ∀ record ∈ records, record.Valid) :
    (layout.loadDeferred schema records).Gives db.run fun load => ∀ record ∈ records,
      (∀ name, name ∉ layout.deferred.map (·.1) →
        ((load record).related name).length = (record.related name).length) ∧
      ∀ entry ∈ layout.deferred, ∀ relation,
        schema.relation? layout.table entry.1 = some relation → relation.kind.isToMany = true →
          ((load record).related entry.1).length = (relation.reached db (db.rows relation.target)
            (record.scalar relation.fromColumn)).length := by
  obtain ⟨table, _, _, _, _, _, _, _, relations, deferred⟩ := layout
  rw [Layout.loadDeferred]
  refine Load.Gives.bind (loadBranches_counts hschema hdb hproper hnodup hall hrecords)
    fun here hhere => ?_
  refine Load.Gives.bind (loadDeferredBranches_keepsCounts relations _) fun beneath hbeneath => ?_
  refine Load.gives_pure fun record hrecord => ⟨fun name hname => ?_, ?_⟩
  · rw [hbeneath, Record.related_congr (hhere.others record name hname)]
  · intro entry hentry relation hrelation hmany
    rw [hbeneath]
    exact hhere.counts record (fun _ _ _ _ => List.mem_map_of_mem hrecord) entry hentry relation
      hrelation hmany

/-- By a joined statement a request finds records that come from those assembled of its rows, one by
one. -/
theorem findJoined_finishes (hschema : engine.schema.Consistent) (hdb : db.Valid) {table : Table}
    {args : FindArgs} {shape : Shape} (hproper : shape.Proper engine.schema table.name)
    (hall : ∀ entry ∈ shape.relations, entry.2.ShowsAll) (paging : Paging) {layout : Layout}
    {planner : Planner} (hplanned : shape.Planned engine.schema table.name layout) {rows : List Row}
    (hrun : db.run (engine.joinedStatement table args paging layout planner) = .ok rows)
    (hvalid : ∀ record ∈ layout.assemble rows, record.Valid) :
    (engine.findJoined table args paging layout planner).Gives db.run
      (List.Forall₂ (layout.Finishes engine.schema db) (if layout.fansOut then
          pageOf paging.skip paging.size
            (distinctBy (table.distinctColumns args.distinct) (layout.assemble rows))
        else layout.assemble rows)) := by
  have hpaged : (if layout.fansOut then pageOf paging.skip paging.size
      (distinctBy (table.distinctColumns args.distinct) (layout.assemble rows))
        else layout.assemble rows) ⊆ layout.assemble rows := by
    split
    · exact List.Subset.trans (pageOf_subset _ _ _) (distinctBy_subset _ _)
    · exact List.Subset.refl _
  obtain ⟨-, hnodup, hbranches⟩ := Shape.proper_iff.mp hproper
  have hrelations : BranchesPlanned engine.schema shape.relations layout.table layout.relations
      layout.deferred := hplanned.table_eq ▸ hplanned.branches
  obtain ⟨-, hnodupDeferred, hapart⟩ := hrelations.nodup hnodup
  unfold Engine.findJoined
  refine Load.gives_ask hrun ?_
  refine Load.Gives.bind (fun load hload => And.intro
    (loadDeferred_others hplanned hproper _ load hload)
    (loadDeferred_counts hschema hdb (hrelations.deferred_proper (hplanned.table_eq ▸ hbranches))
      hnodupDeferred (fun entry hentry => hall entry (hrelations.deferred_subset hentry))
      (fun record hrecord => hvalid record (hpaged hrecord)) load hload)) ?_
  rintro load ⟨hothers, hcounts⟩
  refine Load.gives_pure (List.forall₂_map_right_iff.mpr (List.forall₂_same.mpr fun record hrecord => ?_))
  obtain ⟨hsorted, hfields⟩ := hothers record (layout.sorted_assemble rows record (hpaged hrecord))
  obtain ⟨hkept, hloaded⟩ := hcounts record hrecord
  refine ⟨fun field hfield => ?_, fun joined hjoined => ?_, fun entry hentry relation hrelation hmany => ?_⟩
  · rw [hplanned.fields_eq] at hfield
    rw [strip_scalar hplanned hproper hsorted hfield, Record.scalar, hfields field hfield]
    rfl
  · have hname : joined.name ∈ layout.relations.map (·.name) := List.mem_map_of_mem hjoined
    rw [strip_related _ _ (List.mem_append_left _ hname), hkept _ (hapart _ hname)]
  · rw [strip_related _ _ (List.mem_append_right _ (List.mem_map_of_mem hentry)),
      hloaded entry hentry relation hrelation hmany]

end NestedQuery
