import NestedQuery.Proofs.DeclaredKeys
import NestedQuery.Proofs.SchemaRuns

/-!
# Undeclared columns in the distinct list of a relation

The columns that a relation is to be distinct by need not be declared by its
target.  Those that are not do not get into any statement; what is left of them is
the keys under which related records are compared.  So a request and the request
without them ask the same statements, and take the same pages of the same related
records, joined or loaded afterwards, as long as the declared columns tell these
records apart just as well.
-/

namespace NestedQuery

variable {schema : Schema} {db : Database}

/-! ### Dialogues with the same result -/

/-- Dialogues go on to the same result from the same result. -/
theorem Load.resultFrom_bind_congr {α β : Type} {answer : Select → Except QueryError (List Row)}
    {one other : Load α} {next more : α → Load β}
    (h : one.resultFrom answer = other.resultFrom answer)
    (hnext : ∀ result, other.resultFrom answer = .ok result →
      (next result).resultFrom answer = (more result).resultFrom answer) :
    (one >>= next).resultFrom answer = (other >>= more).resultFrom answer := by
  rw [Load.resultFrom_bind, Load.resultFrom_bind, h]
  cases hresult : other.resultFrom answer with
  | error error => rfl
  | ok result => exact hnext result hresult

/-! ### Records that are made distinct -/

theorem Value.free_null : Value.null.FreeOfSeparator := by
  decide

/-- An entry of related records is no scalar but null. -/
theorem Node.OfKind.scalar_null {isToMany : Bool} {node : Node} (h : node.OfKind isToMany) :
    node.scalar?.getD .null = .null := by
  cases node with
  | scalar value => exact h.2
  | object record => rfl
  | list records => rfl

/-- A record that fits a proper shape binds no value to an undeclared column. -/
theorem Shape.Fits.undeclared {shape : Shape} {table : String} (hproper : shape.Proper schema table)
    {record : Record} (h : shape.Fits schema table record) {column : String}
    (hcolumn : schema.hasColumn table column = false) : record.scalar column = .null := by
  obtain ⟨hfields, -, -⟩ := Shape.proper_iff.mp hproper
  obtain ⟨fields, excluded, relations⟩ := shape
  rw [Shape.Fits] at h
  obtain ⟨-, hnames, hbranches⟩ := h
  unfold Record.scalar
  cases hfound : record.lookup column with
  | none => rfl
  | some node =>
      have hmem : column ∈ Dict.names record :=
        Dict.lookup_isSome_iff.mp (by rw [hfound]; rfl)
      rcases hnames column hmem with hfield | hrelation
      · rw [hfields column hfield] at hcolumn
        cases hcolumn
      · obtain ⟨entry, hentry, rfl⟩ := List.mem_map.mp hrelation
        obtain ⟨relation, other, -, hother, hkind, -⟩ := branchesFit_iff.mp hbranches entry hentry
        cases hfound.symm.trans hother
        exact hkind.scalar_null

/-- The keys of the values of the record are free of separators if those of the database are. -/
def Record.FreeIn (db : Database) (record : Record) : Prop :=
  db.FreeOfSeparator → ∀ column, (record.scalar column).FreeOfSeparator

/-- The record of a row that a statement yields holds values of the database. -/
theorem Row.toRecord_freeIn {statement : Select} (hlabel : statement.label = none)
    (hscoped : selectScoped statement [])
    (hcolumns : ∀ output ∈ statement.outputs, ∃ ref label, output = .column ref label)
    {rows : List Row} (hrun : db.run statement = .ok rows) {row : Row} (hrow : row ∈ rows) :
    row.toRecord.FreeIn db := by
  intro hfree column
  unfold Record.scalar Row.toRecord
  rw [Dict.lookup_mapValues]
  cases hfound : row.lookup column with
  | none => exact Value.free_null
  | some value =>
      exact run_values Value.free_null hfree.rows hlabel hscoped hcolumns hrun row hrow _
        (Dict.mem_of_lookup hfound)

theorem fetch_freeIn (relation : Relation) (branch : Branch) (keys : List Value) :
    (fetch schema relation branch keys).Gives db.run fun related =>
      ∀ one ∈ related, one.record.FreeIn db := by
  intro related hrelated one hone
  obtain ⟨target, keys, rows, hrun, row, hrow, heq⟩ :=
    fetch_rows relation branch keys related hrelated one hone
  obtain ⟨columns, houtputs, -⟩ :=
    @relatedStatement_outputs schema target branch relation.toColumn keys
  rw [heq]
  refine Row.toRecord_freeIn ?_
    (relatedStatement_wellScoped target branch relation.toColumn keys).clauses ?_ hrun hrow
  · rw [relatedStatement_clauses]
  · rw [houtputs]
    exact List.forall_mem_map.mpr fun _ _ => ⟨_, _, rfl⟩

/-- Attaching relations adds no scalar but null. -/
theorem Attaches.freeIn {table : String} {branches : List (String × Branch)}
    {load : Record → Record} (h : Attaches schema table branches load) {record : Record}
    (hrecord : record.FreeIn db) : (load record).FreeIn db := by
  intro hfree column
  by_cases hmem : column ∈ branches.map (·.1)
  · obtain ⟨entry, hentry, rfl⟩ := List.mem_map.mp hmem
    obtain ⟨relation, node, -, hnode, hkind, -⟩ := branchesFit_iff.mp (h.fits record) entry hentry
    unfold Record.scalar
    rw [hnode, Option.bind_some, hkind.scalar_null]
    exact Value.free_null
  · unfold Record.scalar
    rw [h.others record column hmem]
    exact hrecord hfree column

theorem Record.FreeIn.shown {record : Record} (h : record.FreeIn db)
    (fields relations : List String) : (record.shown fields relations).FreeIn db := by
  intro hfree column
  unfold Record.scalar
  rw [Record.lookup_shown]
  split
  · exact h hfree column
  · exact Value.free_null

/-- What may be fetched for a relation: records that carry the fields of its shape, and values of
the database. -/
def FetchedFrom (db : Database) (shape : Shape) (related : List Related) : Prop :=
  ∀ one ∈ related, one.record.Carries shape.fields ∧ one.record.FreeIn db

/-- Related records are finished to such that are compared by their declared columns. -/
theorem finishRelated_within {table : String} {shape : Shape} {related : List Related}
    (hproper : shape.Proper schema table) (hrelated : FetchedFrom db shape related) :
    (finishRelated schema table shape related).Gives db.run fun finished =>
      ∀ one ∈ finished, one.record.Within schema db table := by
  have hfits := @finishRelated_gives schema db _ _ _ hproper fun one hone => (hrelated one hone).1
  have hfree : (finishRelated schema table shape related).Gives db.run fun finished =>
      ∀ one ∈ finished, one.record.FreeIn db := by
    obtain ⟨-, hnodup, hbranches⟩ := Shape.proper_iff.mp hproper
    obtain ⟨fields, excluded, relations⟩ := shape
    rw [finishRelated]
    refine Load.Gives.bind (fetchLevel_gives (fun entry hentry => ?_) _) fun fetched hfetched => ?_
    · obtain ⟨-, relation, hrelation, -⟩ := branchesProper_iff.mp hbranches entry hentry
      exact ⟨relation, hrelation⟩
    · refine Load.Gives.bind (attachLevel_gives hbranches hnodup hfetched) fun load hload => ?_
      refine Load.gives_pure fun one hone => ?_
      obtain ⟨before, hbefore, rfl⟩ := List.mem_map.mp hone
      exact (hload.freeIn (hrelated before hbefore).2).shown _ _
  exact fun finished hfinished one hone =>
    ⟨fun _ => (hfits finished hfinished one hone).undeclared hproper,
      hfree finished hfinished one hone⟩

/-- Where the relations of a level are known, what is fetched for them is such. -/
theorem fetchLevel_from {table : String} {branches : List (String × Branch)}
    (hproper : branchesProper schema branches table) (owners : List Record) :
    (fetchLevel schema table branches owners).Gives db.run
      (List.Forall₂ (fun entry => FetchedFrom db entry.2.shape) branches) := by
  refine fetchLevel_fits fun entry hentry => ?_
  obtain ⟨-, relation, hrelation, -⟩ := branchesProper_iff.mp hproper entry hentry
  exact ⟨relation, hrelation, fun related hrelated one hone =>
    ⟨fetch_gives relation entry.2 _ related hrelated one hone,
      fetch_freeIn relation entry.2 _ related hrelated one hone⟩⟩

/-- Records attached to an owner are the same by the columns that are left. -/
theorem attach_declaring (name : String) (relation : Relation) (branch : Branch)
    {related : List Related}
    (h : ∀ one ∈ related, one.record.Within schema db relation.target) :
    attach name relation (branch.revised (Revision.declaring schema db) relation.target) related =
      attach name relation branch related := by
  funext record
  unfold attach
  dsimp only
  rw [page_declaring branch fun other hother => ?_]
  split at hother
  · cases hother
  · obtain ⟨one, hone, rfl⟩ := List.mem_map.mp hother
    exact h one (List.mem_filter.mp hone).1

mutual

/-- What was fetched for a level is attached in the same way.  The induction is on the shape.  What
is attached for a relation depends on its page alone, and its page on records that have been
finished by then. -/
theorem attachLevel_declaring : ∀ {branches : List (String × BranchOf Shape)} {table : String}
    {fetched : List (List Related)}, branchesProper schema branches table →
    List.Forall₂ (fun entry => FetchedFrom db entry.2.shape) branches fetched →
    (attachLevel schema table (branchesRevised (Revision.declaring schema db) branches table)
      fetched).resultFrom db.run = (attachLevel schema table branches fetched).resultFrom db.run
  | [], table, fetched, _, _ => by
      rw [branchesRevised]
  | (name, ⟨shape, filter, orderBy, take, skip, distinct, joinKind⟩) :: rest, table, fetched,
      hproper, hfetched => by
      rw [branchesProper] at hproper
      obtain ⟨⟨-, relation, hrelation, hshape⟩, hrest⟩ := hproper
      cases hfetched with
      | @cons _ related _ others hrelated hothers =>
          rw [branchesRevised, attachLevel.eq_def, attachLevel.eq_def schema table (_ :: rest)]
          simp only [hrelation, Schema.targetOf_eq hrelation]
          refine Load.resultFrom_bind_congr (finishRelated_declaring hshape hrelated)
            fun finished hfinished => ?_
          refine Load.resultFrom_bind_congr (attachLevel_declaring hrest hothers) fun more _ => ?_
          have hattach := attach_declaring name relation
            ⟨shape, filter, orderBy, take, skip, distinct, joinKind⟩
            (finishRelated_within hshape hrelated finished hfinished)
          unfold BranchOf.revised at hattach
          rw [hattach]

/-- Related records are finished in the same way. -/
theorem finishRelated_declaring : ∀ {shape : Shape} {table : String} {related : List Related},
    shape.Proper schema table → FetchedFrom db shape related →
    (finishRelated schema table (shape.revised (Revision.declaring schema db) table)
      related).resultFrom db.run = (finishRelated schema table shape related).resultFrom db.run
  | ⟨fields, excluded, relations⟩, table, related, hproper, hrelated => by
      rw [Shape.Proper] at hproper
      obtain ⟨-, -, hbranches⟩ := hproper
      rw [Shape.revised, finishRelated, finishRelated, fetchLevel_revised _ rfl,
        branchesRevised_names]
      refine Load.resultFrom_bind_congr rfl fun fetched hfetched => ?_
      exact Load.resultFrom_bind_congr (attachLevel_declaring hbranches
        (fetchLevel_from hbranches _ fetched hfetched)) fun load _ => rfl

end

/-- Relations are loaded in the same way. -/
theorem loadBranches_declaring {branches : List (String × Branch)} {table : String}
    (hproper : branchesProper schema branches table) (owners : List Record) :
    (loadBranches schema table (branchesRevised (Revision.declaring schema db) branches table)
      owners).resultFrom db.run = (loadBranches schema table branches owners).resultFrom db.run := by
  unfold loadBranches
  rw [fetchLevel_revised _ rfl]
  exact Load.resultFrom_bind_congr rfl fun fetched hfetched =>
    attachLevel_declaring hproper (fetchLevel_from hproper owners fetched hfetched)

/-! ### Joined relations -/

/-- The keys of the values in the rows are free of separators if those of the database are. -/
def RowsFreeIn (db : Database) (rows : List Row) : Prop :=
  db.FreeOfSeparator → ∀ row ∈ rows, ∀ entry ∈ row, entry.2.FreeOfSeparator

/-- The entries of joined relations are entries of related records. -/
theorem assembleBranches_scalar (branches : List JoinedBranch) (rows : List Row) :
    ∀ entry ∈ assembleBranches branches rows, entry.2.scalar?.getD .null = .null := by
  induction branches with
  | nil => exact fun entry hentry => nomatch hentry
  | cons joined rest ih =>
      obtain ⟨name, isToMany, branch, layout⟩ := joined
      rw [assembleBranches]
      exact List.forall_mem_cons.mpr ⟨(Node.ofRelated_ofKind _ _).scalar_null, ih⟩

/-- The columns of a group of rows are those of the layout, with values of the rows. -/
theorem columnValues_scalar (layout : Layout) (group : List Row) (column : String) :
    (layout.columnValues group).scalar column = .null ∨ column ∈ layout.columns ∧
      ∃ row ∈ group, ∃ entry ∈ row, (layout.columnValues group).scalar column = entry.2 := by
  unfold Record.scalar
  cases hfound : (layout.columnValues group).lookup column with
  | none => exact Or.inl rfl
  | some node =>
      unfold Layout.columnValues at hfound
      rw [Dict.lookup_ofPairs] at hfound
      have hpair := List.mem_reverse.mp (Dict.mem_of_lookup hfound)
      obtain ⟨⟨known, output⟩, hknown, heq⟩ := List.mem_map.mp hpair
      cases heq
      rw [Option.bind_some, Node.scalar?, Option.getD_some]
      cases group with
      | nil => exact Or.inl rfl
      | cons row rest =>
          rw [List.head?_cons, Option.bind_some]
          cases hvalue : row.lookup output with
          | none => exact Or.inl rfl
          | some value => exact Or.inr ⟨(List.of_mem_zip hknown).1, row, List.mem_cons_self, _,
              Dict.mem_of_lookup hvalue, rfl⟩

/-- Records assembled from joined rows are compared by their declared columns. -/
theorem assembled_within {layout : Layout}
    (hknown : ∀ column ∈ layout.columns, schema.hasColumn layout.table column) {rows : List Row}
    (hrows : RowsFreeIn db rows) :
    ∀ record ∈ layout.assemble rows, record.Within schema db layout.table := by
  obtain ⟨table, qualifier, lead, fields, columns, outputs, key, identity, relations, deferred⟩ :=
    layout
  intro record hrecord
  rw [Layout.assemble] at hrecord
  obtain ⟨group, hgroup, rfl⟩ := List.mem_map.mp hrecord
  let layout : Layout :=
    ⟨table, qualifier, lead, fields, columns, outputs, key, identity, relations, deferred⟩
  have hscalar : ∀ column, Record.scalar (Dict.putAll (layout.columnValues group)
      (assembleBranches relations group)) column = .null ∨ column ∈ columns ∧
        ∃ row ∈ group, ∃ entry ∈ row, Record.scalar (Dict.putAll (layout.columnValues group)
          (assembleBranches relations group)) column = entry.2 := by
    intro column
    rw [Record.scalar, Dict.lookup_putAll]
    cases hentry : (assembleBranches relations group).reverse.lookup column with
    | none =>
        rw [Option.none_or]
        exact columnValues_scalar layout group column
    | some node =>
        exact Or.inl (assembleBranches_scalar relations group _
          (List.mem_reverse.mp (Dict.mem_of_lookup hentry)))
  constructor
  · intro column hcolumn
    rcases hscalar column with hnull | ⟨hmem, -⟩
    · exact hnull
    · rw [hknown column hmem] at hcolumn
      cases hcolumn
  · intro hfree column
    rcases hscalar column with hnull | ⟨-, row, hrow, entry, hentry, hvalue⟩
    · exact hnull ▸ Value.free_null
    · exact hvalue ▸ hrows hfree row (Layout.groups_subset layout hgroup hrow) entry hentry

/-- A planned layout carries no column that its table does not declare. -/
theorem Shape.Planned.declared {shape : Shape} {table : String} {layout : Layout}
    (h : shape.Planned schema table layout) :
    ∀ column ∈ layout.columns, schema.hasColumn layout.table column := by
  cases h with
  | intro htable _ _ _ _ hknown _ => exact htable ▸ hknown

mutual

/-- Rows are folded into the same records. -/
theorem assemble_declaring : ∀ {shape : Shape} {table : String} {layout : Layout},
    shape.Planned schema table layout → ∀ {rows : List Row}, RowsFreeIn db rows →
    (layout.revised (Revision.declaring schema db)).assemble rows = layout.assemble rows
  | ⟨fields, excluded, relations⟩, table,
      ⟨layoutTable, qualifier, lead, layoutFields, columns, outputs, key, identity, joined, deferred⟩,
      .intro htable hfields hkey hcarried hlinked hknown hrelations, rows, hrows => by
      cases htable
      rw [Layout.revised, Layout.assemble, Layout.assemble]
      refine List.map_congr_left fun group hgroup => ?_
      rw [assembleBranches_declaring hrelations fun hfree row hrow =>
        hrows hfree row (Layout.groups_subset _ hgroup hrow)]
      rfl

theorem assembleBranches_declaring : ∀ {relations : List (String × BranchOf Shape)}
    {table : String} {joined : List JoinedBranch} {deferred : List (String × Branch)},
    BranchesPlanned schema relations table joined deferred → ∀ {rows : List Row},
    RowsFreeIn db rows →
    assembleBranches (joinedRevised (Revision.declaring schema db) joined table) rows =
      assembleBranches joined rows
  | _, _, _, _, .nil, rows, _ => by
      rw [joinedRevised]
  | _, _, _, _, .joined hjoinable hlayout hlead hrest, rows, hrows => by
      have hwithin := @assembled_within schema db _ hlayout.declared rows hrows
      rw [joinedRevised, assembleBranches, assembleBranches, assemble_declaring hlayout hrows,
        assembleBranches_declaring hrest hrows,
        Schema.targetOf_eq (joinable?_eq_some hjoinable).1, page_declaring]
      exact hlayout.table_eq ▸ hwithin
  | _, _, _, _, .deferred hjoinable hrelation hrest, rows, hrows =>
      assembleBranches_declaring hrest hrows

end

mutual

/-- Relations that were put off are loaded in the same way. -/
theorem loadDeferred_declaring : ∀ {shape : Shape} {table : String} {layout : Layout},
    shape.Planned schema table layout → shape.Proper schema table → ∀ (records : List Record),
    ((layout.revised (Revision.declaring schema db)).loadDeferred schema records).resultFrom db.run =
      (layout.loadDeferred schema records).resultFrom db.run
  | ⟨fields, excluded, relations⟩, table,
      ⟨layoutTable, qualifier, lead, layoutFields, columns, outputs, key, identity, joined, deferred⟩,
      .intro htable hfields hkey hcarried hlinked hknown hrelations, hproper, records => by
      cases htable
      rw [Shape.Proper] at hproper
      obtain ⟨-, -, hbranches⟩ := hproper
      rw [Layout.revised, Layout.loadDeferred, Layout.loadDeferred]
      refine Load.resultFrom_bind_congr
        (loadBranches_declaring (hrelations.deferred_proper hbranches) records) fun here _ => ?_
      exact Load.resultFrom_bind_congr
        (loadDeferredBranches_declaring hrelations hbranches _) fun beneath _ => rfl

theorem loadDeferredBranches_declaring : ∀ {relations : List (String × BranchOf Shape)}
    {table : String} {joined : List JoinedBranch} {deferred : List (String × Branch)},
    BranchesPlanned schema relations table joined deferred →
    branchesProper schema relations table → ∀ (records : List Record),
    (loadDeferredBranches schema (joinedRevised (Revision.declaring schema db) joined table)
      records).resultFrom db.run = (loadDeferredBranches schema joined records).resultFrom db.run
  | _, _, _, _, .nil, _, records => by
      rw [joinedRevised]
  | _, _, _, _, .joined hjoinable hlayout hlead hrest, hproper, records => by
      obtain ⟨⟨-, relation, hrelation, hshape⟩, hothers⟩ :=
        List.forall_mem_cons.mp (branchesProper_iff.mp hproper)
      rw [(joinable?_eq_some hjoinable).1] at hrelation
      cases hrelation
      rw [joinedRevised, loadDeferredBranches, loadDeferredBranches]
      refine Load.resultFrom_bind_congr (loadDeferred_declaring hlayout hshape _) fun change _ => ?_
      exact Load.resultFrom_bind_congr (loadDeferredBranches_declaring hrest
        (branchesProper_iff.mpr hothers) records) fun more _ => rfl
  | _, _, _, _, .deferred hjoinable hrelation hrest, hproper, records =>
      loadDeferredBranches_declaring hrest
        (branchesProper_iff.mpr (List.forall_mem_cons.mp (branchesProper_iff.mp hproper)).2) records

end

/-! ### Requests -/

section Requests

variable {settings : Settings} {table : Table} {shape : Shape}
  (hproper : shape.Proper schema table.name) (args : FindArgs) (paging : Paging)

include hproper

/-- By a joined statement the same records are found. -/
theorem findJoined_declaring {layout : Layout} {planner : Planner}
    (hplanned : shape.PlannedAs schema table.name layout planner) :
    (Engine.findJoined ⟨schema, settings⟩ table
        (args.revised (Revision.declaring schema db) table.name) paging
        (layout.revised (Revision.declaring schema db)) planner).resultFrom db.run =
      (Engine.findJoined ⟨schema, settings⟩ table args paging layout planner).resultFrom db.run := by
  obtain ⟨hlabel, houtputs, -, -⟩ :=
    @joinedStatement_over db ⟨schema, settings⟩ table args paging layout planner
  unfold Engine.findJoined
  rw [joinedStatement_revised _ rfl]
  refine Load.resultFrom_bind_congr rfl fun rows hrows => ?_
  have hrun : db.run (Engine.joinedStatement ⟨schema, settings⟩ table args paging layout planner) =
      .ok rows :=
    Load.gives_query (fun _ hanswer => hanswer) rows hrows
  have hfree : RowsFreeIn db rows := fun hfree =>
    run_values Value.free_null hfree.rows hlabel (joinedStatement_wellScoped ⟨schema, settings⟩
      table args paging hplanned.linked hplanned.within).clauses
      (fun output houtput => by
        obtain ⟨ref, label, heq, -⟩ := hplanned.within.projection output (houtputs ▸ houtput)
        exact ⟨ref, label, heq⟩) hrun
  rw [assemble_declaring hplanned.planned hfree, layout.fansOut_revised, layout.strip_revised]
  exact Load.resultFrom_bind_congr (loadDeferred_declaring hplanned.planned hproper _)
    fun load _ => rfl

/-- So they are by separate statements. -/
theorem findSeparately_declaring :
    (Engine.findSeparately ⟨schema, settings⟩ table
        (args.revised (Revision.declaring schema db) table.name) paging
        (shape.revised (Revision.declaring schema db) table.name)).resultFrom db.run =
      (Engine.findSeparately ⟨schema, settings⟩ table args paging shape).resultFrom db.run := by
  obtain ⟨-, -, hbranches⟩ := Shape.proper_iff.mp hproper
  unfold Engine.findSeparately
  rw [Shape.fields_revised, Shape.relations_revised, branchesRevised_names]
  refine Load.resultFrom_bind_congr rfl fun rows _ => ?_
  exact Load.resultFrom_bind_congr (loadBranches_declaring hbranches _) fun load _ => rfl

end Requests

/-- **Columns that are not declared have no part in distinct lists of relations that name declared
ones, too.**  Over a schema that can come about, under all settings and either strategy and on every
database, a request finds the same records when the undeclared columns are left out of the distinct
lists of its relations, at every depth: of each list that names a declared column, and names its
declared columns side by side or is used on a database without the separator of joint keys.  Other
lists are left as they are. -/
theorem undeclared_distinct_ignored {schema : Schema} (h : schema.Reachable) (settings : Settings)
    (db : Database) {table : Table} (hknown : schema.table? table.name = some table)
    (args : FindArgs) :
    let find := fun args =>
      ((Engine.findMany ⟨schema, settings⟩ table.name args).hold Database.source db).result
    find (args.revised (Revision.declaring schema db) table.name) = find args := by
  intro find
  let engine : Engine := ⟨schema, settings⟩
  let revised := args.revised (Revision.declaring schema db) table.name
  have hproper : (engine.shapeFor table args).Proper schema table.name :=
    schema.shape_proper _ _ _ _
  have hshape : engine.shapeFor table revised =
      (engine.shapeFor table args).revised (Revision.declaring schema db) table.name :=
    shape_revised _ table.name args
  have hplan : engine.planFor table revised =
      ((engine.planFor table args).1.revised (Revision.declaring schema db),
        (engine.planFor table args).2) := by
    unfold Engine.planFor
    rw [hshape]
    exact Shape.layout_revised _ _ _ _
  have hjoins : engine.Joins table revised ↔ engine.Joins table args := by
    unfold Engine.Joins
    rw [hplan]
    rfl
  change ((engine.findMany table.name revised).hold Database.source db).result =
    ((engine.findMany table.name args).hold Database.source db).result
  rw [Load.hold_result, Load.hold_result]
  by_cases hjoin : engine.Joins table args
  · rw [findMany_joined hknown hjoin, findMany_joined hknown (hjoins.mpr hjoin), hplan]
    exact Load.resultFrom_bind_congr (findJoined_declaring hproper args _
      (@planFor_planned engine h.consistent table args)) fun found _ => rfl
  · rw [findMany_unjoined hknown hjoin, findMany_unjoined hknown (hjoins.not.mpr hjoin), hshape]
    exact Load.resultFrom_bind_congr (findSeparately_declaring hproper args _) fun found _ => rfl

/-- Posts are distinct by their titles, whatever else is named that is no column of theirs. -/
theorem undeclared_distinct_ignored_blog :
    let schema := Schema.ofDecls blogTables
    let args := fun (strategy : LoadStrategy) (distinct : List String) =>
      ({ included := some [("posts", .relation { distinct := some distinct })]
         strategy := some strategy } : FindArgs)
    let find := fun args =>
      ((Engine.findMany ⟨schema, {}⟩ "Author" args).hold Database.source blogRows).result
    (schema.table? "Author").isSome ∧
      find (args .join ["title"]) = find (args .join ["nope", "title"]) ∧
      find (args .query ["title"]) = find (args .query ["nope", "title"]) := by
  intro schema args find
  obtain ⟨known, hknown, hname⟩ := exists_blog_author
  have hfound : ∀ strategy, find ((args strategy ["nope", "title"]).revised
      (Revision.declaring schema blogRows) "Author") = find (args strategy ["nope", "title"]) := by
    intro strategy
    have hsame := undeclared_distinct_ignored reachable_blog {} blogRows (hname ▸ hknown)
      (args strategy ["nope", "title"])
    rwa [hname] at hsame
  have hdistinct : (Revision.declaring schema blogRows).distinct (schema.targetOf "Author" "posts")
      (some ["nope", "title"]) = some ["title"] := by decide +kernel
  have hrevised : ∀ strategy, (args strategy ["nope", "title"]).revised
      (Revision.declaring schema blogRows) "Author" = args strategy ["title"] := by
    intro strategy
    simp only [args, FindArgs.revised, choicesRevised, entriesRevised, RelationArgs.revised,
      hdistinct]
    rfl
  simp only [hrevised] at hfound
  exact ⟨Option.isSome_iff_exists.mpr ⟨known, hknown⟩, hfound .join, hfound .query⟩

/-- By a column that is not declared alone all posts of an author are the same. -/
theorem undeclared_distinct_merges :
    let found := fun (strategy : LoadStrategy) (args : RelationArgs) =>
      ((Engine.findMany ⟨Schema.ofDecls blogTables, {}⟩ "Author"
        { included := some [("posts", .relation args)]
          strategy := some strategy }).hold Database.source blogRows).result.toOption.map
            (List.map fun owner => (owner.lookup "posts").map fun node =>
              node.records.map (·.scalar "id"))
    (Schema.ofDecls blogTables).hasColumn "Post" "nope" = false ∧
      found .join {} = some [some [.integer 1, .integer 2], some []] ∧
      found .join { distinct := some ["nope"] } = some [some [.integer 1], some []] ∧
      found .query {} = some [some [.integer 1, .integer 2], some []] ∧
      found .query { distinct := some ["nope"] } = some [some [.integer 1], some []] := by
  exact ⟨by decide +kernel, by decide +kernel, by decide +kernel, by decide +kernel,
    by decide +kernel⟩

end NestedQuery
