import NestedQuery.Proofs.CursorPages
import NestedQuery.Proofs.Selection
import NestedQuery.Proofs.Strategies

/-!
# An included relation as a request of its own

Included records come from one statement for the owners of a whole level, are
given their own relations in batches, and are then handed out by key and cut to
the page of each owner.  An owner gets what it would get on its own: the records
that a request to the target finds, which asks for the rows linked to this one
owner and otherwise brings the arguments of the relation.
-/

namespace NestedQuery

variable {schema : Schema} {db : Database}

/-! ### What loading depends on -/

/-- Two records of a level start its relations from the same values. -/
def SameLinks (schema : Schema) (table : String) (branches : List (String × Branch))
    (one other : Record) : Prop :=
  ∀ entry ∈ branches, ∀ relation, schema.relation? table entry.1 = some relation →
    one.scalar relation.fromColumn = other.scalar relation.fromColumn

/-- A relation entry does not change the values that relations start from. -/
theorem SameLinks.put (hschema : schema.Consistent) {table name : String}
    (hname : schema.hasColumn table name = false) {branches : List (String × Branch)}
    {one other : Record} (h : SameLinks schema table branches one other) (node : Node) :
    SameLinks schema table branches (Dict.put name node one) (Dict.put name node other) := by
  intro entry hentry relation hrelation
  have hne : relation.fromColumn ≠ name := hschema.fromColumn_ne hrelation hname
  rw [Record.scalar_put_of_ne hne, Record.scalar_put_of_ne hne]
  exact h entry hentry relation hrelation

/-- The function attaches the same entries to records that start the relations from the same
values, and keeps what else the records have in common. -/
def AttachesAlike (schema : Schema) (table : String) (branches : List (String × Branch))
    (load : Record → Record) : Prop :=
  ∀ one other, SameLinks schema table branches one other → ∀ name,
    name ∈ branches.map (·.1) ∨ one.lookup name = other.lookup name →
      (load one).lookup name = (load other).lookup name

theorem AttachesAlike.nil (table : String) : AttachesAlike schema table [] id :=
  fun _ _ _ _ hname => hname.resolve_left List.not_mem_nil

/-- One more entry that depends only on the value its relation starts from. -/
theorem AttachesAlike.cons (hschema : schema.Consistent) {table name : String} {relation : Relation}
    (hname : schema.hasColumn table name = false)
    (hrelation : schema.relation? table name = some relation) (branch : Branch)
    {rest : List (String × Branch)} {more : Record → Record}
    (hmore : AttachesAlike schema table rest more) (node : Value → Node) :
    AttachesAlike schema table ((name, branch) :: rest) fun record =>
      more (Dict.put name (node (record.scalar relation.fromColumn)) record) := by
  intro one other hlinks key hkey
  have hvalue := hlinks _ List.mem_cons_self relation hrelation
  have hlater : SameLinks schema table rest one other :=
    fun entry hentry => hlinks entry (List.mem_cons_of_mem _ hentry)
  dsimp only
  rw [hvalue]
  refine hmore _ _ (hlater.put hschema hname _) key ?_
  by_cases hsame : key = name
  · subst hsame
    exact Or.inr (by rw [Dict.lookup_put_self, Dict.lookup_put_self])
  · rw [Dict.lookup_put_of_ne hsame, Dict.lookup_put_of_ne hsame]
    exact hkey.imp_left fun hmem => (List.mem_cons.mp hmem).resolve_left hsame

/-- Loading attaches alike. -/
theorem loadedBranches_alike (hschema : schema.Consistent) {table : String} :
    ∀ {branches : List (String × Branch)}, branchesProper schema branches table →
    AttachesAlike schema table branches (loadedBranches schema db branches table)
  | [], _ => by
      rw [loadedBranches_nil]
      exact AttachesAlike.nil table
  | (name, branch) :: rest, hproper => by
      obtain ⟨⟨hname, relation, hrelation, -⟩, hrest⟩ :=
        List.forall_mem_cons.mp (branchesProper_iff.mp hproper)
      rw [loadedBranches_cons hrelation]
      exact (loadedBranches_alike hschema (branchesProper_iff.mpr hrest)).cons hschema hname hrelation
        branch fun value => .ofRelated relation.kind.isToMany (branch.page
          ((relation.recordsFor schema db branch value).map
            (branch.shape.loaded schema db relation.target)))

/-- Of a row, a record that is shown with its relations needs the fields and the columns that link it
to its relations. -/
theorem AttachesAlike.shown_only {table : Table} (hknown : schema.table? table.name = some table)
    {branches : List (String × Branch)} {load : Record → Record}
    (halike : AttachesAlike schema table.name branches load)
    (hsorted : ∀ record, Dict.Sorted record → Dict.Sorted (load record)) {fields : List String}
    (row : Row) {columns others : List String}
    (hcolumns : fields ++ table.linkColumns (branches.map (·.1)) ⊆ columns)
    (hothers : fields ++ table.linkColumns (branches.map (·.1)) ⊆ others) :
    (load (row.only columns).toRecord).shown fields (branches.map (·.1)) =
      (load (row.only others).toRecord).shown fields (branches.map (·.1)) := by
  have hmirrors := row.toRecord_only_mirrors columns
  have hmirrorsOther := row.toRecord_only_mirrors others
  have hlinks : SameLinks schema table.name branches (row.only columns).toRecord
      (row.only others).toRecord := by
    intro entry hentry relation hrelation
    have hlink := mem_linkColumns hknown (List.mem_map_of_mem hentry) hrelation
    rw [hmirrors.scalar (hcolumns (List.mem_append_right _ hlink)),
      hmirrorsOther.scalar (hothers (List.mem_append_right _ hlink))]
  refine Dict.Sorted.ext ((hsorted _ hmirrors.sorted).filter _)
    ((hsorted _ hmirrorsOther.sorted).filter _) fun name => ?_
  rw [Record.lookup_shown, Record.lookup_shown]
  split
  · next hshown =>
      rw [Bool.or_eq_true, List.contains_iff_mem, List.contains_iff_mem] at hshown
      refine halike _ _ hlinks name (hshown.symm.imp_right fun hfield => ?_)
      rw [hmirrors.bound name (hcolumns (List.mem_append_left _ hfield)),
        hmirrorsOther.bound name (hothers (List.mem_append_left _ hfield))]
  · rfl

/-- So it is with loaded records. -/
theorem Shape.loaded_only (hschema : schema.Consistent) {shape : Shape} {table : Table}
    (hknown : schema.table? table.name = some table) (hproper : shape.Proper schema table.name)
    (row : Row) {columns others : List String}
    (hcolumns : shape.fields ++ table.linkColumns (shape.relations.map (·.1)) ⊆ columns)
    (hothers : shape.fields ++ table.linkColumns (shape.relations.map (·.1)) ⊆ others) :
    shape.loaded schema db table.name (row.only columns).toRecord =
      shape.loaded schema db table.name (row.only others).toRecord := by
  obtain ⟨-, -, hbranches⟩ := Shape.proper_iff.mp hproper
  cases shape
  rw [Shape.loaded, Shape.loaded]
  exact (loadedBranches_alike hschema hbranches).shown_only hknown
    (fun _ => sorted_loadedBranches) row hcolumns hothers

theorem linked_subset_branchColumns (target : Table) (branch : Branch) (link : String) :
    branch.shape.fields ++ target.linkColumns (branch.shape.relations.map (·.1)) ⊆
      target.branchColumns branch link := by
  intro name hname
  refine mem_withHidden.mpr ((List.mem_append.mp hname).imp_right fun hmem => ?_)
  exact List.mem_append_left _ (List.mem_cons_of_mem _ hmem)

/-! ### The request of one owner -/

/-- A relation is loaded in the shape that its choices give to its target, under its clauses. -/
theorem RelationArgs.branch_eq (args : RelationArgs) (target : String) :
    args.branch schema target =
      { shape := schema.shape target args.selected args.included args.omitted
        filter := args.filter
        orderBy := args.orderBy
        take := args.take
        skip := args.skip
        distinct := args.distinct
        joinKind := args.joinKind.getD .left } := by
  cases args
  rw [RelationArgs.branch]
  rfl

/-- The request for the related rows of one owner: those whose column equals the value of the owner,
under the arguments of the relation. -/
def RelationArgs.alone (args : RelationArgs) (strategy : Option LoadStrategy) (column : String)
    (value : Value) : FindArgs :=
  { selected := args.selected
    included := args.included
    omitted := args.omitted
    strategy := strategy
    filter := some (.node (Filter.empty.entry column (.literal value) :: args.filter.toList) [] [] [])
    orderBy := args.orderBy
    take := args.take
    skip := args.skip }

/-- A filter that only asks for all of some filters is their conjunction. -/
theorem predicate?_allOf (filters : List Filter) (table : Table) (qualifier : String)
    (joined : JoinedTables) (n : Nat) :
    ((Filter.node filters [] [] []).predicate? schema table qualifier joined n).1 =
      Expr.conjunction?
        ((filterPredicates schema filters table qualifier joined n).1.filterMap id) := by
  rw [Filter.predicate?, entryPredicates]
  simp only [filterPredicates]
  cases (filterPredicates schema filters table qualifier joined n).1.filterMap id <;> rfl

/-- A filter that only asks for the value of a column compares with it. -/
theorem predicate?_literal {target : Table} {column : String} (hcolumn : target.hasColumn column)
    {value : Value} (hnull : value ≠ .null) (qualifier : String) (joined : JoinedTables) (n : Nat) :
    (Filter.empty.entry column (.literal value)).predicate? schema target qualifier joined n =
      (some (.compare (.col qualifier column) .eq (.literal value)), n) := by
  have hequal : equality (.col qualifier column) value false =
      .compare (.col qualifier column) .eq (.literal value) := by
    rw [equality, Value.isNull_eq_false.mpr hnull]
    rfl
  rw [← hequal]
  exact Filter.predicate?_literal hcolumn value qualifier joined n

/-- The predicate of such a request: the column equals the value, and what the filter of the
relation says. -/
theorem predicate?_alone {target : Table} (htarget : schema.table? target.name = some target)
    {column : String} (hcolumn : target.hasColumn column) {value : Value} (hnull : value ≠ .null)
    (args : RelationArgs) (strategy : Option LoadStrategy) :
    (schema.predicate? target.name target.name (args.alone strategy column value).filter [] 0).1 =
      Expr.conjunction? (.compare (.col target.name column) .eq (.literal value) ::
        (schema.predicate? target.name target.name args.filter [] 0).1.toList) := by
  unfold Schema.predicate? RelationArgs.alone
  rw [htarget]
  dsimp only
  rw [predicate?_allOf, filterPredicates, predicate?_literal hcolumn hnull]
  cases args.filter with
  | none => rfl
  | some filter =>
      simp only [Option.toList_some, filterPredicates]
      cases (filter.predicate? schema target target.name [] 0).1 <;> rfl

/-- The column equals a value in the rows in which it does. -/
theorem accepts_equality (table column : String) (value : Value) (row : Row) :
    accepts ((Expr.compare (.col table column) .eq (.literal value)).truth db)
      [(table, some row)] = (row.value column).sqlEq value := by
  have hcell : Bindings.value [(table, some row)] ⟨table, column⟩ = .ok (row.value column) :=
    Bindings.value_of_some (by simp) column
  have heval : (Expr.compare (.col table column) .eq (.literal value)).eval db
      [(table, some row)] =
        .ok (truthValue (((row.value column).compare value).map Comparison.eq.holds)) := by
    rw [Expr.eval, Expr.col, Expr.eval, hcell]
    rfl
  rw [accepts_of_ok (Expr.truth_ok heval), truth_truthValue, Value.sqlEq]
  rcases (row.value column).compare value with _ | _ | _ | _ <;> rfl

/-- It keeps the rows with the value of the owner that the filter of the relation keeps. -/
theorem passes_aloneFilter {target : Table} (htarget : schema.table? target.name = some target)
    {column : String} (hcolumn : target.hasColumn column) {value : Value} (hnull : value ≠ .null)
    (args : RelationArgs) (strategy : Option LoadStrategy) (row : Row) :
    db.passes (schema.predicate? target.name target.name (args.alone strategy column value).filter [] 0).1
        [(target.name, some row)] =
      (db.passes (schema.predicate? target.name target.name args.filter [] 0).1
          [(target.name, some row)] && (row.value column).sqlEq value) := by
  have hpredicate : filterScoped (schema.predicate? target.name target.name args.filter [] 0).1
      [target.name] := predicate?_scoped List.mem_cons_self (noTables_within _) 0
  rw [predicate?_alone htarget hcolumn hnull, Bool.and_comm, ← @accepts_equality db target.name]
  generalize (schema.predicate? target.name target.name args.filter [] 0).1 = predicate at *
  have hparts : ∀ part ∈ Expr.compare (.col target.name column) .eq (.literal value) ::
      predicate.toList, part.Scoped [target.name] := by
    refine List.forall_mem_cons.mpr ⟨⟨List.mem_cons_self, trivial⟩, fun part hpart => ?_⟩
    rw [Option.mem_toList.mp hpart] at hpredicate
    exact hpredicate
  rw [passes_conjunction? hparts (List.Subset.refl _), List.all_cons]
  cases predicate <;> simp [Database.passes]

/-! ### Requests that load separately -/

section Separate

variable {engine : Engine} {table : Table} {args : FindArgs}
  (hknown : engine.schema.table? table.name = some table)

include hknown

/-- Under the query strategy a request that does not page backwards finds what its separate
statements find. -/
theorem findMany_separately (hstrategy : args.strategy.getD engine.settings.strategy = .query)
    (hforwards : (engine.paging args).backwards = false) {found : List Record → Prop}
    (h : (engine.findSeparately table args (engine.paging args)
      (engine.schema.shape table.name args.selected args.included args.omitted)).Gives db.run found) :
    (engine.findMany table.name args).Gives db.run found := by
  unfold Engine.findMany
  rw [hknown]
  dsimp only
  rw [if_neg fun hjoin => by rw [hstrategy] at hjoin; cases hjoin.1]
  exact gives_forwards h hforwards

/-- It finds the rows that it shows, loaded. -/
theorem findMany_loaded (hschema : engine.schema.Consistent) (hdb : db.Valid)
    (hstrategy : args.strategy.getD engine.settings.strategy = .query)
    (hforwards : (engine.paging args).backwards = false) (hdistinct : args.distinct = none)
    (hsorts : (engine.schema.shape table.name args.selected args.included args.omitted).Throughout
      engine.schema (SortsAlone engine.schema db) table.name) :
    let shape := engine.schema.shape table.name args.selected args.included args.omitted
    (engine.findMany table.name args).Gives db.run fun records =>
      records = (engine.shownRows db table args (engine.paging args)).map fun row =>
        shape.loaded engine.schema db table.name (row.only (withHidden shape.fields
          (table.linkColumns (shape.relations.map (·.1))))).toRecord := by
  intro shape
  refine findMany_separately hknown hstrategy hforwards ?_
  have hloaded : ∀ record, shape.loaded engine.schema db table.name record =
      (loadedBranches engine.schema db shape.relations table.name record).shown shape.fields
        (shape.relations.map (·.1)) := by
    intro record
    cases shape
    rw [Shape.loaded]
  simp only [hloaded]
  exact findSeparately_loaded hschema hdb (engine.schema.shape_proper _ _ _ _) hsorts hknown
    (engine.paging args) hdistinct

omit hknown in
/-- On a database a request to a known table has a result, of which holds what its dialogue gives. -/
theorem findMany_result (hschema : engine.schema.Consistent) {name : String}
    (hknown : engine.schema.table? name = some table) {found : List Record → Prop}
    (h : (engine.findMany name args).Gives db.run found) :
    ∃ records, ((engine.findMany name args).hold Database.source db).result = .ok records ∧
      found records := by
  obtain ⟨records, hrecords⟩ := ((findMany_asks hschema hknown args).hold_ok
    fun statement hscoped => hscoped.run_ok db).1
  exact ⟨records, hrecords, h records ((Load.hold_result _ db).symm.trans hrecords)⟩

end Separate

/-! ### One owner -/

/-- The page of a branch without distinct columns that pages forwards. -/
theorem page_forwards {branch : Branch} (hdistinct : branch.distinct = none)
    (htake : ∀ take, branch.take = some take → 0 ≤ take) (records : List Record) :
    branch.page records = pageOf branch.skip (branch.take.map Int.natAbs) records := by
  unfold BranchOf.page
  rw [hdistinct]
  cases hcount : branch.take with
  | none => rfl
  | some take =>
      dsimp only
      rw [if_neg (Int.not_lt.mpr (htake take hcount))]
      rfl

/-- Of values that agree with it on their keys, those meet a value that equal it. -/
theorem Value.meets_eq_sqlEq {value other : Value} (h : value.AgreesOnKey other) :
    value.meets other = value.sqlEq other := by
  rw [Value.meets, Bool.eq_iff_iff, Bool.and_eq_true, beq_iff_eq, and_iff_left_iff_imp]
  intro hequal
  obtain ⟨hvalue, hother⟩ := Value.ne_null_of_sqlEq hequal
  exact (h hvalue hother).mp hequal

/-- A direct relation leads to the rows that equal the value of its owner, as it links them. -/
theorem Relation.Keyed.reached_direct {relation : Relation} {table : String}
    (h : relation.Keyed db table) (hdirect : relation.junction = none) {row : Row}
    (hrow : row ∈ db.rows table) {others : List Row} (hothers : others ⊆ db.rows relation.target) :
    relation.reached db others (row.value relation.fromColumn) = others.filter fun other =>
      (other.value relation.toColumn).sqlEq (row.value relation.fromColumn) := by
  unfold Relation.reached
  rw [hdirect]
  exact List.filter_congr fun other hother =>
    Value.meets_eq_sqlEq (h.direct hdirect row hrow other (hothers hother))

section Alone

variable {engine : Engine} {target : Table} {args : RelationArgs} {column : String} {value : Value}
  (htarget : engine.schema.table? target.name = some target)
  (htake : ∀ take, args.take = some take → 0 ≤ take)

include htake in
/-- A request of one owner pages forwards. -/
theorem paging_alone (hmost : engine.settings.maxTake = none) (strategy : Option LoadStrategy) :
    engine.paging (args.alone strategy column value) =
      ⟨args.take.map Int.natAbs, args.skip, false⟩ := by
  have hforwards : args.take.any (· < 0) = false := by
    cases hcount : args.take with
    | none => rfl
    | some take => simpa using htake take hcount
  unfold Engine.paging RelationArgs.alone Settings.pageSize
  rw [hmost]
  simp only [hforwards]
  cases args.take <;> rfl

include htarget in
/-- It shows the page of the rows with the value of the owner among those that the relation
selects. -/
theorem shownRows_alone (hcolumn : target.hasColumn column) (hnull : value ≠ .null)
    (hsorts : (args.branch engine.schema target.name).Sorts engine.schema db target)
    (strategy : Option LoadStrategy) (size skip : Option Nat) :
    engine.shownRows db target (args.alone strategy column value) ⟨size, skip, false⟩ =
      pageOf skip size ((db.candidates engine.schema target
        (args.branch engine.schema target.name)).filter fun row =>
          (row.value column).sqlEq value) := by
  rw [RelationArgs.branch_eq] at hsorts ⊢
  have hselected : db.selected target.name
      (engine.baseStatement target (args.alone strategy column value) ⟨size, skip, false⟩ []
        true).filter
      (orderClause (engine.schema.sortKeys target.name target.name args.orderBy [])) =
      (db.selected target.name
        (engine.schema.predicate? target.name target.name args.filter [] 0).1
        (orderClause (engine.schema.sortKeys target.name target.name args.orderBy []))).filter
          fun row => (row.value column).sqlEq value := by
    refine selected_filter (fun keys hkeys key hkey => ?_) fun row _ => ?_
    · rw [orderClause_some hkeys] at hkey
      exact hsorts key hkey
    · rw [passes_baseStatement List.mem_cons_self (noTables_within _) (List.Subset.refl [target.name]),
        show (args.alone strategy column value).cursor = none from rfl]
      exact (Bool.and_true _).trans (passes_aloneFilter htarget hcolumn hnull args strategy row)
  have horder : (engine.baseStatement target (args.alone strategy column value)
      ⟨size, skip, false⟩ [] true).orderBy =
        orderClause (engine.schema.sortKeys target.name target.name args.orderBy []) := by
    simp [Engine.baseStatement, Engine.baseOrder, RelationArgs.alone]
  unfold Engine.shownRows Database.candidates
  dsimp only
  rw [← hselected, horder]
  exact (pageOf_eq_cut ⟨size, skip, false⟩ _).symm

include htarget htake in
/-- It finds these rows, loaded. -/
theorem findMany_alone (hschema : engine.schema.Consistent) (hdb : db.Valid)
    (hmost : engine.settings.maxTake = none) {strategy : Option LoadStrategy}
    (hstrategy : strategy.getD engine.settings.strategy = .query) (hcolumn : target.hasColumn column)
    (hnull : value ≠ .null)
    (hsorts : (args.branch engine.schema target.name).Sorts engine.schema db target)
    (hbeneath : (args.branch engine.schema target.name).shape.Throughout engine.schema
      (SortsAlone engine.schema db) target.name) :
    let branch := args.branch engine.schema target.name
    (engine.findMany target.name (args.alone strategy column value)).Gives db.run fun records =>
      records = (pageOf args.skip (args.take.map Int.natAbs)
        ((db.candidates engine.schema target branch).filter fun row =>
          (row.value column).sqlEq value)).map fun row =>
            branch.shape.loaded engine.schema db target.name
              (row.only (target.branchColumns branch column)).toRecord := by
  intro branch records hrecords
  have hproper : branch.shape.Proper engine.schema target.name := args.branch_proper target.name
  have hshown := @shownRows_alone db engine target args column value htarget hcolumn hnull hsorts
    strategy (args.take.map Int.natAbs) args.skip
  have hpaging := @paging_alone engine args column value htake hmost strategy
  unfold branch at hproper ⊢
  rw [RelationArgs.branch_eq] at hbeneath hproper
  rw [findMany_loaded htarget hschema hdb hstrategy (by rw [hpaging]) rfl hbeneath records
    hrecords, hpaging, hshown]
  refine List.map_congr_left fun row _ => ?_
  rw [RelationArgs.branch_eq]
  refine Shape.loaded_only hschema htarget hproper row ?_ (linked_subset_branchColumns _ _ _)
  exact fun name hmem => mem_withHidden.mpr (List.mem_append.mp hmem)

end Alone

/-! ### All owners -/

/-- The shape of a request that only includes one relation: all columns, and the relation. -/
theorem shape_asking {table : Table} (hknown : schema.table? table.name = some table)
    {name : String} {relation : Relation} (hname : table.hasColumn name = false)
    (hrelation : table.relation? name = some relation) {choice : Choice RelationArgs}
    {args : RelationArgs} (hchoice : choice.args? = some args) :
    schema.shape table.name none (some [(name, choice)]) none =
      { fields := table.columnNames, relations := [(name, args.branch schema relation.target)] } := by
  have hfields : Shape.chosenFields table none = table.columnNames :=
    List.filter_eq_self.mpr fun _ _ => rfl
  have hadded : addChoice schema table name choice [] =
      [(name, args.branch schema relation.target)] := by
    rw [addChoice, if_neg (by simp [hname]), hrelation]
    dsimp only
    rw [Choice.branch?_eq, hchoice]
    rfl
  unfold Schema.shape Shape.ofTable
  rw [hknown]
  dsimp only
  rw [hfields, chosenBranches_eq, chosenBranches_eq, Option.getD_some, addBranches_cons]
  rw [show addBranches schema table (none.getD []) [] = [] from rfl, hadded]
  rfl

theorem shape_including {table : Table} (hknown : schema.table? table.name = some table)
    {name : String} {relation : Relation} (hname : table.hasColumn name = false)
    (hrelation : table.relation? name = some relation) (args : RelationArgs) :
    schema.shape table.name none (some [(name, .relation args)]) none =
      { fields := table.columnNames, relations := [(name, args.branch schema relation.target)] } :=
  shape_asking hknown hname hrelation rfl

/-- A request without clauses shows all rows of its table. -/
theorem shownRows_whole {engine : Engine} {table : Table} {args : FindArgs}
    (hfilter : args.filter = none) (horder : args.orderBy = none) (hcursor : args.cursor = none) :
    engine.shownRows db table args ⟨none, none, false⟩ = db.rows table.name := by
  simp [Engine.shownRows, Engine.baseStatement, Engine.baseOrder, hfilter, horder, hcursor,
    Schema.predicate?, Schema.sortKeys, SelectOf.andWhere?, orderClause, Database.selected,
    Window.cut]

/-- With one relation included, the rows of a table are found as owners, each with the page of its
related records. -/
theorem findMany_owners {engine : Engine} (hschema : engine.schema.Consistent) (hdb : db.Valid)
    (hmost : engine.settings.maxTake = none) {strategy : Option LoadStrategy}
    (hstrategy : strategy.getD engine.settings.strategy = .query) {table : Table}
    (hknown : engine.schema.table? table.name = some table) {name : String} {relation : Relation}
    (hname : table.hasColumn name = false) (hrelation : table.relation? name = some relation)
    {args : RelationArgs}
    (hsorts : (engine.schema.shape table.name none (some [(name, .relation args)]) none).Throughout
      engine.schema (SortsAlone engine.schema db) table.name) :
    let branch := args.branch engine.schema relation.target
    (engine.findMany table.name { included := some [(name, .relation args)], strategy }).Gives db.run
      fun owners => ∀ owner ∈ owners, ∃ row ∈ db.rows table.name,
        owner.scalar relation.fromColumn = row.value relation.fromColumn ∧
        owner.lookup name = some (.ofRelated relation.kind.isToMany (branch.page
          ((relation.recordsFor engine.schema db branch (row.value relation.fromColumn)).map
            (branch.shape.loaded engine.schema db relation.target)))) := by
  intro branch owners howners owner howner
  have hpaging : engine.paging { included := some [(name, .relation args)], strategy } =
      ⟨none, none, false⟩ := by
    simp [Engine.paging, Settings.pageSize, hmost]
  have hfrom : table.hasColumn relation.fromColumn := (hschema.resolves hknown hrelation).fromColumn
  rw [findMany_loaded hknown hschema hdb hstrategy rfl rfl hsorts owners howners, hpaging,
    shownRows_whole rfl rfl rfl, shape_including hknown hname hrelation args] at howner
  obtain ⟨row, hrow, rfl⟩ := List.mem_map.mp howner
  have hne : relation.fromColumn ≠ name := by
    rintro rfl
    rw [hname] at hfrom
    cases hfrom
  have hfield : relation.fromColumn ∈ table.columnNames := mem_columnNames.mpr hfrom
  have hknownRelation : engine.schema.relation? table.name name = some relation := by
    rw [Schema.relation?, hknown]
    exact hrelation
  have hvalue := (row.toRecord_only_mirrors
    (withHidden table.columnNames (table.linkColumns [name]))).scalar
      (mem_withHidden.mpr (Or.inl hfield))
  simp only [List.map_cons, List.map_nil, Shape.loaded, loadedBranches_cons hknownRelation,
    loadedBranches_nil, id_eq, hvalue]
  refine ⟨row, hrow, ?_, ?_⟩
  · rw [Record.scalar, Record.lookup_shown, List.contains_iff_mem.mpr hfield, Bool.true_or,
      if_pos rfl, Dict.lookup_put_of_ne hne]
    exact hvalue
  · rw [Record.lookup_shown, List.contains_iff_mem.mpr List.mem_cons_self, Bool.or_true, if_pos rfl,
      Dict.lookup_put_self]

/-- **Included relations are requests of their own.**  Take a direct relation to many that a request
to its table includes by the query strategy, under settings without a greatest page, the page of the
relation taken forwards and without distinct columns; the values by which the relation links rows
are equal if their keys are, and the columns that it and the relations beneath it sort by hold
comparable values.  Then every owner whose link is not null gets the records, in their order and
with all that is nested in them, that a request to the target finds on its own which asks for the
link of the owner and otherwise brings the arguments of the relation. -/
theorem included_find_alone {schema : Schema} (h : schema.Reachable) {settings : Settings}
    (hmost : settings.maxTake = none) {strategy : Option LoadStrategy}
    (hstrategy : strategy.getD settings.strategy = .query) {db : Database} (hdb : db.Valid)
    {table : Table} (hknown : schema.table? table.name = some table) {name : String}
    {relation : Relation} (hname : table.hasColumn name = false)
    (hrelation : table.relation? name = some relation) (hmany : relation.kind.isToMany = true)
    (hdirect : relation.junction = none) (hkeyed : relation.Keyed db table.name)
    {args : RelationArgs} (htake : ∀ take, args.take = some take → 0 ≤ take)
    (hdistinct : args.distinct = none)
    (hsorts : (schema.shape table.name none (some [(name, .relation args)]) none).Throughout schema
      (SortsAlone schema db) table.name) :
    let find := fun table args =>
      ((Engine.findMany ⟨schema, settings⟩ table args).hold Database.source db).result
    ∃ owners, find table.name { included := some [(name, .relation args)], strategy } = .ok owners ∧
      ∀ owner ∈ owners, owner.scalar relation.fromColumn ≠ .null → ∃ records,
        owner.lookup name = some (.list records) ∧
        find relation.target
          (args.alone strategy relation.toColumn (owner.scalar relation.fromColumn)) =
            .ok records := by
  intro find
  obtain ⟨target, htarget, hcolumn⟩ := (h.consistent.resolves hknown hrelation).target
  have htargetName : target.name = relation.target := h.consistent.table_name htarget
  rw [← htargetName] at htarget
  obtain ⟨owners, howners, hloaded⟩ := findMany_result h.consistent hknown
    (@findMany_owners db ⟨schema, settings⟩ h.consistent hdb hmost strategy hstrategy table hknown
      name relation hname hrelation args hsorts)
  refine ⟨owners, howners, fun owner howner hnull => ?_⟩
  obtain ⟨row, hrow, hvalue, hlookup⟩ := hloaded owner howner
  rw [hvalue] at hnull ⊢
  have hknownRelation : schema.relation? table.name name = some relation := by
    rw [Schema.relation?, hknown]
    exact hrelation
  obtain ⟨hbranchSorts, hbeneath⟩ : SortsAlone schema db table.name (args.branch schema target.name)
      relation ∧ (args.branch schema target.name).shape.Throughout schema (SortsAlone schema db)
        target.name := by
    rw [shape_including hknown hname hrelation args, Shape.Throughout] at hsorts
    rw [htargetName]
    exact branchesThroughout_iff.mp hsorts _ List.mem_cons_self relation hknownRelation
  obtain ⟨records, hrecords, halone⟩ := findMany_result h.consistent htarget
    (@findMany_alone db ⟨schema, settings⟩ target args relation.toColumn _ htarget htake h.consistent
      hdb hmost strategy hstrategy hcolumn hnull (hbranchSorts target (htargetName ▸ htarget))
      hbeneath)
  refine ⟨records, ?_, htargetName ▸ hrecords⟩
  have hcandidates : db.candidates schema target (args.branch schema target.name) ⊆
      db.rows relation.target := by
    rw [← htargetName]
    exact candidates_subset
  have hreached := hkeyed.reached_direct hdirect hrow hcandidates
  rw [hlookup, hmany, halone, ← htargetName,
    page_forwards (by rw [RelationArgs.branch_eq]; exact hdistinct)
      (by rw [RelationArgs.branch_eq]; exact htake)]
  unfold Relation.recordsFor
  rw [← htargetName, htarget]
  dsimp only
  rw [hreached, List.map_map, ← pageOf_map, RelationArgs.branch_eq]
  rfl

/-- Whether a branch sorts by columns that hold integers only. -/
def BranchOf.sortsIntegers (schema : Schema) (db : Database) (branch : Branch)
    (relation : Relation) : Bool :=
  (schema.table? relation.target).all fun target =>
    (schema.sortKeys target.name target.name branch.orderBy []).all fun key =>
      ((db.rows target.name).map (·.value key.column.name)).all fun value =>
        value.integer?.isSome

/-- Integers are comparable. -/
theorem sortsAlone_of_integers {shape : Shape} {table : String}
    (h : shape.Throughout schema (fun _ branch relation =>
      branch.sortsIntegers schema db relation = true) table) :
    shape.Throughout schema (SortsAlone schema db) table := by
  refine h.mono fun _ branch relation hintegers target htarget key hkey => ?_
  rw [BranchOf.sortsIntegers, htarget, Option.all_some, List.all_eq_true] at hintegers
  exact (Value.OneKind.of_integers (List.all_eq_true.mp (hintegers key hkey))).ordered

/-- Each author gets the last of its posts, with its author, as a request to the posts finds it. -/
theorem included_find_alone_blog :
    let args : RelationArgs :=
      { included := some [("author", .flag true)], orderBy := some (.by "id" .descending)
        take := some 1 }
    let find := fun table args =>
      ((Engine.findMany ⟨Schema.ofDecls blogTables, {}⟩ table args).hold Database.source
        blogRows).result
    ∃ owners, find "Author" { included := some [("posts", .relation args)], strategy := some .query }
        = .ok owners ∧
      ∀ owner ∈ owners, owner.scalar "id" ≠ .null → ∃ records,
        owner.lookup "posts" = some (.list records) ∧
        find "Post" (args.alone (some .query) "authorId" (owner.scalar "id")) = .ok records := by
  intro args find
  obtain ⟨known, hknown, hname⟩ := exists_blog_author
  let relation := Relation.oneToMany "posts" "Post" "id" "authorId"
  have htable : ((Schema.ofDecls blogTables).table? "Author").map (fun table =>
      (table.hasColumn "posts", table.relation? "posts")) = some (false, some relation) := by
    decide +kernel
  rw [hknown, Option.map_some, Option.some_inj, Prod.mk.injEq] at htable
  have hfound := @included_find_alone _ reachable_blog {} rfl (some .query) rfl blogRows
    (Database.valid_of_entries (by decide +kernel)) known (hname ▸ hknown) "posts" relation htable.1
    htable.2 rfl rfl (by rw [hname]; decide +kernel) args (by rintro take ⟨⟩; decide) rfl
    (sortsAlone_of_integers (by rw [hname]; decide +kernel))
  rwa [hname] at hfound

/-- Authors with a column that is named like the relation to their posts. -/
def namesakeTables : List TableDecl :=
  [{ name := "Author"
     columns := [{ name := "id", type := .integer, primary := true }, { name := "posts" }] },
   { name := "Post"
     columns := [{ name := "id", type := .integer, primary := true },
       { name := "authorId", type := .integer, references := some ⟨"Author", "id"⟩ }] }]

/-- An author of two posts. -/
def namesakeRows : Database :=
  [("Author", [[("id", .integer 1), ("posts", .text "many")]]),
   ("Post", [[("authorId", .integer 1), ("id", .integer 1)],
      [("authorId", .integer 1), ("id", .integer 2)]])]

/-- A column comes before a relation of its name: the author shows the column, although a request
to the posts finds the posts of the author. -/
theorem included_namesake_dropped :
    let schema := Schema.ofDecls namesakeTables
    let found := fun table args =>
      ((Engine.findMany ⟨schema, {}⟩ table args).hold Database.source namesakeRows).result.toOption
    (schema.relation? "Author" "posts").map (fun relation =>
        (relation.kind.isToMany, relation.junction.isNone, relation.fromColumn, relation.target,
          relation.toColumn)) = some (true, true, "id", "Post", "authorId") ∧
      (found "Author" { included := some [("posts", .relation {})], strategy := some .query }).map
          (List.map fun owner => (owner.scalar "id", owner.scalar "posts",
            (owner.lookup "posts").map fun node => node.records.map (·.scalar "id"))) =
        some [(.integer 1, .text "many", some [])] ∧
      (found "Post" (RelationArgs.alone {} (some .query) "authorId" (.integer 1))).map
          (List.map fun record => record.scalar "id") = some [.integer 1, .integer 2] := by
  exact ⟨by decide +kernel, by decide +kernel, by decide +kernel⟩

end NestedQuery
