import NestedQuery.Proofs.DistinctRelations
import NestedQuery.Proofs.RecordBlocks

/-!
# Windows of what a request finds

A page is cut from the rows of the statement, or, where joined rows may repeat a
record, from the records.  Either way it is a window of the records that the
request finds without a page.  A window of rows is a window of records where no
row repeats a record, and the relations of a record are loaded the same whatever
other records the page holds.
-/

namespace NestedQuery

variable {db : Database} {engine : Engine}

/-! ### Windows of rows -/

theorem selectRows_window (statement : Select) (window : Option Window) (outer : Bindings) :
    selectRows db { statement with window } outer = selectRows db statement outer := by
  obtain ⟨_, _, _, _, _, _, _, _⟩ := statement
  rfl

/-- A statement that does not count yields the rows in its window of those that it yields without
one. -/
theorem SelectOf.WellScoped.run_window {statement : Select} (h : statement.WellScoped)
    (hcounter : statement.counter? = none) {rows : List Row}
    (hrun : db.run { statement with window := none } = .ok rows) (window : Option Window) :
    db.run { statement with window } = .ok (Window.cut window rows) := by
  obtain ⟨tuples, htuples, hnames⟩ := selectRows_ok db h.clauses (List.nil_subset (Dict.names []))
  have hproject : ∀ tuple ∈ tuples, ∃ row, project statement.outputs tuple = .ok row := by
    intro tuple htuple
    refine project_scoped ?_
    rw [hnames tuple htuple]
    exact h.outputs
  obtain ⟨yield, hyield⟩ := exists_results hproject
  have hruns : ∀ window, db.run { statement with window } =
      .ok ((Window.cut window tuples).map yield) := by
    intro window
    unfold Database.run
    rw [selectRows_window, htuples]
    dsimp only [bind, Except.bind]
    rw [show SelectOf.counter? { statement with window } = none from hcounter]
    exact mapM_ok fun tuple htuple => hyield tuple (cut_subset _ _ htuple)
  rw [hruns none, Except.ok.injEq] at hrun
  rw [hruns window, ← hrun, cut_map]
  rfl

/-! ### Windows of folded records -/

/-- Where no row repeats a record, a window of rows makes a window of records. -/
theorem Layout.Begins.assemble_cut {schema : Schema} {layout : Layout} {table : String}
    (h : layout.Begins schema table) {tuples : List Bindings}
    (hnodup : (tuples.map layout.groupKey).Nodup) (window : Option Window) :
    layout.assemble ((Window.cut window tuples).map layout.yield) =
      Window.cut window (layout.assemble (tuples.map layout.yield)) := by
  have hcut : ((Window.cut window tuples).map layout.groupKey).Nodup :=
    hnodup.sublist ((cut_sublist window tuples).map _)
  rw [h.assemble_yield, h.assemble_yield, groupsOf_nodup hcut, groupsOf_nodup hnodup, List.map_map,
    List.map_map, cut_map]

/-- The records that a layout makes of joined rows, loaded and stripped; where the rows may repeat
records, the records are made distinct before. -/
def Layout.found (schema : Schema) (db : Database) (layout : Layout) (distinct : List String)
    (tuples : List Bindings) : List Record :=
  let records := layout.assemble (tuples.map layout.yield)
  (if layout.fansOut then distinctBy distinct records else records).map fun record =>
    layout.strip (layout.loaded schema db record)

/-! ### Windows of a request -/

/-- The joined statement of a page is that of the whole; it has a window if its rows do not repeat
records. -/
theorem joinedStatement_page (engine : Engine) (table : Table) (args : FindArgs) (paging : Paging)
    (layout : Layout) (planner : Planner) :
    engine.joinedStatement table args paging layout planner =
      { engine.joinedStatement table args ⟨none, none, paging.backwards⟩ layout planner with
        window := if layout.fansOut then none
          else (engine.baseStatement table args paging [] true).window } := by
  rw [joinedStatement_frame, joinedStatement_frame]
  cases Expr.conjunction? (layout.clauses engine.schema 0).1.predicates <;>
    cases layout.fansOut <;> rfl

section Joined

variable {table : Table} {args : FindArgs} {shape : Shape} (hschema : engine.schema.Consistent)
  (hdb : db.Valid) (hproper : shape.Proper engine.schema table.name)
  (hsorts : shape.Throughout engine.schema (SortsAlone engine.schema db) table.name)
  {layout : Layout} {planner : Planner}
  (hplanned : shape.PlannedAs engine.schema table.name layout planner)

include hschema hdb hproper hsorts hplanned

/-- By a joined statement a request finds a page of the records of the joined rows that the statement
selects, if no row repeats a record or the rows may all do. -/
theorem findJoined_page (paging : Paging) {tuples : List Bindings}
    (hsubset : tuples ⊆ planner.tuples db table.name)
    (hselected : selectRows db (engine.joinedStatement table args ⟨none, none, paging.backwards⟩
      layout planner) [] = .ok tuples)
    (hshown : tuples ≠ [] → layout.projection ≠ [])
    (hkeys : layout.fansOut = false → (tuples.map layout.groupKey).Nodup) :
    (engine.findJoined table args paging layout planner).Gives db.run fun records =>
      records = pageOf paging.skip paging.size
        (layout.found engine.schema db (table.distinctColumns args.distinct) tuples) := by
  have hpage := joinedStatement_page engine table args paging layout planner
  have hrun := run_of_joined hplanned.within hsubset
    (by rw [hpage, selectRows_window]; exact hselected) hshown
  have hvalid : ∀ row ∈ (Window.cut (engine.joinedStatement table args paging layout planner).window
      tuples).map layout.yield, Row.Valid row := by
    intro row hrow
    obtain ⟨tuple, htuple, rfl⟩ := List.mem_map.mp hrow
    exact yield_valid hdb (hsubset (cut_subset _ _ htuple))
  intro records hrecords
  rw [findJoined_gives hschema hdb hproper hsorts paging hplanned.planned hrun
    (assemble_holds assembled_valid hplanned.planned hproper hplanned.begins.named hvalid) records
      hrecords, hpage]
  cases hfans : layout.fansOut with
  | true => simp only [Layout.found, hfans, if_true, Window.cut, pageOf_map]
  | false =>
      simp only [Layout.found, hfans, Bool.false_eq_true, if_false]
      rw [hplanned.begins.assemble_cut (hkeys hfans), ← cut_map,
        ← @pageOf_eq_cut engine table args _ paging]

omit hdb hproper hsorts hschema in
/-- Joins that extend rows, where those of relations to one do so in one way at most, select joined
rows of which none repeats a record unless all may. -/
theorem exists_joined_rows (hkinds : ∀ join ∈ planner.joins, Rowwise join.clause)
    (hapart : ApartBy layout.key (db.rows table.name))
    (hsingle : layout.fansOut = false → ∀ row ∈ db.rows table.name,
      (planner.block db table.name row).length ≤ 1) (paging : Paging) :
    ∃ tuples, tuples ⊆ planner.tuples db table.name ∧
      selectRows db (engine.joinedStatement table args paging layout planner) [] = .ok tuples ∧
      (tuples ≠ [] → layout.projection ≠ []) ∧
      (layout.fansOut = false → (tuples.map layout.groupKey).Nodup) := by
  obtain ⟨hlabel, -, hjoins, htuples⟩ :=
    @joinedStatement_over db engine table args paging layout planner
  obtain ⟨grouped, hgrouped, -, hselected⟩ := exists_selectRows_rowwise hlabel
    (joinedStatement_wellScoped engine table args paging hplanned.linked hplanned.within).clauses
    (by rw [hjoins]; exact List.forall_mem_map.mpr hkinds)
  rw [htuples] at hgrouped
  have hperm := inOrder_perm (engine.joinedStatement table args paging layout planner).orderBy grouped
  have hsublist : grouped.Sublist (planner.tuples db table.name) := hgrouped.trans List.filter_sublist
  have hsubset := List.Subset.trans hperm.subset hsublist.subset
  refine ⟨_, hsubset, hselected, hplanned.begins.projection_of_apart hapart
    fun tuple htuple => planner.tuples_over db table.name tuple (hsubset htuple), fun hfans => ?_⟩
  have hnodup : ((planner.tuples db table.name).map layout.groupKey).Nodup :=
    hplanned.begins.groupKeys_nodup hapart
      (fun row _ => planner.begins_block table.name row) (hsingle hfans)
  exact ((hperm.map _).nodup_iff).mpr (hnodup.sublist (hsublist.map _))

end Joined

/-! ### Separate statements -/

/-- A base statement selects rows of its table. -/
theorem exists_base_rows (engine : Engine) (table : Table) (args : FindArgs) (paging : Paging) :
    ∃ selected : List Row, selected ⊆ db.rows table.name ∧
      ∀ outputs, selectRows db { engine.baseStatement table args paging [] true with outputs } [] =
        .ok (selected.map fun row => [(table.name, some row)]) := by
  obtain ⟨hjoins, -, htable, hlabel⟩ := baseStatement_frame engine table args paging [] true
  have hscoped := (separateStatement_wellScoped engine table args paging []).clauses
  generalize engine.baseStatement table args paging [] true = base at hjoins htable hlabel hscoped ⊢
  obtain ⟨tuples, hsublist, -, hselected⟩ := @exists_selectRows_rowwise db
    { base with outputs := plainOutputs table.name [] } hlabel hscoped
    (by dsimp only; rw [hjoins]; exact fun join hjoin => nomatch hjoin)
  have hsingle : ∀ tuple ∈ inOrder base.orderBy tuples,
      ∃ row ∈ db.rows table.name, tuple = [(table.name, some row)] := by
    intro tuple htuple
    have hmem := (List.mem_filter.mp (hsublist.subset ((inOrder_perm _ _).subset htuple))).1
    obtain ⟨row, hrow, more, rfl, hmore⟩ := mem_tuples hmem
    dsimp only at hmore hrow ⊢
    rw [hjoins] at hmore
    rw [htable] at hrow ⊢
    cases hmore
    exact ⟨row, hrow, rfl⟩
  refine ⟨(inOrder base.orderBy tuples).map (·.rowOf table.name), ?_, fun outputs => ?_⟩
  · intro row hrow
    obtain ⟨tuple, htuple, rfl⟩ := List.mem_map.mp hrow
    obtain ⟨found, hfound, rfl⟩ := hsingle tuple htuple
    rw [Bindings.rowOf_cons_self]
    exact hfound
  · refine (selectRows_outputs base outputs []).trans
      ((selectRows_outputs base _ []).symm.trans (hselected.trans ?_))
    rw [List.map_map]
    refine congrArg _ ((List.map_id _).symm.trans (List.map_congr_left fun tuple htuple => ?_))
    obtain ⟨row, -, rfl⟩ := hsingle tuple htuple
    rw [Function.comp_apply, Bindings.rowOf_cons_self]
    rfl

/-- By separate statements a request finds a page of the rows that its base statement yields without
a window, loaded and without hidden columns. -/
theorem exists_findSeparately_page (hschema : engine.schema.Consistent) (hdb : db.Valid)
    {table : Table} (hknown : engine.schema.table? table.name = some table) {args : FindArgs}
    {shape : Shape} (hproper : shape.Proper engine.schema table.name)
    (hsorts : shape.Throughout engine.schema (SortsAlone engine.schema db) table.name)
    (backwards : Bool) : ∃ records : List Record, ∀ size skip,
      (engine.findSeparately table args ⟨size, skip, backwards⟩ shape).Gives db.run fun found =>
        found = pageOf skip size records := by
  let columns := withHidden shape.fields (table.linkColumns (shape.relations.map (·.1)))
  let whole : Select := { engine.baseStatement table args ⟨none, none, backwards⟩ [] true with
    outputs := plainOutputs table.name columns }
  have hscoped : whole.WellScoped :=
    separateStatement_wellScoped engine table args ⟨none, none, backwards⟩ columns
  have hcounter : whole.counter? = none := counter?_eq_none fun output houtput => by
    obtain ⟨column, -, rfl⟩ := List.mem_map.mp houtput
    exact ⟨_, _, rfl⟩
  obtain ⟨rows, hrows⟩ := hscoped.run_ok db
  have hvalid : shape.relations ≠ [] → ∀ row ∈ rows, row.toRecord.Valid := by
    intro hsome row hrow
    obtain ⟨-, -, htable, -⟩ := baseStatement_frame engine table args ⟨none, none, backwards⟩ [] true
    obtain ⟨selected, hselected, hselects⟩ :=
      @exists_base_rows db engine table args ⟨none, none, backwards⟩
    have hcolumns : columns ≠ [] := fun hnone => hsome (shown_nothing hproper hknown hnone).2
    have hrun := run_of_selected hcolumns (by rw [htable])
      ((hselects (plainOutputs table.name columns)).trans (by rw [htable]))
    rw [hrows, Except.ok.injEq] at hrun
    rw [hrun] at hrow
    obtain ⟨found, hfound, rfl⟩ := List.mem_map.mp hrow
    exact Row.only_valid (hdb table.name found (hselected (cut_subset _ _ hfound))) _
  refine ⟨rows.map fun row => (loadedBranches engine.schema db shape.relations table.name
    row.toRecord).shown shape.fields (shape.relations.map (·.1)), fun size skip => ?_⟩
  have hrun := hscoped.run_window hcounter hrows
    (engine.baseStatement table args ⟨size, skip, backwards⟩ [] true).window
  intro found hfound
  rw [findSeparately_gives hschema hdb hproper hsorts ⟨size, skip, backwards⟩ hrun
    (fun hsome row hrow => hvalid hsome row (cut_subset _ _ hrow)) found hfound, ← cut_map,
    ← @pageOf_eq_cut engine table args _ ⟨size, skip, backwards⟩]

/-! ### Pages of a request -/

section Args

variable (engine : Engine) (table : Table) (args : FindArgs) (take : Option Int) (skip : Option Nat)

/-- A request is planned alike for all its pages. -/
theorem planFor_page : engine.planFor table { args with take, skip } = engine.planFor table args :=
  rfl

/-- What it finds by joins depends on the page that it is told to find, not on that it asks for. -/
theorem findJoined_args : engine.findJoined table { args with take, skip } =
    engine.findJoined table args :=
  rfl

end Args

/-- What makes a request a page of the whole: it takes records forwards; rows of its table are told
apart by their key; its joins are left or inner, those of relations to one match at most one row; and
related rows are sorted by comparable values. -/
structure PagesForwards (engine : Engine) (db : Database) (table : Table) (args : FindArgs) :
    Prop where
  forwards : ∀ take, args.take = some take → 0 ≤ take
  apart : ApartBy (engine.schema.usableKey table.name) (db.rows table.name)
  kinds : (engine.shapeFor table args).Throughout engine.schema
    (fun _ branch _ => branch.joinKind = .left ∨ branch.joinKind = .inner) table.name
  sorts : (engine.shapeFor table args).Throughout engine.schema (SortsAlone engine.schema db)
    table.name
  once : matchesOnce db (engine.planFor table args).2.joins
    ((db.rows table.name).map fun row => [(table.name, some row)])

section Requests

variable {table : Table} {args : FindArgs} (h : PagesForwards engine db table args)
  (hschema : engine.schema.Consistent) (hknown : engine.schema.table? table.name = some table)

include h hschema

variable (hdb : db.Valid)

include hdb

/-- By a joined statement such a request finds a page of the same records, whatever the page. -/
theorem PagesForwards.exists_findJoined_page : ∃ records : List Record, ∀ size skip,
    (engine.findJoined table args ⟨size, skip, false⟩ (engine.planFor table args).1
      (engine.planFor table args).2).Gives db.run fun found => found = pageOf skip size records := by
  have hplanned := planFor_planned hschema table args
  have hmem := hplanned.planned.mem_joins h.kinds
  rw [← hplanned.joins_eq] at hmem
  have hkinds : ∀ join ∈ (engine.planFor table args).2.joins, Rowwise join.clause := by
    intro join hjoin
    obtain ⟨⟨-, branch, hkind, heq⟩, -⟩ := hmem join hjoin
    rwa [← heq] at hkind
  have hsingle : (engine.planFor table args).1.fansOut = false → ∀ row ∈ db.rows table.name,
      ((engine.planFor table args).2.block db table.name row).length ≤ 1 :=
    fun hfans row hrow => extensions_single h.once
      (fun join hjoin => (hmem join hjoin).2 hfans) _ (List.mem_map_of_mem hrow)
  obtain ⟨tuples, hsubset, hselected, hshown, hkeys⟩ := exists_joined_rows hplanned hkinds
    (hplanned.begins.key_eq ▸ h.apart) hsingle ⟨none, none, false⟩
  exact ⟨_, fun size skip => findJoined_page hschema hdb (engine.schema.shape_proper _ _ _ _) h.sorts
    hplanned ⟨size, skip, false⟩ hsubset hselected hshown hkeys⟩

include hknown

/-- So it does by either strategy. -/
theorem PagesForwards.exists_pages (hmost : engine.settings.maxTake = none) :
    ∃ records : List Record, ∀ (take : Option Int) (skip : Option Nat),
      (∀ known, take = some known → 0 ≤ known) →
      (engine.findMany table.name { args with take, skip }).Gives db.run fun found =>
        found = pageOf skip (take.map Int.natAbs) records := by
  have hpaging : ∀ (take : Option Int) (skip : Option Nat),
      (∀ known, take = some known → 0 ≤ known) →
      engine.paging { args with take, skip } = ⟨take.map Int.natAbs, skip, false⟩ := by
    intro take skip hforwards
    have hturns : take.any (· < 0) = false := by
      cases take with
      | none => rfl
      | some known => simpa using hforwards known rfl
    unfold Engine.paging Settings.pageSize
    rw [hmost, hturns]
    cases take <;> rfl
  by_cases hjoins : engine.Joins table args
  · obtain ⟨records, hrecords⟩ := h.exists_findJoined_page hschema hdb
    refine ⟨records, fun take skip hforwards => ?_⟩
    rw [findMany_joined hknown (show engine.Joins table { args with take, skip } from hjoins)]
    refine gives_forwards ?_ (by rw [hpaging take skip hforwards])
    rw [hpaging take skip hforwards]
    exact hrecords _ skip
  · obtain ⟨records, hrecords⟩ := @exists_findSeparately_page db engine hschema hdb table hknown args
      (engine.shapeFor table args) (engine.schema.shape_proper _ _ _ _) h.sorts false
    refine ⟨records, fun take skip hforwards => ?_⟩
    rw [findMany_unjoined hknown (show ¬ engine.Joins table { args with take, skip } from hjoins)]
    refine gives_forwards ?_ (by rw [hpaging take skip hforwards])
    rw [hpaging take skip hforwards]
    exact hrecords _ skip

end Requests

/-- **Pages are windows of the whole.**  Over a schema that can come about, under settings without a
greatest page and on every database of valid values, take a request as `PagesForwards` has it: with
any filter, ordering, cursor, distinct columns and relations, and by either strategy.  It finds the
page, by its size and what it skips, of the records that it finds without either.  So its first
record is the first that it finds without a size. -/
theorem page_of_whole {schema : Schema} (h : schema.Reachable) {settings : Settings}
    (hmost : settings.maxTake = none) {db : Database} (hdb : db.Valid) {table : Table}
    (hknown : schema.table? table.name = some table) {args : FindArgs}
    (hargs : PagesForwards ⟨schema, settings⟩ db table args) :
    let engine : Engine := ⟨schema, settings⟩
    let find := fun args => ((engine.findMany table.name args).hold Database.source db).result
    ∃ records, find { args with take := none, skip := none } = .ok records ∧
      find args = .ok (pageOf args.skip (args.take.map Int.natAbs) records) ∧
      ∃ others, find { args with take := none } = .ok others ∧
        ((engine.findFirst table.name args).hold Database.source db).result = .ok others.head? := by
  intro engine find
  obtain ⟨records, hpages⟩ := hargs.exists_pages h.consistent hknown hdb hmost
  have hfind : ∀ (take : Option Int) (skip : Option Nat),
      (∀ known, take = some known → 0 ≤ known) →
      find { args with take, skip } = .ok (pageOf skip (take.map Int.natAbs) records) := by
    intro take skip hforwards
    obtain ⟨found, hfound, rfl⟩ :=
      findMany_result h.consistent hknown (hpages take skip hforwards)
    exact hfound
  refine ⟨records, hfind none none nofun, hfind args.take args.skip hargs.forwards, _,
    hfind none args.skip nofun, ?_⟩
  have hfirst := hfind (some 1) args.skip (by rintro known ⟨⟩; decide)
  simp only [find] at hfirst
  rw [Load.hold_result] at hfirst ⊢
  unfold Engine.findFirst
  rw [Load.resultFrom_bind, hfirst]
  refine congrArg Except.ok ?_
  simp [pageOf, List.head?_take]

/-- The second author, with the last of the posts of each, is found as the second of all authors. -/
theorem page_of_whole_blog :
    let engine : Engine := ⟨Schema.ofDecls blogTables, {}⟩
    let args : FindArgs :=
      { included := some [("posts", .relation
          { orderBy := some (.by "id" .descending), take := some 1 })]
        take := some 1, skip := some 1 }
    let find := fun args => ((engine.findMany "Author" args).hold Database.source blogRows).result
    ∃ known, engine.schema.table? "Author" = some known ∧ PagesForwards engine blogRows known args ∧
      ∃ records, find { args with take := none, skip := none } = .ok records ∧
        find args = .ok (pageOf (some 1) (some 1) records) ∧
        ∃ others, find { args with take := none } = .ok others ∧
          ((engine.findFirst "Author" args).hold Database.source blogRows).result =
            .ok others.head? := by
  intro engine args find
  obtain ⟨known, hknown, hname⟩ := exists_blog_author
  have hargs : PagesForwards engine blogRows known args := by
    constructor
    case forwards =>
      rintro take ⟨⟩
      decide
    case apart =>
      rw [hname]
      decide +kernel
    case kinds =>
      rw [Engine.shapeFor, hname]
      decide +kernel
    case sorts =>
      rw [Engine.shapeFor, hname]
      exact sortsAlone_of_integers (by decide +kernel)
    case once =>
      have hdistinct : known.distinctColumns args.distinct = [] := rfl
      rw [Engine.planFor, Engine.shapeFor, hname, hdistinct]
      decide +kernel
  have hfound := page_of_whole reachable_blog rfl (Database.valid_of_entries (by decide +kernel))
    (hname ▸ hknown) hargs
  rw [hname] at hfound
  exact ⟨known, hknown, hargs, hfound⟩

/-! ### Ranks that cannot be put in order -/

/-- Authors, and posts with a rank. -/
def rankedTables : List TableDecl :=
  [{ name := "Author", columns := [{ name := "id", type := .integer, primary := true }] },
   { name := "Post"
     columns := [{ name := "id", type := .integer, primary := true },
       { name := "rank", type := .float },
       { name := "authorId", type := .integer, references := some ⟨"Author", "id"⟩ }] }]

/-- Two posts of each of two authors.  The ranks of the first author are integers of which the floats
of the second tell none apart. -/
def rankedRows : Database :=
  [("Author", [[("id", .integer 1)], [("id", .integer 2)]]),
   ("Post", [
      [("authorId", .integer 1), ("id", .integer 1), ("rank", .integer 9007199254740993)],
      [("authorId", .integer 2), ("id", .integer 2), ("rank", .float (.ofInt 9007199254740992))],
      [("authorId", .integer 2), ("id", .integer 3), ("rank", .float (.ofInt 9007199254740992))],
      [("authorId", .integer 1), ("id", .integer 4), ("rank", .integer 9007199254740992)]])]

/-- A request for authors with their posts in the order of their ranks. -/
def rankedPosts (take : Option Int) : FindArgs :=
  { included := some [("posts", .relation { orderBy := some (.by "rank" .ascending) })]
    strategy := some .query, take }

/-- The ids of the posts of the authors found. -/
def rankedIds (outcome : Except QueryError (List Record)) : Option (List (Option (List Value))) :=
  outcome.toOption.map (List.map fun owner =>
    (owner.lookup "posts").map fun node => node.records.map (·.scalar "id"))

/-- Beside the posts of the second author, which equal both of them, those of the first keep their
places, and a page of the first author alone turns them round. -/
theorem page_resorts_related :
    let found := fun take => rankedIds ((Engine.findMany ⟨Schema.ofDecls rankedTables, {}⟩ "Author"
      (rankedPosts take)).hold Database.source rankedRows).result
    found none = some [some [.integer 1, .integer 4], some [.integer 2, .integer 3]] ∧
      found (some 1) = some [some [.integer 4, .integer 1]] := by
  decide +kernel

end NestedQuery
