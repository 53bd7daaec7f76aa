import NestedQuery.Proofs.IncludedAlone
import NestedQuery.Proofs.Reachability
import NestedQuery.Proofs.SortableRequests

/-!
# How many records a request finds

The page of a request is cut in one of three places.  A base statement carries
it as its window, and so does a joined statement whose rows are its records;
where rows may repeat a record, the page is cut from the records that were
folded from them.  Folding makes no more records than there are rows, and
loading, stripping and turning round keep their number.  So no request finds
more records than its page holds; and what loads separately without a page finds
as many as its filter counts.
-/

namespace NestedQuery

variable {db : Database}

/-! ### Rows of a statement -/

/-- A statement that does not count yields one row for each one in its window. -/
theorem length_of_run {statement : Select} (hcounter : statement.counter? = none)
    {selected : List Bindings} (hselected : selectRows db statement [] = .ok selected)
    {rows : List Row} (hrows : db.run statement = .ok rows) :
    rows.length = (Window.cut statement.window selected).length := by
  unfold Database.run at hrows
  simp only [hselected, hcounter, bind, Except.bind] at hrows
  exact (forall₂_of_mapM_ok hrows).length_eq.symm

/-- So it yields at most as many rows as its window holds. -/
theorem length_le_of_run {statement : Select} (hcounter : statement.counter? = none) {size : Nat}
    {skip : Option Nat} (hwindow : statement.window = some ⟨some size, skip⟩) {rows : List Row}
    (hrows : db.run statement = .ok rows) : rows.length ≤ size := by
  cases hselected : selectRows db statement [] with
  | error error =>
      simp only [Database.run, hselected, bind, Except.bind] at hrows
      cases hrows
  | ok selected =>
      rw [length_of_run hcounter hselected hrows, hwindow]
      exact List.length_take_le _ _

/-- Folding makes a record of a group of rows, and each group has a row of its own. -/
theorem Layout.length_assemble_le (layout : Layout) (rows : List Row) :
    (layout.assemble rows).length ≤ rows.length := by
  obtain ⟨_, _, _, _, _, _, _, _, _, _⟩ := layout
  rw [Layout.assemble, List.length_map, Layout.groups, groupsOf, List.length_map]
  exact (firstOfEach_sublist _ _ _).length_le.trans (List.length_filter_le _ _)

theorem counter?_plainOutputs (statement : Select) (table : String) (columns : List String) :
    SelectOf.counter? { statement with outputs := plainOutputs table columns } = none := by
  refine counter?_eq_none ?_
  intro output houtput
  obtain ⟨column, -, rfl⟩ := List.mem_map.mp houtput
  exact ⟨_, _, rfl⟩

theorem counter?_joinedStatement {engine : Engine} {table : Table} {args : FindArgs}
    {paging : Paging} {layout : Layout} {planner : Planner} {scope : List String}
    (hlayout : layout.Within scope) :
    (engine.joinedStatement table args paging layout planner).counter? = none := by
  rw [joinedStatement_frame]
  refine counter?_eq_none ?_
  intro output houtput
  obtain ⟨ref, label, heq, -⟩ := hlayout.projection output houtput
  exact ⟨ref, label, heq⟩

/-! ### Records of a request -/

/-- Changing records one by one keeps their number. -/
theorem gives_length {α : Type} {changes : Load α} {finish : α → Record → Record}
    (records : List Record) :
    (do let change ← changes; return records.map (finish change) : Load _).Gives db.run
      fun found => found.length = records.length := by
  have hany : changes.Gives db.run fun _ => True := fun _ _ => trivial
  refine hany.bind ?_
  intro change _
  exact Load.gives_pure (List.length_map _)

section Requests

variable {engine : Engine} {table : Table} {args : FindArgs} {paging : Paging}

/-- A base statement with a page has it as its window. -/
theorem baseStatement_window (engine : Engine) (table : Table) (args : FindArgs)
    (joined : JoinedTables) {size : Nat} (hsize : paging.size = some size) :
    (engine.baseStatement table args paging joined true).window = some ⟨some size, paging.skip⟩ := by
  simp [Engine.baseStatement, hsize]

/-- Loading separately finds a record for each row of the base statement. -/
theorem findSeparately_length (shape : Shape) :
    (engine.findSeparately table args paging shape).Gives db.run fun records =>
      ∃ columns rows, db.run { engine.baseStatement table args paging [] true with
        outputs := plainOutputs table.name columns } = .ok rows ∧ records.length = rows.length := by
  unfold Engine.findSeparately
  refine Load.Gives.bind (Load.gives_query fun rows hrows => hrows) ?_
  intro rows hrows found hfound
  refine ⟨_, rows, hrows, ?_⟩
  rw [gives_length _ found hfound, List.length_map]

/-- A page bounds what separate loading finds: it is the window of the base statement. -/
theorem findSeparately_length_le (shape : Shape) {size : Nat} (hsize : paging.size = some size) :
    (engine.findSeparately table args paging shape).Gives db.run fun records =>
      records.length ≤ size := by
  intro records hrecords
  obtain ⟨columns, rows, hrows, hlength⟩ := findSeparately_length shape records hrecords
  rw [hlength]
  exact length_le_of_run (counter?_plainOutputs _ _ _)
    (baseStatement_window engine table args [] hsize) hrows

/-- A page bounds what a joined statement finds: it is the window of the statement, or it is cut
from the folded records if rows may repeat them. -/
theorem findJoined_length_le {layout : Layout} {planner : Planner} {scope : List String}
    (hlayout : layout.Within scope) {size : Nat} (hsize : paging.size = some size) :
    (engine.findJoined table args paging layout planner).Gives db.run fun records =>
      records.length ≤ size := by
  unfold Engine.findJoined
  refine Load.Gives.bind (Load.gives_query fun rows hrows => hrows) ?_
  intro rows hrows
  extract_lets records paged
  have hpaged : paged.length ≤ size := by
    by_cases hfans : layout.fansOut = true
    · simp only [paged, hfans, if_true, pageOf, hsize]
      exact List.length_take_le _ _
    · have hwindow : (engine.joinedStatement table args paging layout planner).window =
          some ⟨some size, paging.skip⟩ := by
        rw [joinedStatement_frame]
        simp only [hfans, Bool.not_false]
        exact baseStatement_window engine table args layout.joinedTables hsize
      simp only [paged, hfans]
      exact (layout.length_assemble_le rows).trans
        (length_le_of_run (counter?_joinedStatement hlayout) hwindow hrows)
  intro found hfound
  rw [gives_length _ found hfound]
  exact hpaged

/-- A page bounds what a request finds, in whichever way it loads. -/
theorem findMany_length_le {name : String} (hknown : engine.schema.table? name = some table)
    {size : Nat} (hsize : (engine.paging args).size = some size) :
    (engine.findMany name args).Gives db.run fun records => records.length ≤ size := by
  have hturned : ∀ (backwards : Bool) (records : List Record), records.length ≤ size →
      (if backwards then records.reverse else records).length ≤ size := by
    intro backwards records hrecords
    cases backwards with
    | false => exact hrecords
    | true => simpa using hrecords
  unfold Engine.findMany
  rw [hknown]
  dsimp only
  split
  · refine gives_turned fun records hrecords => hturned _ records ?_
    exact findJoined_length_le (Shape.layout_within _ _ _).2 hsize records hrecords
  · refine gives_turned fun records hrecords => hturned _ records ?_
    exact findSeparately_length_le _ hsize records hrecords

end Requests

/-- The size of a page is at most the greatest page. -/
theorem Settings.pageSize_le_maxTake {settings : Settings} {most : Nat}
    (hmost : settings.maxTake = some most) (take : Option Int) :
    ∃ size, settings.pageSize take = some size ∧ size ≤ most := by
  unfold Settings.pageSize
  rw [hmost]
  cases take with
  | none => exact ⟨most, rfl, Nat.le_refl _⟩
  | some asked => exact ⟨min asked.natAbs most, rfl, Nat.min_le_right _ _⟩

/-- It is at most what is asked for, counted from either end. -/
theorem Settings.pageSize_le_asked (settings : Settings) (asked : Int) :
    ∃ size, settings.pageSize (some asked) = some size ∧ size ≤ asked.natAbs := by
  unfold Settings.pageSize
  cases settings.maxTake with
  | none => exact ⟨asked.natAbs, rfl, Nat.le_refl _⟩
  | some most => exact ⟨min asked.natAbs most, rfl, Nat.min_le_left _ _⟩

/-- **Pages are bounded.**  A request about a known table returns where its rows can be sorted.  What
it returns holds at most as many records as the settings allow, and at most as many as the request
asks for, from the front or from the end, whatever else it asks for and in whichever way it loads. -/
theorem findMany_bounded {schema : Schema} (h : schema.Reachable) (settings : Settings)
    (db : Database) {name : String} {table : Table} (hknown : schema.table? name = some table)
    (args : FindArgs) :
    let request := Engine.findMany ⟨schema, settings⟩ name args
    request.ReturnsOn db ∧
      ∀ records, (request.hold Database.source db).result = .ok records →
        (∀ most, settings.maxTake = some most → records.length ≤ most) ∧
        ∀ asked, args.take = some asked → records.length ≤ asked.natAbs := by
  intro request
  have hbound : ∀ {size : Nat}, settings.pageSize args.take = some size →
      request.Gives db.run fun records => records.length ≤ size :=
    fun hsize => findMany_length_le hknown hsize
  refine ⟨findMany_returnsOn h.consistent hknown args db, fun records hrecords => ⟨?_, ?_⟩⟩
  · intro most hmost
    obtain ⟨size, hsize, hle⟩ := Settings.pageSize_le_maxTake hmost args.take
    exact ((hbound hsize).of_result hrecords).trans hle
  · intro asked hasked
    obtain ⟨size, hsize, hle⟩ := settings.pageSize_le_asked asked
    rw [← hasked] at hsize
    exact ((hbound hsize).of_result hrecords).trans hle

/-- Of the blog's two authors one is found where the settings allow one, though two are asked for
from the end, with their posts, and none where none is asked for. -/
theorem findMany_bounded_blog :
    (Schema.ofDecls blogTables).Reachable ∧
      (∃ records, ((Engine.findMany ⟨Schema.ofDecls blogTables, { maxTake := some 1 }⟩ "Author"
        { ({} : FindArgs).including "posts" with take := some (-2) }).hold Database.source
          blogRows).result = .ok records ∧ records.length ≤ 1) ∧
      ∃ records, ((Engine.findMany ⟨Schema.ofDecls blogTables, {}⟩ "Author"
        { take := some 0 }).hold Database.source blogRows).result = .ok records ∧
          records.length ≤ 0 := by
  obtain ⟨table, hknown, -⟩ := exists_blog_author
  obtain ⟨hreturns, hmost⟩ := findMany_bounded reachable_blog { maxTake := some 1 }
    blogRows hknown { ({} : FindArgs).including "posts" with take := some (-2) }
  obtain ⟨hreturnsNone, hasked⟩ := findMany_bounded reachable_blog {} blogRows hknown
    { take := some 0 }
  obtain ⟨records, hfound⟩ := hreturns (by decide +kernel)
  obtain ⟨none, hnone⟩ := hreturnsNone (by decide +kernel)
  exact ⟨reachable_blog, ⟨records, hfound, (hmost records hfound).1 1 rfl⟩, none, hnone,
    (hasked none hnone).2 0 rfl⟩

/-! ### Counting -/

/-- The rows of a table that satisfy a filter. -/
def Schema.keptRows (schema : Schema) (db : Database) (table : String) (filter : Option Filter) :
    List Row :=
  (db.rows table).filter fun row =>
    db.passes (schema.predicate? table table filter [] 0).1 [(table, some row)]

section Counted

variable {engine : Engine} {table : Table} {args : FindArgs}

/-- Without a cursor, a page and distinct columns, a base statement selects the rows that satisfy
the filter, in some order. -/
theorem selected_perm_keptRows (hcursor : args.cursor = none) (paging : Paging) :
    let base := engine.baseStatement table args paging [] true
    (db.selected table.name base.filter base.orderBy).Perm
      (engine.schema.keptRows db table.name args.filter) := by
  intro base
  refine (selected_perm_filter _ _ _).trans (List.Perm.of_eq ?_)
  refine List.filter_congr fun row _ => ?_
  have hcursorless : db.passes (args.cursor.bind (table.cursorPredicate? · paging.backwards))
      [(table.name, some row)] = true := by
    rw [hcursor]
    rfl
  rw [passes_baseStatement List.mem_cons_self (noTables_within _) (List.Subset.refl _), hcursorless,
    Bool.and_true]

/-- So separate loading finds as many records as there are such rows. -/
theorem findSeparately_length_eq (shape : Shape) (hcursor : args.cursor = none)
    (hdistinct : args.distinct = none) {paging : Paging} (hsize : paging.size = none)
    (hskip : paging.skip = none) :
    (engine.findSeparately table args paging shape).Gives db.run fun records =>
      records.length = (engine.schema.keptRows db table.name args.filter).length := by
  intro records hrecords
  obtain ⟨columns, rows, hrows, hlength⟩ := findSeparately_length shape records hrecords
  have hwindow : (engine.baseStatement table args paging [] true).window = none := by
    simp [Engine.baseStatement, hsize, hskip]
  rw [hlength, length_of_run (counter?_plainOutputs _ _ _) (selectRows_base hdistinct _) hrows,
    hwindow]
  exact (List.length_map _).trans (selected_perm_keptRows hcursor paging).length_eq

/-- Counting reports their number. -/
theorem countWhere_result (hknown : engine.schema.table? table.name = some table)
    (filter : Option Filter) :
    ((engine.countWhere table.name filter).hold Database.source db).result =
      .ok (engine.schema.keptRows db table.name filter).length := by
  rw [countWhere_hold_rows engine hknown (selectRows_count table.name filter), List.length_map]
  rfl

/-- Whether there are any is whether their number is positive. -/
theorem anyWhere_result (hknown : engine.schema.table? table.name = some table) (filter : Filter) :
    ((engine.anyWhere table.name filter).hold Database.source db).result =
      .ok (decide (0 < (engine.schema.keptRows db table.name (some filter)).length)) := by
  unfold Engine.anyWhere
  rw [Load.hold_result, Load.resultFrom_bind, ← Load.hold_result, countWhere_result hknown]
  rfl

end Counted

/-- **Counting agrees with finding.**  Counting always reports the number of rows that satisfy a
filter.  A request with this filter that loads separately, without a cursor, a page and distinct
columns, returns where its rows can be sorted; whatever it selects, includes, omits and sorts by, it
returns as many records as are counted, and there are any exactly if it returns some. -/
theorem count_agrees {schema : Schema} (h : schema.Reachable) {settings : Settings}
    (hmost : settings.maxTake = none) (db : Database) {name : String} {table : Table}
    (hknown : schema.table? name = some table) {args : FindArgs}
    (hstrategy : args.strategy.getD settings.strategy = .query) (hcursor : args.cursor = none)
    (htake : args.take = none) (hskip : args.skip = none) (hdistinct : args.distinct = none) :
    let engine : Engine := { schema, settings }
    let request := engine.findMany name args
    let kept := (schema.keptRows db name args.filter).length
    ((engine.count name { filter := args.filter }).hold Database.source db).result = .ok kept ∧
      request.ReturnsOn db ∧
      ∀ records, (request.hold Database.source db).result = .ok records →
        records.length = kept ∧
        ∀ filter, args.filter = some filter →
          ((engine.anyWhere name filter).hold Database.source db).result =
            .ok (!records.isEmpty) := by
  intro engine request kept
  have hname := h.consistent.table_name hknown
  subst hname
  have hpaging : engine.paging args = ⟨none, none, false⟩ := by
    simp [Engine.paging, Settings.pageSize, htake, hskip, engine, hmost]
  have hgives := findMany_separately hknown hstrategy (by rw [hpaging])
    (@findSeparately_length_eq db engine table args _ hcursor hdistinct (engine.paging args)
      (by rw [hpaging]) (by rw [hpaging]))
  refine ⟨countWhere_result hknown args.filter, findMany_returnsOn h.consistent hknown args db,
    fun records hrecords => ?_⟩
  have hlength : records.length = kept := hgives.of_result hrecords
  refine ⟨hlength, fun filter hfilter => ?_⟩
  simp only [kept, hfilter] at hlength
  rw [anyWhere_result hknown filter, ← hlength]
  cases records <;> rfl

/-- Of the blog's authors those who have a post are asked for in the order of their names, with their
posts in the order of the titles, and without their names: one is found, and one is counted. -/
theorem count_agrees_blog :
    let engine : Engine := ⟨Schema.ofDecls blogTables, {}⟩
    let published : Filter := Filter.empty.entry "posts" (.related .empty)
    let args : FindArgs :=
      { included := some [("posts", .relation { orderBy := some (.by "title" .descending) })]
        filter := some published
        omitted := some [("name", true)]
        orderBy := some (.by "name" .ascending)
        strategy := some .query }
    engine.schema.Reachable ∧ ∃ records,
      ((engine.findMany "Author" args).hold Database.source blogRows).result = .ok records ∧
      records.length = 1 ∧
      ((engine.count "Author" { filter := some published }).hold Database.source blogRows).result =
        .ok 1 ∧
      ((engine.anyWhere "Author" published).hold Database.source blogRows).result =
        .ok (!records.isEmpty) := by
  intro engine published args
  obtain ⟨table, hknown, -⟩ := exists_blog_author
  have hkept : (engine.schema.keptRows blogRows "Author" (some published)).length = 1 := by
    decide +kernel
  obtain ⟨hcount, hreturns, hagrees⟩ :=
    @count_agrees _ reachable_blog {} rfl blogRows _ _ hknown args rfl rfl rfl rfl rfl
  obtain ⟨records, hfound⟩ := hreturns (by decide +kernel)
  obtain ⟨hlength, hany⟩ := hagrees records hfound
  rw [hkept] at hcount hlength
  exact ⟨reachable_blog, records, hfound, hlength, hcount, hany published rfl⟩

end NestedQuery
