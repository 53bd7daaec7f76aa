import NestedQuery.Proofs.JoinedRows
import NestedQuery.Proofs.RowwiseJoins

/-!
# The joins of a plan

What holds of every relation of a shape holds of the joins that are planned for
it.  Where relations are sorted by columns with comparable values, the sort keys
that they bring along order the joined rows of one base row; and where relations
to one match at most one row, a plan of such relations repeats no base row.
-/

namespace NestedQuery

variable {schema : Schema} {db : Database}

/-! ### Joins and relations -/

mutual

/-- Every join of a layout is of a relation of its shape. -/
theorem Shape.Planned.mem_joins {holds : String → Branch → Relation → Prop} :
    ∀ {shape : Shape} {table : String} {layout : Layout}, shape.Planned schema table layout →
    shape.Throughout schema holds table → ∀ join ∈ layout.joins schema,
      (∃ owner branch, holds owner branch join.relation ∧ join.kind = branch.joinKind) ∧
      (layout.fansOut = false → join.relation.kind.isToMany = false)
  | ⟨_, _, _⟩, _, ⟨_, _, _, _, _, _, _, _, _, _⟩, .intro htable _ _ _ _ _ hrelations,
      hthroughout, join, hjoin => by
      rw [Shape.Throughout] at hthroughout
      rw [Layout.joins] at hjoin
      rw [Layout.fansOut]
      cases htable
      exact hrelations.mem_joins hthroughout join hjoin

/-- Each join of planned relations is one of them with its own kind, and leads to one row unless
rows are repeated. -/
theorem BranchesPlanned.mem_joins {holds : String → Branch → Relation → Prop} :
    ∀ {relations : List (String × BranchOf Shape)} {table : String}
      {joined : List JoinedBranch} {deferred : List (String × Branch)} {qualifier : String},
    BranchesPlanned schema relations table joined deferred →
    branchesThroughout schema holds relations table →
    ∀ join ∈ branchJoins schema table qualifier joined,
      (∃ owner branch, holds owner branch join.relation ∧ join.kind = branch.joinKind) ∧
      (branchesFanOut joined = false → join.relation.kind.isToMany = false)
  | _, _, _, _, _, .nil, _, join, hjoin => by
      rw [branchJoins] at hjoin
      cases hjoin
  | _, table, _, _, qualifier, @BranchesPlanned.joined _ name branch rest _ relation layout others
      deferred hjoinable hlayout hlead hrest, hthroughout, join, hjoin => by
      have hrelation := (joinable?_eq_some hjoinable).1
      obtain ⟨hfirst, hothers⟩ := List.forall_mem_cons.mp (branchesThroughout_iff.mp hthroughout)
      obtain ⟨hholds, hbeneath⟩ := hfirst relation hrelation
      rw [branchJoins_cons hrelation] at hjoin
      rw [branchesFanOut]
      simp only [Bool.or_eq_false_iff]
      rcases List.mem_cons.mp hjoin with rfl | hjoin
      · exact ⟨⟨table, branch, hholds, rfl⟩, fun h => h.1.1⟩
      · rcases List.mem_append.mp hjoin with hjoin | hjoin
        · obtain ⟨howner, hsingle⟩ := hlayout.mem_joins hbeneath join hjoin
          exact ⟨howner, fun h => hsingle h.1.2⟩
        · obtain ⟨howner, hsingle⟩ :=
            hrest.mem_joins (branchesThroughout_iff.mpr hothers) join hjoin
          exact ⟨howner, fun h => hsingle h.2⟩
  | _, _, _, _, _, .deferred _ _ hrest, hthroughout, join, hjoin =>
      hrest.mem_joins (branchesThroughout_iff.mpr (List.forall_mem_cons.mp
        (branchesThroughout_iff.mp hthroughout)).2) join hjoin

end

/-! ### Sort keys of relations -/

/-- The columns that an ordering of a table names, of the table and of relations of it, hold values
in order. -/
def Schema.SortsIn (schema : Schema) (db : Database) (table : String)
    (order : Option SortRequest) : Prop :=
  ∀ request, order = some request → ∀ entry ∈ request.entries, ∀ key ∈ entry,
    (schema.hasColumn table key.1 = true →
      Value.Ordered ((db.rows table).map (·.value key.1))) ∧
    ∀ relation inner, schema.relation? table key.1 = some relation → key.2 = .nested inner →
      ∀ beneath ∈ inner, Value.Ordered ((db.rows relation.target).map (·.value beneath.1))

/-- The relation is sorted by columns that hold values in order. -/
def SortsByOrdered (schema : Schema) (db : Database) (_ : String) (branch : Branch)
    (relation : Relation) : Prop :=
  schema.SortsIn db relation.target branch.orderBy

/-- The key sorts by a column of a joined table with values in order. -/
def SortKey.OfJoin (db : Database) (joins : List PlannedJoin) (key : SortKey) : Prop :=
  ∃ join ∈ joins, key.column.qualifier = join.label ∧
    Value.Ordered ((db.rows join.relation.target).map (·.value key.column.name))

/-- A key of some joins is one of more joins. -/
theorem SortKey.OfJoin.mono {joins more : List PlannedJoin} {key : SortKey}
    (h : key.OfJoin db joins) (hmore : joins ⊆ more) : key.OfJoin db more := by
  obtain ⟨join, hjoin, hkey⟩ := h
  exact ⟨join, hmore hjoin, hkey⟩

/-- The sort keys of an ordering of a table: of its own columns, or of a joined table. -/
theorem mem_sortKeys {table qualifier : String} {order : Option SortRequest}
    {joined : JoinedTables} {key : SortKey} (h : key ∈ schema.sortKeys table qualifier order joined)
    (hsorts : schema.SortsIn db table order)
    (hjoined : ∀ name under, joined.lookup name = some under → ∃ relation,
      schema.relation? table name = some relation ∧ under.table = relation.target) :
    key.column.qualifier = qualifier ∧
        Value.Ordered ((db.rows table).map (·.value key.column.name)) ∨
      ∃ name under, joined.lookup name = some under ∧ key.column.qualifier = under.label ∧
        Value.Ordered ((db.rows under.table).map (·.value key.column.name)) := by
  unfold Schema.sortKeys at h
  split at h
  · next request known hknown =>
    obtain ⟨entry, hentry, h⟩ := List.mem_flatMap.mp h
    obtain ⟨⟨name, spec⟩, hkey, h⟩ := List.mem_flatMap.mp h
    obtain ⟨hown, hnested⟩ := hsorts request rfl entry hentry (name, spec) hkey
    simp only [Schema.keySortKeys] at h
    split at h
    · next hcolumn =>
        rw [SortSpec.key?_qualifier (Option.mem_toList.mp h)]
        refine Or.inl ⟨rfl, hown ?_⟩
        rwa [Schema.hasColumn, hknown, Option.any_some]
    · split at h
      · next under inner hunder =>
          obtain ⟨relation, hrelation, htable⟩ := hjoined name under hunder
          split at h
          · obtain ⟨⟨column, beneath⟩, hbeneath, h⟩ := List.mem_filterMap.mp h
            simp only at h
            split at h
            · rw [SortSpec.key?_qualifier h]
              refine Or.inr ⟨name, under, hunder, rfl, ?_⟩
              rw [htable]
              exact hnested relation inner hrelation rfl (column, beneath) hbeneath
            · cases h
          · cases h
      · cases h
  · cases h

/-- The joined tables beneath a table are those of its joins. -/
theorem BranchesPlanned.lookup_tables : ∀ {relations : List (String × BranchOf Shape)}
    {table : String} {joined : List JoinedBranch} {deferred : List (String × Branch)},
    BranchesPlanned schema relations table joined deferred → ∀ {name : String} {under : JoinedTable},
    (branchTables joined).lookup name = some under → ∀ (qualifier : String),
    ∃ join ∈ branchJoins schema table qualifier joined,
      schema.relation? table name = some join.relation ∧ under.table = join.relation.target ∧
        under.label = join.label
  | _, _, _, _, .nil, _, _, hunder, _ => by
      rw [branchTables] at hunder
      cases hunder
  | _, _, _, _, .joined hjoinable hlayout _ hrest, _, _, hunder, qualifier => by
      have hrelation := (joinable?_eq_some hjoinable).1
      rw [branchTables, Dict.lookup_cons] at hunder
      rw [branchJoins_cons hrelation]
      split at hunder
      · next hname =>
          cases hunder
          exact ⟨_, List.mem_cons_self, hname ▸ hrelation, hlayout.table_eq, rfl⟩
      · obtain ⟨join, hjoin, hfacts⟩ := hrest.lookup_tables hunder qualifier
        exact ⟨join, List.mem_cons_of_mem _ (List.mem_append_right _ hjoin), hfacts⟩
  | _, _, _, _, .deferred _ _ hrest, _, _, hunder, qualifier => hrest.lookup_tables hunder qualifier

/-- A joined table under the name of a relation is the target of its join. -/
theorem Shape.Planned.lookup_joinedTables {shape : Shape} {table : String} {layout : Layout}
    (h : shape.Planned schema table layout) {name : String} {under : JoinedTable}
    (hunder : layout.joinedTables.lookup name = some under) :
    ∃ join ∈ layout.joins schema,
      schema.relation? table name = some join.relation ∧ under.table = join.relation.target ∧
        under.label = join.label := by
  cases h with
  | intro htable _ _ _ _ _ hrelations =>
      obtain ⟨_, _, _, _, _, _, _, _, _, _⟩ := layout
      cases htable
      rw [Layout.joinedTables] at hunder
      rw [Layout.joins]
      exact hrelations.lookup_tables hunder _

mutual

/-- The sort keys that the relations of a shape bring along sort by columns of joined tables. -/
theorem Shape.Planned.clause_keys : ∀ {shape : Shape} {table : String} {layout : Layout},
    shape.Planned schema table layout →
    shape.Throughout schema (SortsByOrdered schema db) table → ∀ (n : Nat),
    ∀ key ∈ (layout.clauses schema n).1.keys, key.OfJoin db (layout.joins schema)
  | ⟨_, _, _⟩, _, ⟨_, _, _, _, _, _, _, _, _, _⟩, .intro htable _ _ _ _ _ hrelations,
      hthroughout, n, key, hkey => by
      rw [Shape.Throughout] at hthroughout
      rw [Layout.clauses] at hkey
      rw [Layout.joins]
      cases htable
      exact hrelations.clause_keys hthroughout _ n key hkey

/-- The sort keys that joined relations bring along are keys of their joins. -/
theorem BranchesPlanned.clause_keys : ∀ {relations : List (String × BranchOf Shape)}
    {table : String} {joined : List JoinedBranch} {deferred : List (String × Branch)},
    BranchesPlanned schema relations table joined deferred →
    branchesThroughout schema (SortsByOrdered schema db) relations table →
    ∀ (qualifier : String) (n : Nat), ∀ key ∈ (branchClauses schema joined n).1.keys,
      key.OfJoin db (branchJoins schema table qualifier joined)
  | _, _, _, _, .nil, _, qualifier, n, key, hkey => by
      rw [branchClauses] at hkey
      cases hkey
  | _, table, _, _, @BranchesPlanned.joined _ name branch rest _ relation layout others deferred
      hjoinable hlayout hlead hrest, hthroughout, qualifier, n, key, hkey => by
      have hrelation := (joinable?_eq_some hjoinable).1
      obtain ⟨hfirst, hothers⟩ := List.forall_mem_cons.mp (branchesThroughout_iff.mp hthroughout)
      obtain ⟨hsorts, hbeneath⟩ := hfirst relation hrelation
      rw [branchClauses] at hkey
      rw [branchJoins_cons hrelation]
      simp only [BranchClauses.append, List.mem_append] at hkey
      rcases hkey with (hkey | hkey) | hkey
      · rw [hlayout.table_eq] at hkey
        rcases mem_sortKeys hkey hsorts fun known under hunder => by
            obtain ⟨join, -, hknown, htable, -⟩ := hlayout.lookup_joinedTables hunder
            exact ⟨join.relation, hknown, htable⟩ with
          ⟨hqualifier, hordered⟩ | ⟨known, under, hunder, hqualifier, hordered⟩
        · exact ⟨_, List.mem_cons_self, hqualifier, hordered⟩
        · obtain ⟨join, hjoin, -, htable, hlabel⟩ := hlayout.lookup_joinedTables hunder
          exact ⟨join, List.mem_cons_of_mem _ (List.mem_append_left _ hjoin),
            hqualifier.trans hlabel, htable ▸ hordered⟩
      · refine (hlayout.clause_keys hbeneath _ key hkey).mono ?_
        exact fun join hjoin => List.mem_cons_of_mem _ (List.mem_append_left _ hjoin)
      · refine (hrest.clause_keys (branchesThroughout_iff.mpr hothers) qualifier _ key hkey).mono ?_
        exact fun join hjoin => List.mem_cons_of_mem _ (List.mem_append_right _ hjoin)
  | _, _, _, _, .deferred _ _ hrest, hthroughout, qualifier, n, key, hkey =>
      hrest.clause_keys (branchesThroughout_iff.mpr (List.forall_mem_cons.mp
        (branchesThroughout_iff.mp hthroughout)).2) qualifier n key hkey

end

mutual

/-- Relations without clauses bring none along. -/
theorem Shape.Planned.clauses_none : ∀ {shape : Shape} {table : String} {layout : Layout},
    shape.Planned schema table layout →
    shape.Throughout schema (fun _ branch _ => branch.WithoutClauses) table → ∀ (n : Nat),
    layout.clauses schema n = ({}, n)
  | ⟨_, _, _⟩, _, ⟨_, _, _, _, _, _, _, _, _, _⟩, .intro htable _ _ _ _ _ hrelations,
      hthroughout, n => by
      rw [Shape.Throughout] at hthroughout
      rw [Layout.clauses]
      exact hrelations.clauses_none hthroughout n

/-- Relations without clauses bring none along. -/
theorem BranchesPlanned.clauses_none : ∀ {relations : List (String × BranchOf Shape)}
    {table : String} {joined : List JoinedBranch} {deferred : List (String × Branch)},
    BranchesPlanned schema relations table joined deferred →
    branchesThroughout schema (fun _ branch _ => branch.WithoutClauses) relations table →
    ∀ (n : Nat), branchClauses schema joined n = ({}, n)
  | _, _, _, _, .nil, _, n => by
      rw [branchClauses]
  | _, table, _, _, @BranchesPlanned.joined _ name branch rest _ relation layout others deferred
      hjoinable hlayout hlead hrest, hthroughout, n => by
      obtain ⟨hfirst, hothers⟩ := List.forall_mem_cons.mp (branchesThroughout_iff.mp hthroughout)
      obtain ⟨hclauses, hbeneath⟩ := hfirst relation (joinable?_eq_some hjoinable).1
      have hfilter : branch.filter = none := hclauses.filter
      have horder : branch.orderBy = none := hclauses.orderBy
      rw [branchClauses, hfilter, horder]
      simp only [Schema.predicate?, Schema.sortKeys, hlayout.clauses_none hbeneath,
        hrest.clauses_none (branchesThroughout_iff.mpr hothers)]
      rfl
  | _, _, _, _, .deferred _ _ hrest, hthroughout, n =>
      hrest.clauses_none (branchesThroughout_iff.mpr (List.forall_mem_cons.mp
        (branchesThroughout_iff.mp hthroughout)).2) n

end

mutual

/-- Relations without filters bring no predicates along. -/
theorem Shape.Planned.predicates_nil : ∀ {shape : Shape} {table : String} {layout : Layout},
    shape.Planned schema table layout →
    shape.Throughout schema (fun _ branch _ => branch.filter = none) table → ∀ (n : Nat),
    (layout.clauses schema n).1.predicates = []
  | ⟨_, _, _⟩, _, ⟨_, _, _, _, _, _, _, _, _, _⟩, .intro htable _ _ _ _ _ hrelations,
      hthroughout, n => by
      rw [Shape.Throughout] at hthroughout
      rw [Layout.clauses]
      exact hrelations.predicates_nil hthroughout n

/-- Relations without filters bring no predicates along. -/
theorem BranchesPlanned.predicates_nil : ∀ {relations : List (String × BranchOf Shape)}
    {table : String} {joined : List JoinedBranch} {deferred : List (String × Branch)},
    BranchesPlanned schema relations table joined deferred →
    branchesThroughout schema (fun _ branch _ => branch.filter = none) relations table →
    ∀ (n : Nat), (branchClauses schema joined n).1.predicates = []
  | _, _, _, _, .nil, _, n => by
      rw [branchClauses]
  | _, table, _, _, @BranchesPlanned.joined _ name branch rest _ relation layout others deferred
      hjoinable hlayout hlead hrest, hthroughout, n => by
      obtain ⟨hfirst, hothers⟩ := List.forall_mem_cons.mp (branchesThroughout_iff.mp hthroughout)
      obtain ⟨hfilter, hbeneath⟩ := hfirst relation (joinable?_eq_some hjoinable).1
      dsimp only at hfilter
      rw [branchClauses, hfilter]
      simp only [Schema.predicate?, BranchClauses.append, hlayout.predicates_nil hbeneath,
        hrest.predicates_nil (branchesThroughout_iff.mpr hothers), Option.toList_none,
        List.append_nil]
  | _, _, _, _, .deferred _ _ hrest, hthroughout, n =>
      hrest.predicates_nil (branchesThroughout_iff.mpr (List.forall_mem_cons.mp
        (branchesThroughout_iff.mp hthroughout)).2) n

end

/-! ### Rows of one base row -/

/-- Keys decide one after the other. -/
theorem tupleOrder_append (keys others : List SortKey) (one other : Bindings) :
    tupleOrder (keys ++ others) one other =
      (tupleOrder keys one other).then (tupleOrder others one other) := by
  unfold tupleOrder
  rw [List.map_append, List.map_append]
  exact sortOrder_append (List.length_map _) (List.length_map _) _ _

section Tuples

variable {joins : List PlannedJoin} (hlabels : (joins.map (·.label)).Nodup) {table : String}

include hlabels

/-- Among the joined rows of one base row a key of a joined table has values in order.  If the label
of the join is hidden behind the base table, all values are the same. -/
theorem SortKey.OfJoin.ordered {key : SortKey} (h : key.OfJoin db joins) (row : Row) :
    Value.Ordered ((extensions db (joins.map PlannedJoin.clause) [(table, some row)]).map
      (·.cell key.column)) := by
  obtain ⟨join, hjoin, hqualifier, hordered⟩ := h
  by_cases hname : key.column.qualifier = table
  · have hsame : ∀ value ∈ (extensions db (joins.map PlannedJoin.clause) [(table, some row)]).map
        (·.cell key.column), value = row.value key.column.name := by
      intro value hvalue
      obtain ⟨tuple, htuple, rfl⟩ := List.mem_map.mp hvalue
      obtain ⟨more, rfl, -⟩ := extension_begins htuple
      have hcolumn : key.column = ⟨table, key.column.name⟩ := by
        rw [← hname]
      rw [hcolumn, List.singleton_append, Bindings.cell_cons_self]
    intro a ha b hb c hc _ _ _ hab _
    rw [hsame a ha, hsame b hb] at hab
    rwa [hsame a ha, hsame c hc]
  · have hmem : ∀ value ∈ (extensions db (joins.map PlannedJoin.clause) [(table, some row)]).map
        (·.cell key.column), value ≠ .null →
          value ∈ (db.rows join.relation.target).map (·.value key.column.name) := by
      intro value hvalue hnull
      obtain ⟨tuple, htuple, rfl⟩ := List.mem_map.mp hvalue
      obtain ⟨more, rfl, hmore⟩ := extension_begins htuple
      have hnodup : ((joins.map PlannedJoin.clause).map (·.label)).Nodup := by
        rw [List.map_map]
        exact hlabels
      have hlookup : List.lookup key.column.qualifier ([(table, some row)] ++ more) =
          more.lookup join.label := by
        rw [List.singleton_append, Dict.lookup_cons, if_neg hname, hqualifier]
      rcases lookup_extends hmore hnodup (List.mem_map_of_mem hjoin) with hnone | ⟨other, hother, hsome⟩
      · refine absurd ?_ hnull
        have hclause : more.lookup join.label = some none := hnone
        rw [Bindings.cell, hlookup, hclause]
        rfl
      · have hclause : more.lookup join.label = some (some other) := hsome
        rw [Bindings.cell, hlookup, hclause]
        exact List.mem_map.mpr ⟨other, hother, rfl⟩
    intro a ha b hb c hc hna hnb hnc
    exact hordered a (hmem a ha hna) b (hmem b hb hnb) c (hmem c hc hnc) hna hnb hnc

/-- Keys that put the base rows in order, and then keys of joined tables, order the joined rows. -/
theorem tupleOrder_orders {keys others : List SortKey}
    (hkeys : PutInOrder keys table (db.rows table))
    (hothers : ∀ key ∈ others, key.OfJoin db joins) :
    OrdersOn (tupleOrder (keys ++ others)) (· ∈ (db.rows table).flatMap fun row =>
      extensions db (joins.map PlannedJoin.clause) [(table, some row)]) := by
  have hfirst : OrdersOn (tupleOrder keys) (· ∈ (db.rows table).flatMap fun row =>
      extensions db (joins.map PlannedJoin.clause) [(table, some row)]) := by
    refine ordersOn_rowOf hkeys.own hkeys.ordered fun tuple htuple => ?_
    obtain ⟨row, hrow, hext⟩ := List.mem_flatMap.mp htuple
    obtain ⟨more, rfl, -⟩ := extension_begins hext
    rwa [List.singleton_append, Bindings.rowOf_cons_self]
  have hthen : tupleOrder (keys ++ others) = fun one other =>
      (tupleOrder keys one other).then (tupleOrder others one other) :=
    funext₂ (tupleOrder_append keys others)
  rw [hthen]
  refine hfirst.lexWithin (fun _ _ _ _ => sortOrder_swap others _ _) ?_
  intro a b c ha hb hc hab hbc
  obtain ⟨row, hrow, ha⟩ := List.mem_flatMap.mp ha
  obtain ⟨second, hsecond, hb⟩ := List.mem_flatMap.mp hb
  obtain ⟨third, hthird, hc⟩ := List.mem_flatMap.mp hc
  have hsame : ∀ one other tuple more, one ∈ db.rows table → other ∈ db.rows table →
      tuple ∈ extensions db (joins.map PlannedJoin.clause) [(table, some one)] →
      more ∈ extensions db (joins.map PlannedJoin.clause) [(table, some other)] →
      tupleOrder keys tuple more = .eq → one = other := by
    intro one other tuple more hone hother htuple hmore heq
    obtain ⟨tail, rfl, -⟩ := extension_begins htuple
    obtain ⟨rest, rfl, -⟩ := extension_begins hmore
    exact hkeys.eq_of_order hone hother ((tupleOrder_base hkeys.own _ _ _ _).symm.trans heq)
  cases hsame row second a b hrow hsecond ha hb hab
  cases hsame row third b c hrow hthird hb hc hbc
  have hone : OrdersOn (tupleOrder others)
      (· ∈ extensions db (joins.map PlannedJoin.clause) [(table, some row)]) :=
    ordersOn_sortOrder others (fun (tuple : Bindings) key => tuple.cell key.column)
      fun key hkey => (hothers key hkey).ordered hlabels row
  exact hone.trans a b c ha hb hc

end Tuples

/-! ### Relations to one -/

/-- Every join of a relation to one, beside the rows joined before it, matches at most one row. -/
def matchesOnce (db : Database) : List PlannedJoin → List Bindings → Prop
  | [], _ => True
  | join :: rest, tuples =>
    (join.relation.kind.isToMany = false → ∀ tuple ∈ tuples,
      ((db.rows join.relation.target).filter fun other =>
        accepts (join.on.truth db) (tuple ++ [(join.label, some other)])).length ≤ 1) ∧
    matchesOnce db rest (tuples.flatMap
      (besides (accepts (join.on.truth db)) join.kind join.label (db.rows join.relation.target)))

instance decideMatchesOnce : ∀ (joins : List PlannedJoin) (tuples : List Bindings),
    Decidable (matchesOnce db joins tuples)
  | [], _ => isTrue trivial
  | join :: rest, tuples =>
    have := decideMatchesOnce rest (tuples.flatMap
      (besides (accepts (join.on.truth db)) join.kind join.label (db.rows join.relation.target)))
    inferInstanceAs (Decidable (_ ∧ _))

/-- Joins of relations to one extend a row in one way at most. -/
theorem extensions_single : ∀ {joins : List PlannedJoin} {tuples : List Bindings},
    matchesOnce db joins tuples → (∀ join ∈ joins, join.relation.kind.isToMany = false) →
    ∀ tuple ∈ tuples, (extensions db (joins.map PlannedJoin.clause) tuple).length ≤ 1
  | [], _, _, _, tuple, _ => Nat.le_refl 1
  | join :: rest, tuples, h, hsingle, tuple, htuple => by
      obtain ⟨honce, hrest⟩ : _ ∧ _ := h
      obtain ⟨hkind, hothers⟩ := List.forall_mem_cons.mp hsingle
      have hbeside : (besides (accepts (join.on.truth db)) join.kind join.label
          (db.rows join.relation.target) tuple).length ≤ 1 := by
        unfold besides
        dsimp only
        split
        · exact Nat.le_refl 1
        · rw [List.length_map]
          exact honce hkind tuple htuple
      change ((besides (accepts (join.on.truth db)) join.kind join.label
        (db.rows join.relation.target) tuple).flatMap
          (extensions db (rest.map PlannedJoin.clause))).length ≤ 1
      cases hfound : besides (accepts (join.on.truth db)) join.kind join.label
          (db.rows join.relation.target) tuple with
      | nil => exact Nat.zero_le 1
      | cons first others =>
          have hnone : others = [] := by
            rw [hfound, List.length_cons] at hbeside
            exact List.length_eq_zero_iff.mp (by omega)
          rw [hnone, List.flatMap_cons, List.flatMap_nil, List.append_nil]
          refine extensions_single hrest hothers first (List.mem_flatMap.mpr ⟨tuple, htuple, ?_⟩)
          rw [hfound]
          exact List.mem_cons_self

end NestedQuery
