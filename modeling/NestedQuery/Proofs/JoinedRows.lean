import NestedQuery.Proofs.Folding
import NestedQuery.Proofs.Nesting

/-!
# Joined rows

A statement that joins the relations of a layout has a row for every combination
of linked rows, with no row where a relation has none.  These combinations are
described by recursion on the layout, and joining one relation after the other,
depth first, is shown to make them.
-/

namespace NestedQuery

variable {schema : Schema} {db : Database}

/-! ### Combinations -/

/-- The rows that the named relation of a table links a row to. -/
def Schema.linked (schema : Schema) (db : Database) (table name : String) (row : Row) : List Row :=
  match schema.relation? table name with
  | some relation => relation.linked db row
  | none => []

/-- Under the name of a relation stand the rows that it links to. -/
theorem Schema.linked_of_relation {table name : String} {relation : Relation}
    (h : schema.relation? table name = some relation) (row : Row) :
    schema.linked db table name row = relation.linked db row := by
  rw [Schema.linked, h]

/-- The rows, or no row once if there are none. -/
def orNone (rows : List Row) : List (Option Row) :=
  if rows.isEmpty then [none] else rows.map some

/-- There is always something to combine a row with. -/
theorem orNone_ne_nil (rows : List Row) : orNone rows ≠ [] := by
  unfold orNone
  cases rows <;> simp

/-- It is a row, or nothing if there are no rows. -/
theorem mem_orNone {rows : List Row} {found : Option Row} (h : found ∈ orNone rows) :
    found = none ∧ rows = [] ∨ ∃ row ∈ rows, found = some row := by
  unfold orNone at h
  cases rows with
  | nil => exact Or.inl ⟨List.mem_singleton.mp h, rfl⟩
  | cons first rest =>
      obtain ⟨row, hrow, rfl⟩ := List.mem_map.mp h
      exact Or.inr ⟨row, hrow, rfl⟩

/-- Of rows that there are, each is combined. -/
theorem orNone_of_ne_nil {rows : List Row} (h : rows ≠ []) : orNone rows = rows.map some :=
  if_neg (by simpa using h)

mutual

/-- The rows of a join that begin with a row of a table, or with none. -/
def Layout.expand (schema : Schema) (db : Database) : Layout → Option Row → List Bindings
  | ⟨table, qualifier, _, _, _, _, _, _, relations, _⟩, found =>
    (expandBranches schema db table relations found).map ((qualifier, found) :: ·)

/-- Every combination of rows of the relations of a row. -/
def expandBranches (schema : Schema) (db : Database) (table : String) :
    List (JoinedBranchOf Layout) → Option Row → List Bindings
  | [], _ => [[]]
  | ⟨name, _, _, layout⟩ :: rest, found =>
    (orNone (found.elim [] (schema.linked db table name))).flatMap fun other =>
      (layout.expand schema db other).flatMap fun beneath =>
        (expandBranches schema db table rest found).map (beneath ++ ·)

end

mutual

/-- The names under which a statement knows the tables of a layout. -/
def Layout.labels : Layout → List String
  | ⟨_, qualifier, _, _, _, _, _, _, relations, _⟩ => qualifier :: branchLabels relations

def branchLabels : List (JoinedBranchOf Layout) → List String
  | [] => []
  | ⟨_, _, _, layout⟩ :: rest => layout.labels ++ branchLabels rest

end

mutual

/-- The joins of the relations beneath a table, depth first. -/
def Layout.joins (schema : Schema) : Layout → List PlannedJoin
  | ⟨table, qualifier, _, _, _, _, _, _, relations, _⟩ =>
    branchJoins schema table qualifier relations

def branchJoins (schema : Schema) (table qualifier : String) :
    List (JoinedBranchOf Layout) → List PlannedJoin
  | [] => []
  | ⟨name, _, branch, layout⟩ :: rest =>
    (schema.relation? table name).toList.map
      (fun relation => ⟨relation, name, qualifier, layout.qualifier, branch.joinKind⟩) ++
      layout.joins schema ++ branchJoins schema table qualifier rest

end

/-! ### What joins rest on -/

/-- Rows are told apart by columns, which are not all null in any of them. -/
structure ApartBy (key : List String) (rows : List Row) : Prop where
  apart : (rows.map fun row => Value.jointKey (key.map row.value)).Nodup
  present : ∀ row ∈ rows, ∃ column ∈ key, row.value column ≠ .null

instance (key : List String) (rows : List Row) : Decidable (ApartBy key rows) :=
  decidable_of_iff ((rows.map fun row => Value.jointKey (key.map row.value)).Nodup ∧
      ∀ row ∈ rows, ∃ column ∈ key, row.value column ≠ .null)
    ⟨fun ⟨apart, present⟩ => ⟨apart, present⟩, fun h => ⟨h.apart, h.present⟩⟩

/-- Some of the rows that a key tells apart are told apart by it. -/
theorem ApartBy.sublist {key : List String} {rows some : List Row} (h : ApartBy key rows)
    (hsome : some.Sublist rows) : ApartBy key some :=
  ⟨h.apart.sublist (hsome.map _), fun row hrow => h.present row (hsome.subset hrow)⟩

/-- So are these rows in any order. -/
theorem ApartBy.perm {key : List String} {rows others : List Row} (h : ApartBy key rows)
    (hothers : others.Perm rows) : ApartBy key others :=
  ⟨(hothers.map _).nodup_iff.mpr h.apart, fun row hrow => h.present row (hothers.subset hrow)⟩

/-- A joined relation shows all linked rows, which are linked directly and told apart by their
keys; a relation to one links to one at most. -/
structure JoinedBranchOf.Links (schema : Schema) (db : Database) (table : String)
    (joined : JoinedBranch) : Prop where
  relation : ∃ relation, schema.relation? table joined.name = some relation ∧
    relation.junction = none ∧ joined.isToMany = relation.kind.isToMany ∧
    joined.layout.table = relation.target
  clauses : joined.branch.WithoutClauses
  single : joined.isToMany = false → ∀ row ∈ db.rows table,
    (schema.linked db table joined.name row).length ≤ 1
  keyed : ApartBy joined.layout.key (db.rows joined.layout.table)
  notBase : joined.layout.isBase = false

mutual

/-- Every joined relation of a layout links rows, and columns and relations have names of their
own. -/
def Layout.Regular (schema : Schema) (db : Database) : Layout → Prop
  | ⟨table, _, _, _, columns, outputs, key, identity, relations, _⟩ =>
    (outputs.length = columns.length ∧
      identity = (if key.isEmpty then outputs else outputsOf columns outputs key) ∧
      key ⊆ columns ∧ (relations.map (·.name)).Nodup ∧
      ∀ joined ∈ relations, joined.name ∉ columns) ∧
    branchesRegular schema db table relations

def branchesRegular (schema : Schema) (db : Database) (table : String) :
    List (JoinedBranchOf Layout) → Prop
  | [] => True
  | ⟨name, isToMany, branch, layout⟩ :: rest =>
    (JoinedBranchOf.Links schema db table ⟨name, isToMany, branch, layout⟩ ∧
      layout.Regular schema db) ∧
    branchesRegular schema db table rest

end

mutual

/-- In a regular layout each column has an output. -/
theorem Layout.Regular.named : ∀ {layout : Layout}, layout.Regular schema db → layout.Named
  | ⟨_, _, _, _, _, _, _, _, _, _⟩, h => by
      rw [Layout.Regular] at h
      rw [Layout.Named]
      exact ⟨h.1.1, h.1.2.1, branchesRegular_named h.2⟩

/-- So it has beneath regular relations. -/
theorem branchesRegular_named {table : String} : ∀ {relations : List (JoinedBranchOf Layout)},
    branchesRegular schema db table relations → branchesNamed relations
  | [], h => by
      rw [branchesNamed]
      trivial
  | ⟨_, _, _, _⟩ :: _, h => by
      rw [branchesRegular] at h
      rw [branchesNamed]
      exact ⟨h.1.2.named, branchesRegular_named h.2⟩

end

/-- What joining a relation rests on: it brings no clauses along, the values by which it links rows
are equal if their keys are, only many to many goes through a junction, a relation to one links to
one row at most, and the rows of its target are told apart by the primary key. -/
structure JoinsAsLinked (schema : Schema) (db : Database) (table : String) (branch : Branch)
    (relation : Relation) : Prop where
  clauses : branch.WithoutClauses
  keyed : relation.Keyed db table
  through : relation.junction.isSome → relation.kind = .manyToMany
  single : relation.kind.isToMany = false → ∀ row ∈ db.rows table,
    (relation.linked db row).length ≤ 1
  apart : ApartBy (schema.usableKey relation.target) (db.rows relation.target)

instance (table : String) (branch : Branch) (relation : Relation) :
    Decidable (JoinsAsLinked schema db table branch relation) :=
  decidable_of_iff (branch.WithoutClauses ∧ relation.Keyed db table ∧
      (relation.junction.isSome → relation.kind = .manyToMany) ∧
      (relation.kind.isToMany = false → ∀ row ∈ db.rows table,
        (relation.linked db row).length ≤ 1) ∧
      ApartBy (schema.usableKey relation.target) (db.rows relation.target))
    ⟨fun ⟨clauses, keyed, through, single, apart⟩ => ⟨clauses, keyed, through, single, apart⟩,
      fun h => ⟨h.clauses, h.keyed, h.through, h.single, h.apart⟩⟩

mutual

/-- The layout of a shape is regular if all relations of the shape are fit to be joined. -/
theorem Shape.Planned.regular : ∀ {shape : Shape} {table : String} {layout : Layout},
    shape.Planned schema table layout → layout.Named → shape.Proper schema table →
    shape.Throughout schema (JoinsAsLinked schema db) table → layout.Regular schema db
  | ⟨fields, excluded, relations⟩, table,
      ⟨_, _, _, _, columns, outputs, key, identity, joined, deferred⟩,
      .intro htable hfields hkey hcarried hlinked hknown hrelations, hnamed, hproper,
      hthroughout => by
      rw [Layout.Named] at hnamed
      rw [Shape.Proper] at hproper
      rw [Shape.Throughout] at hthroughout
      obtain ⟨hlength, hidentity, hbranchesNamed⟩ := hnamed
      obtain ⟨hcolumns, hnodup, hbranches⟩ := hproper
      cases htable
      rw [Layout.Regular]
      refine ⟨⟨hlength, hidentity, ?_, (hrelations.nodup hnodup).1, ?_⟩,
        hrelations.regular hbranchesNamed hbranches hthroughout⟩
      · exact List.Subset.trans (List.subset_append_right _ _) hcarried
      · intro branch hbranch hcolumn
        have hname : branch.name ∈ relations.map (·.1) :=
          hrelations.names_perm.subset (List.mem_append_left _ (List.mem_map_of_mem hbranch))
        obtain ⟨entry, hentry, heq⟩ := List.mem_map.mp hname
        have hnone := (branchesProper_iff.mp hbranches entry hentry).1
        rw [heq, hknown branch.name hcolumn] at hnone
        cases hnone

/-- Planned relations that are named are regular, if each joins as it links. -/
theorem BranchesPlanned.regular : ∀ {relations : List (String × BranchOf Shape)} {table : String}
    {joined : List JoinedBranch} {deferred : List (String × Branch)},
    BranchesPlanned schema relations table joined deferred → branchesNamed joined →
    branchesProper schema relations table →
    branchesThroughout schema (JoinsAsLinked schema db) relations table →
    branchesRegular schema db table joined
  | _, _, _, _, .nil, hnamed, hproper, hthroughout => by
      rw [branchesRegular]
      trivial
  | _, table, _, _, @BranchesPlanned.joined _ name branch rest _ relation layout others deferred
      hjoinable hlayout hlead hrest, hnamed, hproper, hthroughout => by
      obtain ⟨hrelation, hkind, -⟩ := joinable?_eq_some hjoinable
      obtain ⟨⟨-, known, hknown, hshape⟩, hothersProper⟩ :=
        List.forall_mem_cons.mp (branchesProper_iff.mp hproper)
      obtain ⟨hfirst, hothersThroughout⟩ :=
        List.forall_mem_cons.mp (branchesThroughout_iff.mp hthroughout)
      obtain ⟨hjoins, hbeneath⟩ := hfirst relation hrelation
      rw [hrelation] at hknown
      cases hknown
      rw [branchesNamed] at hnamed
      rw [branchesRegular]
      have hdirect : relation.junction = none := by
        by_contra hsome
        exact hkind (hjoins.through (Option.isSome_iff_ne_none.mpr hsome))
      refine ⟨⟨⟨⟨relation, hrelation, hdirect, rfl, hlayout.table_eq⟩, hjoins.clauses, ?_, ?_, ?_⟩,
        hlayout.regular hnamed.1 hshape hbeneath⟩,
        hrest.regular hnamed.2 (branchesProper_iff.mpr hothersProper)
          (branchesThroughout_iff.mpr hothersThroughout)⟩
      · intro hsingle row hrow
        rw [Schema.linked_of_relation hrelation]
        exact hjoins.single hsingle row hrow
      · rw [hlayout.table_eq, hlayout.key_eq]
        exact hjoins.apart
      · simpa [Layout.isBase] using hlead
  | _, _, _, _, .deferred hjoinable hrelation hrest, hnamed, hproper, hthroughout => by
      obtain ⟨-, hothersProper⟩ := List.forall_mem_cons.mp (branchesProper_iff.mp hproper)
      obtain ⟨-, hothersThroughout⟩ :=
        List.forall_mem_cons.mp (branchesThroughout_iff.mp hthroughout)
      exact hrest.regular hnamed (branchesProper_iff.mpr hothersProper)
        (branchesThroughout_iff.mpr hothersThroughout)

end

/-! ### Names -/

/-- The combinations for a row are those beneath it, each behind the row. -/
theorem Layout.expand_eq (layout : Layout) (found : Option Row) :
    layout.expand schema db found =
      (expandBranches schema db layout.table layout.relations found).map
        ((layout.qualifier, found) :: ·) := by
  obtain ⟨_, _, _, _, _, _, _, _, _, _⟩ := layout
  rw [Layout.expand]

/-- The labels of a layout are its own and those beneath it. -/
theorem Layout.labels_eq (layout : Layout) :
    layout.labels = layout.qualifier :: branchLabels layout.relations := by
  obtain ⟨_, _, _, _, _, _, _, _, _, _⟩ := layout
  rw [Layout.labels]

mutual

/-- A row of a join binds the names of its tables. -/
theorem Layout.names_expand : ∀ (layout : Layout) (found : Option Row),
    ∀ bindings ∈ layout.expand schema db found, Dict.names bindings = layout.labels
  | ⟨table, qualifier, _, _, _, _, _, _, relations, _⟩, found, bindings, hbindings => by
      rw [Layout.expand] at hbindings
      obtain ⟨beneath, hbeneath, rfl⟩ := List.mem_map.mp hbindings
      rw [Layout.labels, ← names_expandBranches relations found beneath hbeneath]
      rfl

/-- Each combination binds the labels of the joined relations. -/
theorem names_expandBranches {table : String} : ∀ (relations : List (JoinedBranchOf Layout))
    (found : Option Row), ∀ bindings ∈ expandBranches schema db table relations found,
      Dict.names bindings = branchLabels relations
  | [], found, bindings, hbindings => by
      rw [expandBranches] at hbindings
      rw [List.mem_singleton.mp hbindings, branchLabels]
      rfl
  | ⟨name, isToMany, branch, layout⟩ :: rest, found, bindings, hbindings => by
      rw [expandBranches] at hbindings
      obtain ⟨other, -, hmem⟩ := List.mem_flatMap.mp hbindings
      obtain ⟨beneath, hbeneath, hmem⟩ := List.mem_flatMap.mp hmem
      obtain ⟨others, hothers, rfl⟩ := List.mem_map.mp hmem
      rw [branchLabels, Dict.names_append, layout.names_expand other beneath hbeneath,
        names_expandBranches rest found others hothers]

end

/-- Linked rows are some rows of the target, in their order. -/
theorem JoinedBranchOf.Links.sublist {table : String} {joined : JoinedBranch}
    (h : joined.Links schema db table) (row : Row) :
    (schema.linked db table joined.name row).Sublist (db.rows joined.layout.table) := by
  obtain ⟨relation, hrelation, hdirect, -, htable⟩ := h.relation
  rw [Schema.linked_of_relation hrelation, Relation.linked, hdirect, htable]
  exact List.filter_sublist

mutual

/-- Where no relation may repeat rows, a row has one combination. -/
theorem Layout.expand_single : ∀ {layout : Layout}, layout.Regular schema db →
    layout.fansOut = false → ∀ {found : Option Row},
    (∀ row, found = some row → row ∈ db.rows layout.table) →
    (layout.expand schema db found).length = 1
  | ⟨table, qualifier, _, _, _, _, _, _, relations, _⟩, h, hfans, found, hfound => by
      rw [Layout.Regular] at h
      rw [Layout.fansOut] at hfans
      rw [Layout.expand, List.length_map]
      exact expandBranches_single h.2 hfans hfound

/-- Relations that do not repeat rows leave one combination. -/
theorem expandBranches_single {table : String} : ∀ {relations : List (JoinedBranchOf Layout)},
    branchesRegular schema db table relations → branchesFanOut relations = false →
    ∀ {found : Option Row}, (∀ row, found = some row → row ∈ db.rows table) →
    (expandBranches schema db table relations found).length = 1
  | [], h, hfans, found, hfound => by
      rw [expandBranches]
      rfl
  | ⟨name, isToMany, branch, layout⟩ :: rest, h, hfans, found, hfound => by
      rw [branchesRegular] at h
      obtain ⟨⟨hlinks, hlayout⟩, hrest⟩ := h
      rw [branchesFanOut, Bool.or_eq_false_iff, Bool.or_eq_false_iff] at hfans
      obtain ⟨⟨hsingle, hbeneath⟩, hothers⟩ := hfans
      obtain ⟨other, hother, hmem⟩ : ∃ other,
          orNone (found.elim [] (schema.linked db table name)) = [other] ∧
            ∀ row, other = some row → row ∈ db.rows layout.table := by
        cases found with
        | none => exact ⟨none, rfl, fun row hrow => by cases hrow⟩
        | some row =>
            have hlength := hlinks.single hsingle row (hfound row rfl)
            have hsublist := hlinks.sublist row
            rw [Option.elim_some]
            dsimp only at hlength hsublist
            generalize schema.linked db table name row = linked at hlength hsublist
            match linked with
            | [] => exact ⟨none, rfl, fun row hrow => by cases hrow⟩
            | [one] =>
                refine ⟨some one, rfl, ?_⟩
                rintro row ⟨⟩
                exact hsublist.subset List.mem_cons_self
            | first :: second :: more =>
                simp only [List.length_cons] at hlength
                omega
      obtain ⟨beneath, hexpand⟩ :=
        List.length_eq_one_iff.mp (Layout.expand_single hlayout hbeneath hmem)
      rw [expandBranches, hother, List.flatMap_singleton, hexpand, List.flatMap_singleton,
        List.length_map]
      exact expandBranches_single hrest hothers hfound

end

/-! ### Joining -/

/-- The condition of a join compares the row on the left with that on the right. -/
theorem PlannedJoin.on_eval {join : PlannedJoin} {row : Bindings} {found : Option Row}
    (hsource : row.lookup join.source = some found) (hlabel : join.label ∉ Dict.names row)
    (other : Row) :
    join.on.eval db (row ++ [(join.label, some other)] ++ []) =
      .ok (truthValue (((found.bind (·.lookup join.relation.fromColumn)).getD .null).compare
        (other.value join.relation.toColumn) |>.map Comparison.eq.holds)) := by
  have hbound : join.source ∈ Dict.names row :=
    Dict.lookup_isSome_iff.mp (by rw [hsource]; rfl)
  have hleft : Bindings.value (row ++ [(join.label, some other)] ++ [])
      ⟨join.source, join.relation.fromColumn⟩ =
        .ok ((found.bind (·.lookup join.relation.fromColumn)).getD .null) := by
    rw [List.append_nil, Bindings.value, Dict.lookup_append_of_mem hbound, hsource]
    rfl
  have hright : Bindings.value (row ++ [(join.label, some other)] ++ [])
      ⟨join.label, join.relation.toColumn⟩ = .ok (other.value join.relation.toColumn) := by
    refine Bindings.value_of_some ?_ _
    rw [List.append_nil, Dict.lookup_append_of_notMem hlabel]
    simp
  unfold PlannedJoin.on Expr.col
  rw [Expr.eval, Expr.eval, Expr.eval, hleft, hright]
  rfl

/-- A left join pairs a row with the rows that the relation links it to, or with none. -/
theorem besides_linked {join : PlannedJoin} (hdirect : join.relation.junction = none)
    {row : Bindings} {found : Option Row} (hsource : row.lookup join.source = some found)
    (hlabel : join.label ∉ Dict.names row) :
    besides (accepts fun row => join.on.truth db (row ++ [])) .left join.label
        (db.rows join.relation.target) row =
      (orNone (found.elim [] (join.relation.linked db))).map
        fun other => row ++ [(join.label, other)] := by
  have haccept : ∀ other, accepts (fun row => join.on.truth db (row ++ []))
      (row ++ [(join.label, some other)]) = found.elim false fun owner =>
        (other.value join.relation.toColumn).sqlEq (owner.value join.relation.fromColumn) := by
    intro other
    have hdecided : accepts (fun row => join.on.truth db (row ++ []))
        (row ++ [(join.label, some other)]) = decide (_ = some true) :=
      accepts_of_ok (Expr.truth_ok (PlannedJoin.on_eval hsource hlabel other))
    rw [hdecided, truth_truthValue]
    cases found with
    | none =>
        have hnull : Value.compare .null (other.value join.relation.toColumn) = none := rfl
        simp [hnull]
    | some owner =>
        rw [Option.elim_some, Value.sqlEq_comm]
        change decide (Option.map Comparison.eq.holds
          ((owner.value join.relation.fromColumn).compare _) = some true) = _
        rw [Value.sqlEq]
        cases (owner.value join.relation.fromColumn).compare
          (other.value join.relation.toColumn) with
        | none => rfl
        | some order => cases order <;> rfl
  have hfound : (db.rows join.relation.target).filter (fun other =>
      accepts (fun row => join.on.truth db (row ++ [])) (row ++ [(join.label, some other)])) =
        found.elim [] (join.relation.linked db) := by
    rw [List.filter_congr fun other _ => haccept other]
    cases found with
    | none => simp
    | some owner =>
        rw [Option.elim_some, Relation.linked, hdirect]
        rfl
  unfold besides
  rw [hfound]
  generalize found.elim [] (join.relation.linked db) = linked
  cases linked with
  | nil => rfl
  | cons first rest => simp [orNone]

/-- A planned join yields a row for every row that the relation links one on the left to. -/
theorem joinAll_planned {join : PlannedJoin} (hkind : join.kind = .left)
    (hdirect : join.relation.junction = none) {own : List String} {rows : List Bindings}
    (hrows : ∀ row ∈ rows, Dict.names row = own) (hsource : join.source ∈ own)
    (hlabel : join.label ∉ own) (more : List Join) :
    joinAll db (join.clause :: more) own rows [] =
      joinAll db more (own ++ [join.label])
        (rows.flatMap fun row =>
          (orNone ((row.lookup join.source).join.elim [] (join.relation.linked db))).map
            fun other => row ++ [(join.label, other)]) [] := by
  have hbound : ∀ row ∈ rows, ∃ found, row.lookup join.source = some found ∧
      join.label ∉ Dict.names row := by
    intro row hrow
    rw [hrows row hrow]
    obtain ⟨found, hfound⟩ := Option.isSome_iff_exists.mp
      (Dict.lookup_isSome_iff.mpr (hrows row hrow ▸ hsource))
    exact ⟨found, hfound, hlabel⟩
  have heval : ∀ row ∈ rows, ∀ other ∈ db.rows join.relation.target,
      ∃ value, join.on.eval db (row ++ [(join.label, some other)] ++ []) = .ok value := by
    intro row hrow other _
    obtain ⟨found, hfound, hnew⟩ := hbound row hrow
    exact ⟨_, PlannedJoin.on_eval hfound hnew other⟩
  have hjoin := @joinAll_cons db .left join.relation.target join.label join.on more own rows [] heval
  unfold PlannedJoin.clause
  rw [hkind, hjoin, unpaired, if_neg (by decide), List.append_nil]
  congr 1
  refine List.flatMap_congr ?_
  intro row hrow
  obtain ⟨found, hfound, hnew⟩ := hbound row hrow
  rw [besides_linked hdirect hfound hnew, hfound]
  rfl

/-- The joins of a relation are its own, then those beneath it, then those of the others. -/
theorem branchJoins_cons {table qualifier name : String} {isToMany : Bool} {branch : Branch}
    {layout : Layout} {rest : List (JoinedBranchOf Layout)} {relation : Relation}
    (h : schema.relation? table name = some relation) :
    branchJoins schema table qualifier (⟨name, isToMany, branch, layout⟩ :: rest) =
      ⟨relation, name, qualifier, layout.qualifier, branch.joinKind⟩ ::
        (layout.joins schema ++ branchJoins schema table qualifier rest) := by
  rw [branchJoins, h]
  rfl

/-- Rows to which the row of a layout is added, and then the combinations beneath it, are continued
by the combinations of the layout. -/
theorem flatMap_expand (layout : Layout) {rows : List Bindings}
    (hnew : ∀ row ∈ rows, layout.qualifier ∉ Dict.names row)
    (found : Bindings → List (Option Row)) :
    (rows.flatMap fun row => (found row).map fun other => row ++ [(layout.qualifier, other)]).flatMap
        (fun row => (expandBranches schema db layout.table layout.relations
          (row.lookup layout.qualifier).join).map (row ++ ·)) =
      rows.flatMap fun row => (found row).flatMap fun other =>
        (layout.expand schema db other).map (row ++ ·) := by
  rw [List.flatMap_assoc]
  refine List.flatMap_congr ?_
  intro row hrow
  rw [List.flatMap_map]
  refine List.flatMap_congr ?_
  intro other _
  have hlookup : (row ++ [(layout.qualifier, other)]).lookup layout.qualifier = some other := by
    rw [Dict.lookup_append_of_notMem (hnew row hrow)]
    simp
  rw [hlookup, layout.expand_eq, List.map_map]
  refine List.map_congr_left ?_
  intro beneath _
  simp

/-- Rows continued by the combinations of a layout, and then by those of the other relations, are
continued by those of all. -/
theorem flatMap_expandBranches {table qualifier : String} (joined : JoinedBranch)
    (rest : List JoinedBranch) {rows : List Bindings}
    (hqualifier : ∀ row ∈ rows, qualifier ∈ Dict.names row) :
    (rows.flatMap fun row => (orNone ((row.lookup qualifier).join.elim []
        (schema.linked db table joined.name))).flatMap fun other =>
          (joined.layout.expand schema db other).map (row ++ ·)).flatMap
        (fun row => (expandBranches schema db table rest (row.lookup qualifier).join).map
          (row ++ ·)) =
      rows.flatMap fun row => (expandBranches schema db table (joined :: rest)
        (row.lookup qualifier).join).map (row ++ ·) := by
  obtain ⟨name, isToMany, branch, layout⟩ := joined
  rw [List.flatMap_assoc]
  refine List.flatMap_congr ?_
  intro row hrow
  rw [expandBranches, List.flatMap_assoc, List.map_flatMap]
  refine List.flatMap_congr ?_
  intro other _
  rw [List.flatMap_map, List.map_flatMap]
  refine List.flatMap_congr ?_
  intro beneath _
  rw [Dict.lookup_append_of_mem (hqualifier row hrow) beneath, List.map_map]
  refine List.map_congr_left ?_
  intro others _
  simp

mutual

/-- Joining the relations beneath a table pairs every row with all combinations of rows that these
relations link it to.  Each join adds its label to what the rows bind; labels are all different, so
that a row found under a name stays what it is. -/
theorem joinAll_layout : ∀ {layout : Layout}, layout.Regular schema db →
    ∀ {own : List String} {rows : List Bindings}, (∀ row ∈ rows, Dict.names row = own) →
    layout.qualifier ∈ own → (own ++ branchLabels layout.relations).Nodup → ∀ (more : List Join),
    joinAll db ((layout.joins schema).map PlannedJoin.clause ++ more) own rows [] =
      joinAll db more (own ++ branchLabels layout.relations)
        (rows.flatMap fun row => (expandBranches schema db layout.table layout.relations
          (row.lookup layout.qualifier).join).map (row ++ ·)) []
  | ⟨table, qualifier, _, _, _, _, _, _, relations, _⟩, h, own, rows, hrows, hqualifier, hnodup,
      more => by
      rw [Layout.Regular] at h
      rw [Layout.joins]
      exact joinAll_branches h.2 hrows hqualifier hnodup more

/-- So does joining several relations one after the other, each with all beneath it. -/
theorem joinAll_branches {table qualifier : String} : ∀ {relations : List (JoinedBranchOf Layout)},
    branchesRegular schema db table relations →
    ∀ {own : List String} {rows : List Bindings}, (∀ row ∈ rows, Dict.names row = own) →
    qualifier ∈ own → (own ++ branchLabels relations).Nodup → ∀ (more : List Join),
    joinAll db ((branchJoins schema table qualifier relations).map PlannedJoin.clause ++ more) own
        rows [] =
      joinAll db more (own ++ branchLabels relations)
        (rows.flatMap fun row => (expandBranches schema db table relations
          (row.lookup qualifier).join).map (row ++ ·)) []
  | [], h, own, rows, hrows, hqualifier, hnodup, more => by
      rw [branchJoins, branchLabels]
      simp [expandBranches]
  | ⟨name, isToMany, branch, layout⟩ :: rest, h, own, rows, hrows, hqualifier, hnodup, more => by
      rw [branchesRegular] at h
      obtain ⟨⟨hlinks, hlayout⟩, hrest⟩ := h
      obtain ⟨relation, hrelation, hdirect, -, htable⟩ := hlinks.relation
      rw [branchLabels, layout.labels_eq] at hnodup ⊢
      have hnew : layout.qualifier ∉ own := by
        intro hmem
        exact (List.nodup_append.mp hnodup).2.2 _ hmem _
          (List.mem_append_left _ List.mem_cons_self) rfl
      rw [branchJoins_cons hrelation, List.map_cons, List.cons_append,
        joinAll_planned hlinks.clauses.joinKind hdirect hrows hqualifier hnew, List.map_append,
        List.append_assoc]
      have hlinked : relation.linked db = schema.linked db table name :=
        (funext (Schema.linked_of_relation hrelation)).symm
      dsimp only
      rw [hlinked]
      let found : Bindings → List (Option Row) := fun row =>
        orNone ((row.lookup qualifier).join.elim [] (schema.linked db table name))
      have hfirst : ∀ row ∈ rows.flatMap (fun row => (found row).map fun other =>
          row ++ [(layout.qualifier, other)]), Dict.names row = own ++ [layout.qualifier] := by
        intro row hrow
        obtain ⟨before, hbefore, hmem⟩ := List.mem_flatMap.mp hrow
        obtain ⟨other, -, rfl⟩ := List.mem_map.mp hmem
        rw [Dict.names_append, hrows before hbefore]
        rfl
      have hbeneath : ∀ row ∈ rows.flatMap (fun row => (found row).flatMap fun other =>
          (layout.expand schema db other).map (row ++ ·)),
          Dict.names row = own ++ [layout.qualifier] ++ branchLabels layout.relations := by
        intro row hrow
        obtain ⟨before, hbefore, hmem⟩ := List.mem_flatMap.mp hrow
        obtain ⟨other, -, hmem⟩ := List.mem_flatMap.mp hmem
        obtain ⟨beneath, hexpand, rfl⟩ := List.mem_map.mp hmem
        rw [Dict.names_append, hrows before hbefore, layout.names_expand other beneath hexpand,
          layout.labels_eq]
        simp
      have hnodupAll : (own ++ [layout.qualifier] ++ branchLabels layout.relations ++
          branchLabels rest).Nodup := by
        simpa using hnodup
      rw [joinAll_layout hlayout hfirst (List.mem_append_right _ List.mem_cons_self)
          (List.nodup_append.mp hnodupAll).1,
        flatMap_expand layout (fun row hrow => hrows row hrow ▸ hnew) found,
        joinAll_branches hrest hbeneath
          (List.mem_append_left _ (List.mem_append_left _ hqualifier)) hnodupAll,
        flatMap_expandBranches ⟨name, isToMany, branch, layout⟩ rest
          fun row hrow => hrows row hrow ▸ hqualifier]
      simp

end

/-! ### The joins of a plan -/

/-- A planned layout has the qualifier that it was planned with. -/
theorem qualifier_plan (shape : Shape) (table qualifier lead : String) (extra : List String)
    (planner : Planner) :
    (shape.plan schema table qualifier lead extra planner).1.qualifier = qualifier := by
  obtain ⟨fields, excluded, relations⟩ := shape
  rw [Shape.plan]

/-- Naming outputs keeps the qualifier of a layout. -/
theorem Layout.qualifier_nameOutputs (layout : Layout) (taken : List String) :
    (layout.nameOutputs taken).1.qualifier = layout.qualifier := by
  obtain ⟨_, _, _, _, _, _, _, _, _, _⟩ := layout
  rw [Layout.nameOutputs]

mutual

/-- Planning adds the joins of the layout that it makes. -/
theorem Shape.plan_joins : ∀ (shape : Shape) (table qualifier lead : String) (extra : List String)
    (planner : Planner),
    (shape.plan schema table qualifier lead extra planner).2.joins = planner.joins ++
      (shape.plan schema table qualifier lead extra planner).1.joins schema
  | ⟨fields, excluded, relations⟩, table, qualifier, lead, extra, planner => by
      rw [Shape.plan, Layout.joins]
      exact planBranches_joins relations table qualifier lead planner

/-- Planning relations adds the joins of what is joined, depth first. -/
theorem planBranches_joins : ∀ (relations : List (String × BranchOf Shape))
    (table qualifier lead : String) (planner : Planner),
    (planBranches schema relations table qualifier lead planner).2.joins = planner.joins ++
      branchJoins schema table qualifier
        (planBranches schema relations table qualifier lead planner).1.joined
  | [], table, qualifier, lead, planner => by
      rw [planBranches, branchJoins]
      exact (List.append_nil _).symm
  | (name, ⟨shape, filter, orderBy, take, skip, distinct, joinKind⟩) :: rest,
      table, qualifier, lead, planner => by
      rw [planBranches]
      rcases planner.add_cases schema table qualifier name joinKind with
        ⟨-, hadd⟩ | ⟨relation, hjoinable, hadd⟩
      · simp only [hadd]
        have hothers := planBranches_joins rest table qualifier lead planner
        split <;> exact hothers
      · simp only [hadd]
        rw [branchJoins_cons (joinable?_eq_some hjoinable).1, planBranches_joins rest,
          Shape.plan_joins shape, qualifier_plan]
        simp

end

mutual

/-- Naming outputs leaves the joins alone. -/
theorem Layout.joins_nameOutputs : ∀ (layout : Layout) (taken : List String),
    (layout.nameOutputs taken).1.joins schema = layout.joins schema
  | ⟨_, _, _, _, _, _, _, _, relations, _⟩, taken => by
      rw [Layout.nameOutputs, Layout.joins, Layout.joins]
      exact branchJoins_nameOutputs relations _

/-- Naming outputs keeps the joins. -/
theorem branchJoins_nameOutputs {table qualifier : String} :
    ∀ (relations : List (JoinedBranchOf Layout)) (taken : List String),
    branchJoins schema table qualifier (nameBranchOutputs relations taken).1 =
      branchJoins schema table qualifier relations
  | [], taken => by
      rw [nameBranchOutputs]
  | ⟨name, isToMany, branch, layout⟩ :: rest, taken => by
      rw [nameBranchOutputs, branchJoins, branchJoins, Layout.joins_nameOutputs layout,
        branchJoins_nameOutputs rest, Layout.qualifier_nameOutputs]

end

mutual

/-- The tables joined beneath a table are known under the labels of the joins. -/
theorem Layout.labels_joins : ∀ {layout : Layout}, layout.Regular schema db →
    layout.labels = layout.qualifier :: (layout.joins schema).map (·.label)
  | ⟨_, _, _, _, _, _, _, _, relations, _⟩, h => by
      rw [Layout.Regular] at h
      rw [Layout.labels, Layout.joins, branchLabels_joins _ _ h.2]

/-- The labels of joined relations are those of their joins. -/
theorem branchLabels_joins (table qualifier : String) :
    ∀ {relations : List (JoinedBranchOf Layout)}, branchesRegular schema db table relations →
    branchLabels relations = (branchJoins schema table qualifier relations).map (·.label)
  | [], h => by
      rw [branchLabels, branchJoins]
      rfl
  | ⟨name, isToMany, branch, layout⟩ :: rest, h => by
      rw [branchesRegular] at h
      obtain ⟨relation, hrelation, -⟩ := h.1.1.relation
      rw [branchLabels, branchJoins_cons hrelation, Layout.labels_joins h.1.2,
        branchLabels_joins table qualifier h.2]
      simp

end

/-- The labels given out are distinct and numbered up to the count. -/
structure Planner.Numbered (planner : Planner) : Prop where
  numbered : ∀ join ∈ planner.joins, ∃ name n, n ≤ planner.count ∧
    join.label = name ++ "_" ++ toString n
  nodup : (planner.joins.map (·.label)).Nodup

/-- Labels that are the same have the same number. -/
theorem label_injective {name other : String} {n m : Nat}
    (h : name ++ "_" ++ toString n = other ++ "_" ++ toString m) : n = m := by
  have hlists := congrArg String.toList h
  simp only [String.toList_append] at hlists
  exact (number_injective (by decide) (by decide) hlists).1

/-- One more label has a number of its own. -/
theorem Planner.Numbered.add {planner : Planner} (h : planner.Numbered) {join : PlannedJoin}
    {name : String} (hlabel : join.label = name ++ "_" ++ toString (planner.count + 1)) :
    Planner.Numbered { count := planner.count + 1, joins := planner.joins ++ [join] } := by
  constructor
  · intro other hother
    rcases List.mem_append.mp hother with hold | hnew
    · obtain ⟨known, n, hle, heq⟩ := h.numbered other hold
      exact ⟨known, n, Nat.le_succ_of_le hle, heq⟩
    · rw [List.mem_singleton.mp hnew]
      exact ⟨name, planner.count + 1, Nat.le_refl _, hlabel⟩
  · rw [List.map_append, List.nodup_append]
    refine ⟨h.nodup, List.nodup_singleton _, ?_⟩
    intro label hold other hother heq
    obtain ⟨known, hknown, rfl⟩ := List.mem_map.mp hold
    obtain ⟨before, n, hle, hbefore⟩ := h.numbered known hknown
    rw [List.map_singleton, List.mem_singleton] at hother
    rw [hother, hlabel, hbefore] at heq
    have hnumber := label_injective heq
    omega

mutual

/-- Planning gives every join a label of its own. -/
theorem Shape.plan_numbered : ∀ (shape : Shape) (table qualifier lead : String)
    (extra : List String) {planner : Planner}, planner.Numbered →
    (shape.plan schema table qualifier lead extra planner).2.Numbered
  | ⟨fields, excluded, relations⟩, table, qualifier, lead, extra, planner, h => by
      rw [Shape.plan]
      exact planBranches_numbered relations table qualifier lead h

/-- Planning relations gives all labels numbers of their own. -/
theorem planBranches_numbered : ∀ (relations : List (String × BranchOf Shape))
    (table qualifier lead : String) {planner : Planner}, planner.Numbered →
    (planBranches schema relations table qualifier lead planner).2.Numbered
  | [], table, qualifier, lead, planner, h => by
      rw [planBranches]
      exact h
  | (name, ⟨shape, filter, orderBy, take, skip, distinct, joinKind⟩) :: rest,
      table, qualifier, lead, planner, h => by
      rw [planBranches]
      rcases planner.add_cases schema table qualifier name joinKind with
        ⟨-, hadd⟩ | ⟨relation, -, hadd⟩
      · simp only [hadd]
        have hothers := planBranches_numbered rest table qualifier lead h
        split <;> exact hothers
      · simp only [hadd]
        exact planBranches_numbered rest table qualifier lead
          (Shape.plan_numbered shape _ _ _ _ (h.add rfl))

end

/-- The joins of a shape have labels of their own. -/
theorem Shape.layout_numbered (shape : Shape) (table : String) (extra : List String) :
    (shape.layout schema table extra).2.Numbered :=
  Shape.plan_numbered shape table table "" extra ⟨fun _ hjoin => (nomatch hjoin), List.nodup_nil⟩

/-- The labels of the joins of a shape are distinct, and they are those of its layout. -/
theorem Shape.layout_joins (shape : Shape) (table : String) (extra : List String) :
    (shape.layout schema table extra).2.joins =
        (shape.layout schema table extra).1.joins schema ∧
      ((shape.layout schema table extra).2.joins.map (·.label)).Nodup := by
  refine ⟨?_, (shape.layout_numbered table extra).nodup⟩
  have hjoins := @Shape.plan_joins schema shape table table "" extra {}
  unfold Shape.layout
  dsimp only
  rw [Layout.joins_nameOutputs, hjoins]
  rfl

end NestedQuery
