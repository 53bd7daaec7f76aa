import NestedQuery.Proofs.JoinedReading
import NestedQuery.Proofs.PlannedJoins

/-!
# Choices of joined rows

Beside a base row a statement with left joins has one row for every choice of
rows in its joined relations: of each relation one of the rows with the linked
column, or none where there is no such row, and so on beneath the chosen row.
The relations make their choices apart from each other.  So what is chosen in
some of them goes together with what is chosen in others, as long as two choices
meet only in relations that leave no choice.
-/

namespace NestedQuery

variable {schema : Schema} {db : Database}

/-! ### Trees of joins -/

/-- A join in a tree of joined relations. -/
structure JoinStep where
  /-- The table that the relation starts from. -/
  table : String
  name : String
  label : String
  target : String
  /-- The labels of the joins beneath it. -/
  beneath : List String

mutual

/-- The joins of a joined relation: its own, and those beneath it. -/
def JoinedTable.steps (table name : String) : JoinedTable → List JoinStep
  | ⟨target, label, nested⟩ =>
    ⟨table, name, label, target, (tableSteps target nested).map (·.label)⟩ ::
      tableSteps target nested

/-- The joins of the joined relations of a table. -/
def tableSteps (table : String) : List (String × JoinedTable) → List JoinStep
  | [] => []
  | (name, under) :: rest => under.steps table name ++ tableSteps table rest

end

/-! ### Choices -/

/-- The relation as its columns alone link it. -/
def Relation.direct (relation : Relation) : Relation :=
  { relation with junction := none }

/-- The rows that a join of the named relation finds for a row. -/
def Schema.joinedRows (schema : Schema) (db : Database) (table name : String) (row : Row) :
    List Row :=
  match schema.relation? table name with
  | some relation => relation.direct.linked db row
  | none => []

mutual

/-- The choices in a joined relation of a row: a row, or none if there is none, with the choices
beneath it. -/
def JoinedTable.choices (schema : Schema) (db : Database) (table name : String) :
    JoinedTable → Row → List Bindings
  | ⟨target, label, nested⟩, row =>
    (orNone (schema.joinedRows db table name row)).flatMap fun found =>
      (tableChoices schema db target nested (found.getD [])).map ((label, found) :: ·)

/-- The choices in all joined relations of a row. -/
def tableChoices (schema : Schema) (db : Database) (table : String) :
    List (String × JoinedTable) → Row → List Bindings
  | [], _ => [[]]
  | (name, under) :: rest, row =>
    (under.choices schema db table name row).flatMap fun first =>
      (tableChoices schema db table rest row).map (first ++ ·)

end

/-- A row that is there may be chosen. -/
theorem some_mem_orNone {rows : List Row} {row : Row} (h : row ∈ rows) : some row ∈ orNone rows := by
  unfold orNone
  cases rows with
  | nil => cases h
  | cons first rest => exact List.mem_map_of_mem h

mutual

/-- A choice binds the labels of all steps. -/
theorem JoinedTable.names_choice {table name : String} : ∀ {under : JoinedTable} {row : Row}
    {choice : Bindings}, choice ∈ under.choices schema db table name row →
      Dict.names choice = (under.steps table name).map (·.label)
  | ⟨target, label, nested⟩, row, choice, h => by
      rw [JoinedTable.choices] at h
      obtain ⟨found, -, hmem⟩ := List.mem_flatMap.mp h
      obtain ⟨beneath, hbeneath, rfl⟩ := List.mem_map.mp hmem
      rw [JoinedTable.steps, List.map_cons, ← names_tableChoice hbeneath]
      rfl

/-- A choice binds the labels of the joins. -/
theorem names_tableChoice {table : String} : ∀ {joined : List (String × JoinedTable)} {row : Row}
    {choice : Bindings}, choice ∈ tableChoices schema db table joined row →
      Dict.names choice = (tableSteps table joined).map (·.label)
  | [], row, choice, h => by
      rw [tableChoices] at h
      rw [List.mem_singleton.mp h, tableSteps]
      rfl
  | (name, under) :: rest, row, choice, h => by
      rw [tableChoices] at h
      obtain ⟨first, hfirst, hmem⟩ := List.mem_flatMap.mp h
      obtain ⟨others, hothers, rfl⟩ := List.mem_map.mp hmem
      rw [tableSteps, List.map_append, Dict.names_append, JoinedTable.names_choice hfirst,
        names_tableChoice hothers]

end

mutual

/-- There is a choice in the joined tables of every row. -/
theorem JoinedTable.exists_choice (table name : String) : ∀ (under : JoinedTable) (row : Row),
    ∃ choice, choice ∈ under.choices schema db table name row
  | ⟨target, label, nested⟩, row => by
      obtain ⟨found, hfound⟩ :=
        List.exists_mem_of_ne_nil _ (orNone_ne_nil (schema.joinedRows db table name row))
      obtain ⟨beneath, hbeneath⟩ := exists_tableChoice target nested (found.getD [])
      rw [JoinedTable.choices]
      exact ⟨_, List.mem_flatMap.mpr ⟨found, hfound, List.mem_map_of_mem hbeneath⟩⟩

/-- There is always a choice. -/
theorem exists_tableChoice (table : String) : ∀ (joined : List (String × JoinedTable)) (row : Row),
    ∃ choice, choice ∈ tableChoices schema db table joined row
  | [], row => by
      rw [tableChoices]
      exact ⟨[], List.mem_singleton.mpr rfl⟩
  | (name, under) :: rest, row => by
      obtain ⟨first, hfirst⟩ := JoinedTable.exists_choice table name under row
      obtain ⟨others, hothers⟩ := exists_tableChoice table rest row
      rw [tableChoices]
      exact ⟨_, List.mem_flatMap.mpr ⟨first, hfirst, List.mem_map_of_mem hothers⟩⟩

end

/-! ### The part of one relation -/

section Parts

variable {table name : String} {under : JoinedTable}

/-- What stands in front is agreed on, whatever stands behind. -/
theorem agreeOn_append_left {first others : Bindings} {labels : List String}
    (h : Dict.names first = labels) : AgreeOn labels (first ++ others) first := by
  intro label hlabel
  exact Dict.lookup_append_of_mem (h ▸ hlabel) _

/-- The joins of a relation are among the joins of the table. -/
theorem steps_sublist : ∀ {joined : List (String × JoinedTable)}, joined.lookup name = some under →
    (under.steps table name).Sublist (tableSteps table joined)
  | (other, first) :: rest, h => by
      rw [tableSteps]
      rw [Dict.lookup_cons] at h
      split at h
      · next hname =>
          cases h
          rw [hname]
          exact List.sublist_append_left _ _
      · exact (steps_sublist h).trans (List.sublist_append_right _ _)

/-- Of a choice, the part of one relation is a choice in it. -/
theorem part_of_choice {row : Row} : ∀ {joined : List (String × JoinedTable)} {choice : Bindings},
    ((tableSteps table joined).map (·.label)).Nodup → joined.lookup name = some under →
    choice ∈ tableChoices schema db table joined row →
    ∃ part ∈ under.choices schema db table name row,
      AgreeOn ((under.steps table name).map (·.label)) choice part
  | (other, first) :: rest, choice, hnodup, hunder, hchoice => by
      rw [tableSteps, List.map_append] at hnodup
      have hdisjoint := (List.nodup_append'.mp hnodup).2.2
      rw [tableChoices] at hchoice
      obtain ⟨part, hpart, hmem⟩ := List.mem_flatMap.mp hchoice
      obtain ⟨others, hothers, rfl⟩ := List.mem_map.mp hmem
      have hnames := JoinedTable.names_choice hpart
      rw [Dict.lookup_cons] at hunder
      split at hunder
      · next hname =>
          cases hunder
          subst hname
          exact ⟨part, hpart, agreeOn_append_left hnames⟩
      · obtain ⟨found, hfound, hagree⟩ :=
          part_of_choice (List.nodup_append'.mp hnodup).2.1 hunder hothers
        refine ⟨found, hfound, fun label hlabel => ?_⟩
        have hnew : label ∉ Dict.names part := by
          rw [hnames]
          exact fun hmem => hdisjoint hmem
            (((steps_sublist hunder).map _).subset hlabel)
        rw [Dict.lookup_append_of_notMem hnew]
        exact hagree label hlabel

/-- Every choice in one relation is the part of a choice. -/
theorem choice_of_part {row : Row} {part : Bindings}
    (hpart : part ∈ under.choices schema db table name row) :
    ∀ {joined : List (String × JoinedTable)}, ((tableSteps table joined).map (·.label)).Nodup →
    joined.lookup name = some under →
    ∃ choice ∈ tableChoices schema db table joined row,
      AgreeOn ((under.steps table name).map (·.label)) choice part
  | (other, first) :: rest, hnodup, hunder => by
      rw [tableSteps, List.map_append] at hnodup
      have hdisjoint := (List.nodup_append'.mp hnodup).2.2
      rw [tableChoices]
      rw [Dict.lookup_cons] at hunder
      split at hunder
      · next hname =>
          cases hunder
          subst hname
          obtain ⟨others, hothers⟩ := @exists_tableChoice schema db table rest row
          exact ⟨part ++ others, List.mem_flatMap.mpr ⟨part, hpart, List.mem_map_of_mem hothers⟩,
            agreeOn_append_left (JoinedTable.names_choice hpart)⟩
      · obtain ⟨others, hothers, hagree⟩ :=
          choice_of_part hpart (List.nodup_append'.mp hnodup).2.1 hunder
        obtain ⟨before, hbefore⟩ := @JoinedTable.exists_choice schema db table other first row
        refine ⟨before ++ others,
          List.mem_flatMap.mpr ⟨before, hbefore, List.mem_map_of_mem hothers⟩, ?_⟩
        intro label hlabel
        have hnew : label ∉ Dict.names before := by
          rw [JoinedTable.names_choice hbefore]
          exact fun hmem => hdisjoint hmem (((steps_sublist hunder).map _).subset hlabel)
        rw [Dict.lookup_append_of_notMem hnew]
        exact hagree label hlabel

end Parts

/-! ### Choices that go together -/

/-- The join is the join of a relation to its target. -/
def JoinStep.Known (schema : Schema) (step : JoinStep) : Prop :=
  ∃ relation, schema.relation? step.table step.name = some relation ∧ step.target = relation.target

/-- The join finds one row at most. -/
def JoinStep.Single (schema : Schema) (db : Database) (step : JoinStep) : Prop :=
  ∀ row ∈ db.rows step.table, (schema.joinedRows db step.table step.name row).length ≤ 1

instance (step : JoinStep) : Decidable (step.Single schema db) :=
  inferInstanceAs (Decidable (∀ row ∈ db.rows step.table,
    (schema.joinedRows db step.table step.name row).length ≤ 1))

/-- With a join, the joins that it stands beneath are marked. -/
def Closed (steps : List JoinStep) (marked : List String) : Prop :=
  ∀ step ∈ steps, ∀ label ∈ step.beneath, label ∈ marked → step.label ∈ marked

/-- Joins that are marked twice find one row at most. -/
def MeetSingly (schema : Schema) (db : Database) (steps : List JoinStep) (one other : List String) :
    Prop :=
  ∀ step ∈ steps, step.label ∈ one → step.label ∈ other → step.Single schema db

instance (steps : List JoinStep) (one other : List String) :
    Decidable (MeetSingly schema db steps one other) :=
  inferInstanceAs (Decidable (∀ step ∈ steps, step.label ∈ one → step.label ∈ other →
    step.Single schema db))

/-- What a join finds for a row is a row of the target; for no row it finds nothing. -/
theorem joinedRows_subset {step : JoinStep} (hknown : step.Known schema) (row : Row) :
    schema.joinedRows db step.table step.name row ⊆ db.rows step.target := by
  obtain ⟨relation, hrelation, htarget⟩ := hknown
  rw [Schema.joinedRows, hrelation, htarget]
  exact List.filter_subset_self _

theorem joinedRows_nil (table name : String) : schema.joinedRows db table name [] = [] := by
  unfold Schema.joinedRows
  cases schema.relation? table name with
  | none => rfl
  | some relation =>
      refine List.filter_eq_nil_iff.mpr fun other _ => ?_
      have hnull : Row.value [] relation.fromColumn = .null := rfl
      rw [Relation.direct, hnull, Value.sqlEq_comm]
      simp [Value.sqlEq, Value.compare]

/-- A single join finds the same for a row whenever it is asked. -/
theorem JoinStep.Single.found_eq {step : JoinStep} (h : step.Single schema db) {row : Row}
    (hrow : row ∈ db.rows step.table ∨ row = []) {one other : Option Row}
    (hone : one ∈ orNone (schema.joinedRows db step.table step.name row))
    (hother : other ∈ orNone (schema.joinedRows db step.table step.name row)) : one = other := by
  have hlength : (schema.joinedRows db step.table step.name row).length ≤ 1 := by
    rcases hrow with hrow | rfl
    · exact h row hrow
    · rw [joinedRows_nil]
      exact Nat.zero_le 1
  rcases mem_orNone hone with ⟨rfl, hnone⟩ | ⟨first, hfirst, rfl⟩ <;>
    rcases mem_orNone hother with ⟨rfl, hempty⟩ | ⟨second, hsecond, rfl⟩
  · rfl
  · rw [hnone] at hsecond
    cases hsecond
  · rw [hempty] at hfirst
    cases hfirst
  · obtain ⟨index, hindex, rfl⟩ := List.getElem_of_mem hfirst
    obtain ⟨place, hplace, rfl⟩ := List.getElem_of_mem hsecond
    have hsame : index = place := by omega
    subst hsame
    rfl

/-- A row that is found is a row of the target, or it stands for none. -/
theorem found_mem {step : JoinStep} (hknown : step.Known schema) {row : Row} {found : Option Row}
    (hfound : found ∈ orNone (schema.joinedRows db step.table step.name row)) :
    found.getD [] ∈ db.rows step.target ∨ found.getD [] = [] := by
  rcases mem_orNone hfound with ⟨rfl, -⟩ | ⟨other, hother, rfl⟩
  · exact Or.inr rfl
  · exact Or.inl (joinedRows_subset hknown row hother)

/-- On the labels of joins that are marked, one choice is the other. -/
def AgreeMarked (steps : List JoinStep) (marked : List String) (one other : Bindings) : Prop :=
  ∀ label ∈ steps.map (·.label), label ∈ marked → one.lookup label = other.lookup label

/-- What is agreed beneath a join is agreed with it when it finds the same. -/
theorem agreeMarked_cons {step : JoinStep} {steps : List JoinStep} {marked : List String}
    {one other : Bindings} (h : AgreeMarked steps marked one other) (found : Option Row) :
    AgreeMarked (step :: steps) marked ((step.label, found) :: one)
      ((step.label, found) :: other) := by
  intro label hlabel hmarked
  rw [Dict.lookup_cons, Dict.lookup_cons]
  split
  · rfl
  · next hne =>
      rcases List.mem_cons.mp hlabel with heq | hmem
      · exact absurd heq hne
      · exact h label hmem hmarked

/-- What is agreed in each of two parts is agreed in both. -/
theorem agreeMarked_append {steps others : List JoinStep} {marked : List String}
    {one other more further : Bindings} (hone : Dict.names one = steps.map (·.label))
    (hother : Dict.names other = steps.map (·.label)) (h : AgreeMarked steps marked one other)
    (hmore : AgreeMarked others marked more further) :
    AgreeMarked (steps ++ others) marked (one ++ more) (other ++ further) := by
  intro label hlabel hmarked
  by_cases hmem : label ∈ steps.map (·.label)
  · rw [Dict.lookup_append_of_mem (hone ▸ hmem), Dict.lookup_append_of_mem (hother ▸ hmem)]
    exact h label hmem hmarked
  · rw [Dict.lookup_append_of_notMem (hone ▸ hmem), Dict.lookup_append_of_notMem (hother ▸ hmem)]
    rw [List.map_append] at hlabel
    exact hmore label ((List.mem_append.mp hlabel).resolve_left hmem) hmarked

/-- Beneath a join that is not marked no join is. -/
theorem notMem_of_closed {step : JoinStep} {steps : List JoinStep} {marked : List String}
    (h : Closed (step :: steps) marked) (hbeneath : step.beneath = steps.map (·.label))
    (hlabel : step.label ∉ marked) : ∀ label ∈ (step :: steps).map (·.label), label ∉ marked := by
  intro label hmem hmarked
  rcases List.mem_cons.mp hmem with rfl | hmem
  · exact hlabel hmarked
  · exact hlabel ((List.forall_mem_cons.mp h).1 label (hbeneath ▸ hmem) hmarked)

section Merging

variable {one other : List String}

mutual

/-- Two choices are merged if the joins that both are about find one row at most. -/
theorem JoinedTable.exists_merged {table name : String} : ∀ {under : JoinedTable} {row : Row}
    {first second : Bindings}, (row ∈ db.rows table ∨ row = []) →
    (∀ step ∈ under.steps table name, step.Known schema) →
    Closed (under.steps table name) one → Closed (under.steps table name) other →
    MeetSingly schema db (under.steps table name) one other →
    first ∈ under.choices schema db table name row →
    second ∈ under.choices schema db table name row →
    ∃ choice ∈ under.choices schema db table name row,
      AgreeMarked (under.steps table name) one choice first ∧
      AgreeMarked (under.steps table name) other choice second
  | ⟨target, label, nested⟩, row, first, second, hrow, hknown, hone, hother, hmeet, hfirst,
      hsecond => by
      rw [JoinedTable.steps] at hknown hone hother hmeet ⊢
      rw [JoinedTable.choices] at hfirst hsecond ⊢
      obtain ⟨hself, hbeneath⟩ := List.forall_mem_cons.mp hknown
      obtain ⟨found, hfound, hmem⟩ := List.mem_flatMap.mp hfirst
      obtain ⟨beneath, hchoice, rfl⟩ := List.mem_map.mp hmem
      obtain ⟨found', hfound', hmem'⟩ := List.mem_flatMap.mp hsecond
      obtain ⟨beneath', hchoice', rfl⟩ := List.mem_map.mp hmem'
      by_cases hmarked : label ∈ one
      · by_cases hboth : label ∈ other
        · have hsame : found = found' := (List.forall_mem_cons.mp hmeet).1 hmarked hboth
            |>.found_eq hrow hfound hfound'
          subst hsame
          obtain ⟨merged, hmerged, hagree, hagree'⟩ := exists_merged (found_mem hself hfound)
            hbeneath (List.forall_mem_cons.mp hone).2 (List.forall_mem_cons.mp hother).2
            (List.forall_mem_cons.mp hmeet).2 hchoice hchoice'
          refine ⟨_, List.mem_flatMap.mpr ⟨found, hfound, List.mem_map_of_mem hmerged⟩, ?_, ?_⟩
          · exact agreeMarked_cons hagree found
          · exact agreeMarked_cons hagree' found
        · refine ⟨_, hfirst, fun _ _ _ => rfl, ?_⟩
          intro which hwhich hin
          exact absurd hin (notMem_of_closed hother rfl hboth which hwhich)
      · refine ⟨_, hsecond, ?_, fun _ _ _ => rfl⟩
        intro which hwhich hin
        exact absurd hin (notMem_of_closed hone rfl hmarked which hwhich)

/-- Two choices for a row go together on the joins that are marked for each of them. -/
theorem exists_merged {table : String} : ∀ {joined : List (String × JoinedTable)} {row : Row}
    {first second : Bindings}, (row ∈ db.rows table ∨ row = []) →
    (∀ step ∈ tableSteps table joined, step.Known schema) →
    Closed (tableSteps table joined) one → Closed (tableSteps table joined) other →
    MeetSingly schema db (tableSteps table joined) one other →
    first ∈ tableChoices schema db table joined row →
    second ∈ tableChoices schema db table joined row →
    ∃ choice ∈ tableChoices schema db table joined row,
      AgreeMarked (tableSteps table joined) one choice first ∧
      AgreeMarked (tableSteps table joined) other choice second
  | [], row, first, second, hrow, hknown, hone, hother, hmeet, hfirst, hsecond =>
      ⟨first, hfirst, fun _ _ _ => rfl, fun label hlabel => nomatch hlabel⟩
  | (name, under) :: rest, row, first, second, hrow, hknown, hone, hother, hmeet, hfirst,
      hsecond => by
      rw [tableSteps] at hknown hone hother hmeet ⊢
      rw [tableChoices] at hfirst hsecond ⊢
      obtain ⟨hknownUnder, hknownRest⟩ := List.forall_mem_append.mp hknown
      obtain ⟨honeUnder, honeRest⟩ := List.forall_mem_append.mp hone
      obtain ⟨hotherUnder, hotherRest⟩ := List.forall_mem_append.mp hother
      obtain ⟨hmeetUnder, hmeetRest⟩ := List.forall_mem_append.mp hmeet
      obtain ⟨part, hpart, hmem⟩ := List.mem_flatMap.mp hfirst
      obtain ⟨others, hothers, rfl⟩ := List.mem_map.mp hmem
      obtain ⟨part', hpart', hmem'⟩ := List.mem_flatMap.mp hsecond
      obtain ⟨others', hothers', rfl⟩ := List.mem_map.mp hmem'
      obtain ⟨merged, hmerged, hagree, hagree'⟩ := JoinedTable.exists_merged hrow hknownUnder
        honeUnder hotherUnder hmeetUnder hpart hpart'
      obtain ⟨more, hmore, hmoreAgree, hmoreAgree'⟩ := exists_merged hrow hknownRest
        honeRest hotherRest hmeetRest hothers hothers'
      have hnames := JoinedTable.names_choice hmerged
      exact ⟨_, List.mem_flatMap.mpr ⟨merged, hmerged, List.mem_map_of_mem hmore⟩,
        agreeMarked_append hnames (JoinedTable.names_choice hpart) hagree hmoreAgree,
        agreeMarked_append hnames (JoinedTable.names_choice hpart') hagree' hmoreAgree'⟩

end

end Merging

/-! ### Extensions of a base row -/

/-- The branch is joined as a left join. -/
def LeftBranch (_ : String) (branch : Branch) (_ : Relation) : Prop :=
  branch.joinKind = .left

mutual

/-- The steps of a planned layout are its joins, each along a known relation. -/
theorem Shape.Planned.steps : ∀ {shape : Shape} {table : String} {layout : Layout},
    shape.Planned schema table layout →
    (tableSteps table layout.joinedTables).map (·.label) = (layout.joins schema).map (·.label) ∧
      ∀ step ∈ tableSteps table layout.joinedTables, step.Known schema
  | ⟨_, _, _⟩, _, ⟨_, _, _, _, _, _, _, _, _, _⟩, .intro htable _ _ _ _ _ hrelations => by
      rw [Layout.joinedTables, Layout.joins]
      cases htable
      exact hrelations.steps _

/-- The joins of a plan are those of its tree, each of a relation to its target. -/
theorem BranchesPlanned.steps : ∀ {relations : List (String × BranchOf Shape)} {table : String}
    {joined : List JoinedBranch} {deferred : List (String × Branch)},
    BranchesPlanned schema relations table joined deferred → ∀ (qualifier : String),
    (tableSteps table (branchTables joined)).map (·.label) =
        (branchJoins schema table qualifier joined).map (·.label) ∧
      ∀ step ∈ tableSteps table (branchTables joined), step.Known schema
  | _, _, _, _, .nil, qualifier => by
      rw [branchTables, tableSteps, branchJoins]
      exact ⟨rfl, fun step hstep => nomatch hstep⟩
  | _, table, _, _, @BranchesPlanned.joined _ name branch rest _ relation layout others deferred
      hjoinable hlayout hlead hrest, qualifier => by
      have hrelation := (joinable?_eq_some hjoinable).1
      have htable : layout.table = relation.target := hlayout.table_eq
      obtain ⟨hlabels, hknown⟩ := hlayout.steps
      obtain ⟨hothers, hknownOthers⟩ := hrest.steps qualifier
      rw [branchTables, tableSteps, branchJoins_cons hrelation, JoinedTable.steps, htable]
      refine ⟨by simp [hlabels, hothers], ?_⟩
      refine List.forall_mem_append.mpr ⟨List.forall_mem_cons.mpr ⟨?_, hknown⟩, hknownOthers⟩
      exact ⟨relation, hrelation, rfl⟩
  | _, _, _, _, .deferred _ _ hrest, qualifier => hrest.steps qualifier

end

/-- A left join extends a row by what it finds for the row that it starts from. -/
theorem extensions_cons {join : PlannedJoin} (hkind : join.kind = .left) {row : Bindings}
    {found : Option Row} (hsource : row.lookup join.source = some found)
    (hlabel : join.label ∉ Dict.names row) {table : String}
    (hrelation : schema.relation? table join.name = some join.relation) (more : List Join) :
    extensions db (join.clause :: more) row =
      (orNone (schema.joinedRows db table join.name (found.getD []))).flatMap fun other =>
        extensions db more (row ++ [(join.label, other)]) := by
  let direct : PlannedJoin := { join with relation := join.relation.direct }
  have hbesides := @besides_linked db direct rfl row found hsource hlabel
  simp only [List.append_nil] at hbesides
  have hfound : found.elim [] (direct.relation.linked db) =
      schema.joinedRows db table join.name (found.getD []) := by
    cases found with
    | none => exact (joinedRows_nil table join.name).symm
    | some other =>
        rw [Schema.joinedRows, hrelation]
        rfl
  rw [extensions, PlannedJoin.clause, hkind, ← hfound]
  dsimp only
  rw [show besides (accepts (join.on.truth db)) .left join.label (db.rows join.relation.target) row =
    _ from hbesides, List.flatMap_map]

mutual

/-- So the joins of a layout extend a row by the choices in its joined tables. -/
theorem Shape.Planned.extensions_eq : ∀ {shape : Shape} {table : String} {layout : Layout},
    shape.Planned schema table layout → shape.Throughout schema LeftBranch table →
    ∀ {row : Bindings} {found : Option Row}, row.lookup layout.qualifier = some found →
    (Dict.names row ++ (tableSteps table layout.joinedTables).map (·.label)).Nodup →
    ∀ (more : List Join),
    extensions db ((layout.joins schema).map PlannedJoin.clause ++ more) row =
      (tableChoices schema db table layout.joinedTables (found.getD [])).flatMap fun choice =>
        extensions db more (row ++ choice)
  | ⟨_, _, _⟩, _, ⟨_, _, _, _, _, _, _, _, _, _⟩, .intro htable _ _ _ _ _ hrelations,
      hthroughout, row, found, hfound, hnodup, more => by
      rw [Shape.Throughout] at hthroughout
      rw [Layout.joinedTables] at hnodup ⊢
      rw [Layout.joins]
      cases htable
      exact hrelations.extensions_eq hthroughout hfound hnodup more

/-- The joins of a plan extend a row by the choices in the joined relations of the row that they
start from. -/
theorem BranchesPlanned.extensions_eq : ∀ {relations : List (String × BranchOf Shape)}
    {table : String} {joined : List JoinedBranch} {deferred : List (String × Branch)},
    BranchesPlanned schema relations table joined deferred →
    branchesThroughout schema LeftBranch relations table →
    ∀ {qualifier : String} {row : Bindings} {found : Option Row},
    row.lookup qualifier = some found →
    (Dict.names row ++ (tableSteps table (branchTables joined)).map (·.label)).Nodup →
    ∀ (more : List Join),
    extensions db ((branchJoins schema table qualifier joined).map PlannedJoin.clause ++ more) row =
      (tableChoices schema db table (branchTables joined) (found.getD [])).flatMap fun choice =>
        extensions db more (row ++ choice)
  | _, _, _, _, .nil, _, qualifier, row, found, _, _, more => by
      rw [branchJoins, branchTables, tableChoices]
      simp
  | _, table, _, _, @BranchesPlanned.joined _ name branch rest _ relation layout others deferred
      hjoinable hlayout hlead hrest, hthroughout, qualifier, row, found, hfound, hnodup, more => by
      have hrelation := (joinable?_eq_some hjoinable).1
      have htable : layout.table = relation.target := hlayout.table_eq
      obtain ⟨shape, filter, orderBy, take, skip, distinct, joinKind⟩ := branch
      rw [branchesThroughout] at hthroughout
      obtain ⟨hkind, hbeneath⟩ := hthroughout.1 relation hrelation
      have hlabels : (((Dict.names row ++ [layout.qualifier]) ++
          (tableSteps relation.target layout.joinedTables).map (·.label)) ++
            (tableSteps table (branchTables others)).map (·.label)).Nodup := by
        simpa [branchTables, tableSteps, JoinedTable.steps, htable] using hnodup
      have hlabel : layout.qualifier ∉ Dict.names row := fun hmem =>
        (List.nodup_append'.mp hlabels.of_append_left.of_append_left).2.2 hmem
          (List.mem_singleton.mpr rfl)
      have hleft : (PlannedJoin.mk relation name qualifier layout.qualifier joinKind).kind = .left :=
        hkind
      rw [branchJoins_cons hrelation, List.map_cons, List.cons_append,
        extensions_cons hleft hfound hlabel hrelation, branchTables, tableChoices,
        JoinedTable.choices, htable, List.flatMap_assoc, List.flatMap_assoc]
      refine List.flatMap_congr fun other _ => ?_
      have hbound : (row ++ [(layout.qualifier, other)]).lookup layout.qualifier = some other := by
        rw [Dict.lookup_append_of_notMem hlabel]
        simp
      have hnames : Dict.names (row ++ [(layout.qualifier, other)]) =
          Dict.names row ++ [layout.qualifier] := Dict.names_append _ _
      rw [List.flatMap_map, List.map_append, List.append_assoc,
        hlayout.extensions_eq hbeneath hbound (hnames ▸ hlabels.of_append_left)]
      refine List.flatMap_congr fun beneath hchoice => ?_
      have hsource : (row ++ [(layout.qualifier, other)] ++ beneath).lookup qualifier =
          some found := by
        have hmem : qualifier ∈ Dict.names row :=
          Dict.lookup_isSome_iff.mp (by rw [hfound]; rfl)
        rw [List.append_assoc, Dict.lookup_append_of_mem hmem, hfound]
      have hall : (Dict.names (row ++ [(layout.qualifier, other)] ++ beneath) ++
          (tableSteps table (branchTables others)).map (·.label)).Nodup := by
        rw [Dict.names_append, hnames, names_tableChoice hchoice]
        exact hlabels
      rw [hrest.extensions_eq hthroughout.2 hsource hall, List.flatMap_map]
      simp
  | _, _, _, _, .deferred _ _ hrest, hthroughout, qualifier, row, found, hfound, hnodup, more => by
      rw [branchesThroughout] at hthroughout
      exact hrest.extensions_eq hthroughout.2 hfound hnodup more

end

/-- Beside a row of the base table they put its choices. -/
theorem Shape.Planned.extensions_base {shape : Shape} {table : String} {layout : Layout}
    (h : shape.Planned schema table layout) (hleft : shape.Throughout schema LeftBranch table)
    (hqualifier : layout.qualifier = table)
    (hnodup : (table :: (layout.joins schema).map (·.label)).Nodup) (row : Row) :
    extensions db ((layout.joins schema).map PlannedJoin.clause) [(table, some row)] =
      (tableChoices schema db table layout.joinedTables row).map ((table, some row) :: ·) := by
  have hrow : ([(table, some row)] : Bindings).lookup layout.qualifier = some (some row) := by
    rw [hqualifier, Dict.lookup_cons, if_pos rfl]
  have hextensions := @Shape.Planned.extensions_eq schema db _ _ _ h hleft _ _ hrow
    (by rw [h.steps.1]; exact hnodup) []
  rw [List.append_nil] at hextensions
  rw [hextensions, List.map_eq_flatMap]
  exact List.flatMap_congr fun choice _ => by rw [extensions, List.singleton_append]

end NestedQuery
