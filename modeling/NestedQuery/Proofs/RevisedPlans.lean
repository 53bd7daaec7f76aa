import NestedQuery.Engine.Find
import NestedQuery.Proofs.Planning

/-!
# Plans of revised requests

Neither the ordering of a relation nor those of its distinct columns that its
target does not declare take part in planning.  Revising them in a request, at
every depth, revises them in its shape and in its layout and changes nothing
else there: the same columns are carried under the same names, and the same
relations are joined or put off.
-/

namespace NestedQuery

variable {schema : Schema}

/-! ### Revising -/

/-- The table that a relation of that name leads to; the empty name if there is no such relation. -/
def Schema.targetOf (schema : Schema) (table name : String) : String :=
  ((schema.relation? table name).map (·.target)).getD ""

/-- A change of the ordering and of the distinct columns of every relation, the latter by the table
that it leads to: what is not given stays so, and the same declared columns are left. -/
structure Revision (schema : Schema) where
  orderBy : Option SortRequest → Option SortRequest := id
  distinct : String → Option (List String) → Option (List String) := fun _ => id
  orderBy_none : orderBy none = none := by rfl
  distinct_none : ∀ target, distinct target none = none := by exact fun _ => rfl
  declared : ∀ target columns,
    ((distinct target columns).getD []).filter (schema.hasColumn target) =
      (columns.getD []).filter (schema.hasColumn target) := by exact fun _ _ => rfl

mutual

/-- The arguments with this relation to `target` and the relations beneath it revised. -/
def RelationArgs.revised (revision : Revision schema) : RelationArgs → String → RelationArgs
  | ⟨selected, included, omitted, filter, orderBy, take, skip, distinct, joinKind⟩, target =>
    ⟨choicesRevised revision selected target, choicesRevised revision included target, omitted,
      filter, revision.orderBy orderBy, take, skip, revision.distinct target distinct, joinKind⟩

def choicesRevised (revision : Revision schema) :
    Option (List (String × Choice RelationArgs)) → String →
    Option (List (String × Choice RelationArgs))
  | none, _ => none
  | some choices, table => some (entriesRevised revision choices table)

def entriesRevised (revision : Revision schema) :
    List (String × Choice RelationArgs) → String → List (String × Choice RelationArgs)
  | [], _ => []
  | (name, .flag chosen) :: rest, table =>
    (name, .flag chosen) :: entriesRevised revision rest table
  | (name, .relation args) :: rest, table =>
    (name, .relation (args.revised revision (schema.targetOf table name))) ::
      entriesRevised revision rest table

end

/-- The request to `table` with its relations revised. -/
def FindArgs.revised (revision : Revision schema) (args : FindArgs) (table : String) : FindArgs :=
  { args with
    selected := choicesRevised revision args.selected table
    included := choicesRevised revision args.included table }

mutual

/-- The shape of records of `table` with its relations revised. -/
def Shape.revised (revision : Revision schema) : Shape → String → Shape
  | ⟨fields, excluded, relations⟩, table =>
    ⟨fields, excluded, branchesRevised revision relations table⟩

def branchesRevised (revision : Revision schema) :
    List (String × BranchOf Shape) → String → List (String × BranchOf Shape)
  | [], _ => []
  | (name, ⟨shape, filter, orderBy, take, skip, distinct, joinKind⟩) :: rest, table =>
    let target := schema.targetOf table name
    (name, ⟨shape.revised revision target, filter, revision.orderBy orderBy, take, skip,
      revision.distinct target distinct, joinKind⟩) :: branchesRevised revision rest table

end

/-- The branch to `target` with this relation and the relations beneath it revised. -/
def BranchOf.revised (revision : Revision schema) (branch : Branch) (target : String) : Branch :=
  { branch with
    shape := branch.shape.revised revision target
    orderBy := revision.orderBy branch.orderBy
    distinct := revision.distinct target branch.distinct }

mutual

/-- The layout with its relations revised. -/
def Layout.revised (revision : Revision schema) : Layout → Layout
  | ⟨table, qualifier, lead, fields, columns, outputs, key, identity, relations, deferred⟩ =>
    ⟨table, qualifier, lead, fields, columns, outputs, key, identity,
      joinedRevised revision relations table, branchesRevised revision deferred table⟩

def joinedRevised (revision : Revision schema) :
    List (JoinedBranchOf Layout) → String → List (JoinedBranchOf Layout)
  | [], _ => []
  | ⟨name, isToMany, branch, layout⟩ :: rest, table =>
    ⟨name, isToMany, branch.revised revision (schema.targetOf table name),
      layout.revised revision⟩ :: joinedRevised revision rest table

end

theorem Schema.targetOf_eq {table name : String} {relation : Relation}
    (h : schema.relation? table name = some relation) :
    schema.targetOf table name = relation.target := by
  rw [Schema.targetOf, h]
  rfl

variable (revision : Revision schema)

theorem branchesRevised_cons (name : String) (branch : Branch) (rest : List (String × Branch))
    (table : String) :
    branchesRevised revision ((name, branch) :: rest) table =
      (name, branch.revised revision (schema.targetOf table name)) ::
        branchesRevised revision rest table := by
  cases branch
  rw [branchesRevised]
  rfl

/-- Revising relations commutes with adding one by its name. -/
theorem branchesRevised_put (name : String) (branch : Branch) (known : Branches) (table : String) :
    branchesRevised revision (Dict.put name branch known) table =
      Dict.put name (branch.revised revision (schema.targetOf table name))
        (branchesRevised revision known table) := by
  induction known with
  | nil => rw [Dict.put, branchesRevised_cons, branchesRevised, Dict.put]
  | cons pair rest ih =>
      obtain ⟨other, kept⟩ := pair
      rw [branchesRevised_cons, Dict.put, Dict.put]
      split
      · rw [branchesRevised_cons, branchesRevised_cons]
      · split
        · rw [branchesRevised_cons]
        · rw [branchesRevised_cons, ih]

/-- Revising keeps the relations under their names. -/
theorem branchesRevised_names (branches : List (String × Branch)) (table : String) :
    (branchesRevised revision branches table).map (·.1) = branches.map (·.1) := by
  induction branches with
  | nil => rfl
  | cons entry rest ih =>
      obtain ⟨name, branch⟩ := entry
      rw [branchesRevised_cons, List.map_cons, List.map_cons, ih]

/-! ### Shapes -/

/-- A shape is revised in its relations only. -/
theorem Shape.revised_ofTable (table : Table) (selected : Option Choices)
    (omitted : Option Omissions) (relations : Branches) (name : String) :
    (Shape.ofTable table selected omitted relations).revised revision name =
      Shape.ofTable table selected omitted (branchesRevised revision relations name) := by
  unfold Shape.ofTable
  rw [Shape.revised]

/-- A shape without relations stays as it is. -/
theorem Shape.revised_plain (table : String) :
    (Shape.plain schema table).revised revision table = Shape.plain schema table := by
  unfold Shape.plain
  cases schema.table? table with
  | none => rfl
  | some known => rw [Shape.revised_ofTable, branchesRevised]

/-- Which columns are chosen does not depend on the arguments of relations. -/
theorem chosenFields_revised (table : Table) (selected : Option Choices) (name : String) :
    Shape.chosenFields table (choicesRevised revision selected name) =
      Shape.chosenFields table selected := by
  cases selected with
  | none => rfl
  | some choices =>
      have hchosen : ((entriesRevised revision choices name).filter fun pair =>
          table.hasColumn pair.1 && Shape.isChosen pair.2).map (·.1) =
            (choices.filter fun pair =>
              table.hasColumn pair.1 && Shape.isChosen pair.2).map (·.1) := by
        induction choices with
        | nil => rfl
        | cons entry rest ih =>
            obtain ⟨key, choice⟩ := entry
            cases choice with
            | flag chosen =>
                rw [entriesRevised, List.filter_cons, List.filter_cons]
                split
                · rw [List.map_cons, List.map_cons, ih]
                · exact ih
            | relation args =>
                rw [entriesRevised, List.filter_cons, List.filter_cons]
                simp only [Shape.isChosen, Bool.and_false]
                exact ih
      unfold Shape.chosenFields
      rw [choicesRevised, Option.getD_some, Option.getD_some, hchosen]

/-- The fields of a shape are chosen alike by revised choices. -/
theorem Shape.ofTable_revised (table : Table) (selected : Option Choices)
    (omitted : Option Omissions) (relations : Branches) (name : String) :
    Shape.ofTable table (choicesRevised revision selected name) omitted relations =
      Shape.ofTable table selected omitted relations := by
  unfold Shape.ofTable
  rw [chosenFields_revised]

/-- Choices that load a relation alike, once it is revised, are added alike. -/
theorem addChoice_revised {name : String} {table : Table}
    (htable : schema.table? name = some table) {key : String} {choice other : Choice RelationArgs}
    (h : (choice.branch? schema (schema.targetOf name key)).map
      (·.revised revision (schema.targetOf name key)) =
        other.branch? schema (schema.targetOf name key)) (known : Branches) :
    branchesRevised revision (addChoice schema table key choice known) name =
      addChoice schema table key other (branchesRevised revision known name) := by
  unfold addChoice
  cases table.hasColumn key with
  | true => rfl
  | false =>
      cases hrelation : table.relation? key with
      | none => rfl
      | some relation =>
          have htarget : schema.targetOf name key = relation.target := by
            refine Schema.targetOf_eq ?_
            rw [Schema.relation?, htable]
            exact hrelation
          rw [htarget] at h
          simp only [← h]
          cases choice.branch? schema relation.target with
          | none => rfl
          | some branch => exact htarget ▸ branchesRevised_put revision key branch known name

mutual

/-- Revised arguments make a revised branch. -/
theorem RelationArgs.branch_revised : ∀ (args : RelationArgs) (target : String),
    (args.revised revision target).branch schema target =
      (args.branch schema target).revised revision target
  | ⟨selected, included, omitted, filter, orderBy, take, skip, distinct, joinKind⟩, target => by
      rw [RelationArgs.revised, RelationArgs.branch, RelationArgs.branch, BranchOf.revised]
      cases htable : schema.table? target with
      | none => rfl
      | some table =>
          simp only [Shape.revised_ofTable, Shape.ofTable_revised,
            chosenBranches_revised included htable, chosenBranches_revised selected htable,
            branchesRevised]

/-- Choices that are revised lead to the relations revised, if there are any. -/
theorem chosenBranches_revised : ∀ (choices : Option (List (String × Choice RelationArgs)))
    {name : String} {table : Table}, schema.table? name = some table → ∀ (known : Branches),
    branchesRevised revision (chosenBranches schema table choices known) name =
      chosenBranches schema table (choicesRevised revision choices name)
        (branchesRevised revision known name)
  | none, _, _, _, known => by
      rw [choicesRevised, chosenBranches, chosenBranches]
  | some choices, _, _, htable, known => by
      rw [choicesRevised, chosenBranches, chosenBranches, addBranches_revised choices htable]

/-- So each choice by name adds its relation revised. -/
theorem addBranches_revised : ∀ (choices : List (String × Choice RelationArgs)) {name : String}
    {table : Table}, schema.table? name = some table → ∀ (known : Branches),
    branchesRevised revision (addBranches schema table choices known) name =
      addBranches schema table (entriesRevised revision choices name)
        (branchesRevised revision known name)
  | [], _, _, _, known => rfl
  | (key, .flag chosen) :: rest, name, table, htable, known => by
      rw [entriesRevised, addBranches_cons, addBranches_cons, addBranches_revised rest htable,
        addChoice_revised revision htable ?_]
      cases chosen with
      | false => rfl
      | true =>
          simp only [Choice.branch?, Option.map_some, BranchOf.revised, Shape.revised_plain,
            revision.orderBy_none, revision.distinct_none]
  | (key, .relation args) :: rest, name, table, htable, known => by
      rw [entriesRevised, addBranches_cons, addBranches_cons, addBranches_revised rest htable,
        addChoice_revised revision htable ?_]
      simp only [Choice.branch?, Option.map_some, RelationArgs.branch_revised args]

end

/-- So does a request. -/
theorem shape_revised (table : String) (args : FindArgs) :
    schema.shape table (args.revised revision table).selected (args.revised revision table).included
        (args.revised revision table).omitted =
      (schema.shape table args.selected args.included args.omitted).revised revision table := by
  unfold Schema.shape FindArgs.revised
  cases htable : schema.table? table with
  | none => rfl
  | some known =>
      simp only [Shape.revised_ofTable, Shape.ofTable_revised,
        chosenBranches_revised revision _ htable, branchesRevised]

/-- A revised shape has the same fields. -/
theorem Shape.fields_revised (shape : Shape) (table : String) :
    (shape.revised revision table).fields = shape.fields := by
  cases shape
  rw [Shape.revised]

/-- Its relations are those of the shape, revised. -/
theorem Shape.relations_revised (shape : Shape) (table : String) :
    (shape.revised revision table).relations =
      branchesRevised revision shape.relations table := by
  cases shape
  rw [Shape.revised]

/-! ### Layouts -/

mutual

/-- Planning looks at nothing that is revised. -/
theorem Shape.plan_revised : ∀ (shape : Shape) (table qualifier lead : String)
    (extra more : List String),
    extra.filter (schema.hasColumn table) = more.filter (schema.hasColumn table) →
    ∀ (planner : Planner),
    (shape.revised revision table).plan schema table qualifier lead extra planner =
      ((shape.plan schema table qualifier lead more planner).1.revised revision,
        (shape.plan schema table qualifier lead more planner).2)
  | ⟨fields, excluded, relations⟩, table, qualifier, lead, extra, more, hextra, planner => by
      unfold Schema.hasColumn at hextra
      rw [Shape.revised, Shape.plan, Shape.plan]
      simp only [planBranches_revised relations, Layout.revised, hextra]

/-- Planning revised relations plans them, joins the same tables and revises what is joined and what
is put off. -/
theorem planBranches_revised : ∀ (relations : List (String × BranchOf Shape))
    (table qualifier lead : String) (planner : Planner),
    planBranches schema (branchesRevised revision relations table) table qualifier lead planner =
      let planned := planBranches schema relations table qualifier lead planner
      (⟨joinedRevised revision planned.1.joined table,
        branchesRevised revision planned.1.deferred table, planned.1.links⟩, planned.2)
  | [], table, qualifier, lead, planner => by
      rw [branchesRevised, planBranches]
      simp only [joinedRevised, branchesRevised]
  | (name, ⟨shape, filter, orderBy, take, skip, distinct, joinKind⟩) :: rest,
      table, qualifier, lead, planner => by
      rw [branchesRevised, planBranches, planBranches]
      rcases planner.add_cases schema table qualifier name joinKind with
        ⟨-, hadd⟩ | ⟨relation, hjoinable, hadd⟩
      · simp only [hadd, planBranches_revised rest]
        cases schema.relation? table name with
        | none => rfl
        | some relation => simp only [branchesRevised]
      · have htarget := Schema.targetOf_eq (joinable?_eq_some hjoinable).1
        simp only [hadd, htarget, planBranches_revised rest, joinedRevised, BranchOf.revised,
          Shape.plan_revised shape relation.target _ _ _ (distinct.getD [])
            (revision.declared relation.target distinct)]

end

mutual

/-- Neither does the naming of outputs. -/
theorem Layout.nameOutputs_revised : ∀ (layout : Layout) (taken : List String),
    (layout.revised revision).nameOutputs taken =
      ((layout.nameOutputs taken).1.revised revision, (layout.nameOutputs taken).2)
  | ⟨table, qualifier, lead, fields, columns, outputs, key, identity, relations, deferred⟩,
      taken => by
      rw [Layout.revised, Layout.nameOutputs, Layout.nameOutputs]
      simp only [nameBranchOutputs_revised relations, Layout.revised]

/-- The outputs beneath revised relations get the same names. -/
theorem nameBranchOutputs_revised : ∀ (relations : List (JoinedBranchOf Layout)) (table : String)
    (taken : List String),
    nameBranchOutputs (joinedRevised revision relations table) taken =
      (joinedRevised revision (nameBranchOutputs relations taken).1 table,
        (nameBranchOutputs relations taken).2)
  | [], table, taken => by
      rw [joinedRevised, nameBranchOutputs]
      rfl
  | ⟨name, isToMany, branch, layout⟩ :: rest, table, taken => by
      rw [joinedRevised, nameBranchOutputs, nameBranchOutputs]
      simp only [Layout.nameOutputs_revised layout, nameBranchOutputs_revised rest,
        joinedRevised]

end

/-- The layout of a revised shape is its layout revised, with the same joins. -/
theorem Shape.layout_revised (shape : Shape) (table : String) (extra : List String) :
    (shape.revised revision table).layout schema table extra =
      ((shape.layout schema table extra).1.revised revision,
        (shape.layout schema table extra).2) := by
  unfold Shape.layout
  simp only [Shape.plan_revised revision shape table table "" extra extra rfl,
    Layout.nameOutputs_revised]

/-! ### What the statement needs -/

/-- A revised layout is one of the same table. -/
theorem Layout.table_revised (layout : Layout) : (layout.revised revision).table = layout.table := by
  cases layout
  rw [Layout.revised]

/-- It reads the table under the same qualifier. -/
theorem Layout.qualifier_revised (layout : Layout) :
    (layout.revised revision).qualifier = layout.qualifier := by
  cases layout
  rw [Layout.revised]

mutual

/-- It joins the same tables beneath. -/
theorem Layout.joinedTables_revised : ∀ (layout : Layout),
    (layout.revised revision).joinedTables = layout.joinedTables
  | ⟨_, _, _, _, _, _, _, _, relations, _⟩ => by
      rw [Layout.revised, Layout.joinedTables, Layout.joinedTables,
        branchTables_revised relations]

/-- So do its joined relations. -/
theorem branchTables_revised : ∀ (relations : List (JoinedBranchOf Layout)) (table : String),
    branchTables (joinedRevised revision relations table) = branchTables relations
  | [], _ => by rw [joinedRevised]
  | ⟨_, _, _, layout⟩ :: rest, _ => by
      rw [joinedRevised, branchTables, branchTables, layout.joinedTables_revised,
        branchTables_revised rest, layout.table_revised, layout.qualifier_revised]

end

mutual

/-- It repeats rows if the layout does. -/
theorem Layout.fansOut_revised : ∀ (layout : Layout),
    (layout.revised revision).fansOut = layout.fansOut
  | ⟨_, _, _, _, _, _, _, _, relations, _⟩ => by
      rw [Layout.revised, Layout.fansOut, Layout.fansOut, branchesFanOut_revised relations]

/-- So do its joined relations. -/
theorem branchesFanOut_revised : ∀ (relations : List (JoinedBranchOf Layout)) (table : String),
    branchesFanOut (joinedRevised revision relations table) = branchesFanOut relations
  | [], _ => by rw [joinedRevised]
  | ⟨_, _, _, layout⟩ :: rest, _ => by
      rw [joinedRevised, branchesFanOut, branchesFanOut, layout.fansOut_revised,
        branchesFanOut_revised rest]

end

mutual

/-- It has the same outputs. -/
theorem Layout.projection_revised : ∀ (layout : Layout),
    (layout.revised revision).projection = layout.projection
  | ⟨_, _, _, _, _, _, _, _, relations, _⟩ => by
      rw [Layout.revised, Layout.projection, Layout.projection,
        branchProjections_revised relations]

/-- So have its joined relations. -/
theorem branchProjections_revised : ∀ (relations : List (JoinedBranchOf Layout))
    (table : String),
    branchProjections (joinedRevised revision relations table) = branchProjections relations
  | [], _ => by rw [joinedRevised]
  | ⟨_, _, _, layout⟩ :: rest, _ => by
      rw [joinedRevised, branchProjections, branchProjections, layout.projection_revised,
        branchProjections_revised rest]

end

mutual

/-- Where the orderings are left alone, the joined relations bring the same clauses along. -/
theorem Layout.clauses_revised (horder : revision.orderBy = id) : ∀ (layout : Layout) (n : Nat),
    (layout.revised revision).clauses schema n = layout.clauses schema n
  | ⟨_, _, _, _, _, _, _, _, relations, _⟩, n => by
      rw [Layout.revised, Layout.clauses, Layout.clauses, branchClauses_revised horder relations]

/-- If a revision keeps the orderings, the joined relations bring along the same clauses. -/
theorem branchClauses_revised (horder : revision.orderBy = id) :
    ∀ (relations : List (JoinedBranchOf Layout)) (table : String) (n : Nat),
    branchClauses schema (joinedRevised revision relations table) n =
      branchClauses schema relations n
  | [], _, n => by rw [joinedRevised]
  | ⟨_, _, branch, layout⟩ :: rest, _, n => by
      rw [joinedRevised, branchClauses, branchClauses, layout.table_revised,
        layout.qualifier_revised]
      simp only [layout.joinedTables_revised, layout.clauses_revised horder,
        branchClauses_revised horder rest, BranchOf.revised, horder, id_eq]

end

mutual

/-- Nor does what is dropped from records depend on it. -/
theorem Layout.strip_revised : ∀ (layout : Layout),
    (layout.revised revision).strip = layout.strip
  | ⟨table, _, _, _, _, _, _, _, relations, deferred⟩ => by
      have hnames : (joinedRevised revision relations table).map (·.name) =
          relations.map (·.name) := by
        induction relations with
        | nil => rfl
        | cons joined rest ih =>
            obtain ⟨_, _, _, _⟩ := joined
            rw [joinedRevised, List.map_cons, List.map_cons, ih]
      funext record
      rw [Layout.revised, Layout.strip, Layout.strip, hnames, branchesRevised_names,
        stripBranches_revised relations]

/-- What is hidden beneath the joined relations is the same. -/
theorem stripBranches_revised : ∀ (relations : List (JoinedBranchOf Layout)) (table : String),
    stripBranches (joinedRevised revision relations table) = stripBranches relations
  | [], _ => by rw [joinedRevised]
  | ⟨_, _, _, layout⟩ :: rest, table => by
      funext record
      rw [joinedRevised, stripBranches, stripBranches, layout.strip_revised,
        stripBranches_revised rest]

end

/-! ### Statements -/

section Statements

variable (horder : revision.orderBy = id)

include horder

/-- The joined statement does not depend on what is revised. -/
theorem joinedStatement_revised (settings : Settings) (table : Table) (args : FindArgs)
    (paging : Paging) (layout : Layout) (planner : Planner) :
    Engine.joinedStatement ⟨schema, settings⟩ table (args.revised revision table.name) paging
        (layout.revised revision) planner =
      Engine.joinedStatement ⟨schema, settings⟩ table args paging layout planner := by
  unfold Engine.joinedStatement
  simp only [layout.joinedTables_revised, layout.fansOut_revised, layout.projection_revised,
    layout.clauses_revised revision horder]
  rfl

/-- Neither does the statement for related rows. -/
theorem relatedStatement_revised {name : String} {target : Table}
    (htarget : schema.table? name = some target) (branch : Branch) (link : String)
    (keys : List Value) :
    relatedStatement schema target (branch.revised revision name) link keys =
      relatedStatement schema target branch link keys := by
  have hcolumns : target.hasColumn = schema.hasColumn name := by
    funext column
    rw [Schema.hasColumn, htarget]
    rfl
  unfold relatedStatement
  simp only [BranchOf.revised, Shape.fields_revised, Shape.relations_revised,
    branchesRevised_names, hcolumns, revision.declared, horder, id_eq]

/-- The statements of a batch are the same for a revised relation. -/
theorem fetch_revised (relation : Relation) (branch : Branch) (keys : List Value) :
    fetch schema relation (branch.revised revision relation.target) keys =
      fetch schema relation branch keys := by
  unfold fetch fetchLinked fetchDirect
  cases htarget : schema.table? relation.target with
  | none => rfl
  | some target => simp only [relatedStatement_revised revision horder htarget]

/-- Nor does what is asked for a level. -/
theorem fetchLevel_revised (table : String) (branches : List (String × Branch))
    (owners : List Record) :
    fetchLevel schema table (branchesRevised revision branches table) owners =
      fetchLevel schema table branches owners := by
  unfold fetchLevel
  refine congrArg Load.sequence ?_
  induction branches with
  | nil => rfl
  | cons entry rest ih =>
      obtain ⟨name, branch⟩ := entry
      rw [branchesRevised_cons]
      unfold knownBranches at ih ⊢
      cases hrelation : schema.relation? table name with
      | none => simpa only [List.filterMap_cons, hrelation, Option.map_none] using ih
      | some relation =>
          simp only [List.filterMap_cons, hrelation, Option.map_some, List.map_cons, ih,
            Schema.targetOf_eq hrelation, fetch_revised revision horder]

end Statements

end NestedQuery
