import NestedQuery.Proofs.PlanScope
import NestedQuery.Proofs.Reachability

/-!
# Shapes and the layouts planned for them

A shape that comes from arguments is proper: its fields are columns of its
table, and its relations are known under names that are no columns.  A layout is
planned for a shape when it shows the same fields, carries these with the key and
the links that are needed later, and has each relation of the shape either
joined beneath it or put off.  Naming outputs does not change that.  What is
shown of records later rests on these two notions only, not on how planning
goes about it.
-/

namespace NestedQuery

variable {schema : Schema}

/-! ### Hidden columns -/

/-- Columns and the hidden ones that were added. -/
theorem mem_withHidden {column : String} {columns extra : List String} :
    column ∈ withHidden columns extra ↔ column ∈ columns ∨ column ∈ extra := by
  unfold withHidden
  induction extra generalizing columns with
  | nil => simp
  | cons hidden rest ih =>
      rw [List.foldl_cons, ih]
      split
      · next hknown =>
          have hmem : hidden ∈ columns := by simpa using hknown
          constructor
          · rintro (hcolumn | hrest)
            · exact Or.inl hcolumn
            · exact Or.inr (List.mem_cons_of_mem _ hrest)
          · rintro (hcolumn | hextra)
            · exact Or.inl hcolumn
            · rcases List.mem_cons.mp hextra with rfl | hrest
              · exact Or.inl hmem
              · exact Or.inr hrest
      · simp only [List.mem_append, List.mem_cons, List.not_mem_nil, or_false, or_assoc]

/-! ### Proper shapes -/

mutual

/-- The fields are columns of the table; the relations are known, each once, under names that are
no columns, and so on beneath them. -/
def Shape.Proper (schema : Schema) : Shape → String → Prop
  | ⟨fields, _, relations⟩, table =>
    (∀ field ∈ fields, schema.hasColumn table field) ∧ (relations.map (·.1)).Nodup ∧
      branchesProper schema relations table

/-- Each relation is known under a name that is no column, and its shape is proper. -/
def branchesProper (schema : Schema) : List (String × BranchOf Shape) → String → Prop
  | [], _ => True
  | (name, ⟨shape, _, _, _, _, _, _⟩) :: rest, table =>
    (schema.hasColumn table name = false ∧
      ∃ relation, schema.relation? table name = some relation ∧ shape.Proper schema relation.target) ∧
    branchesProper schema rest table

end

/-- What is asked of each of the relations. -/
theorem branchesProper_iff {branches : List (String × Branch)} {table : String} :
    branchesProper schema branches table ↔ ∀ entry ∈ branches,
      schema.hasColumn table entry.1 = false ∧
      ∃ relation, schema.relation? table entry.1 = some relation ∧
        entry.2.shape.Proper schema relation.target := by
  induction branches with
  | nil => simp [branchesProper]
  | cons entry rest ih =>
      obtain ⟨name, ⟨shape, filter, orderBy, take, skip, distinct, joinKind⟩⟩ := entry
      rw [branchesProper, ih, List.forall_mem_cons]

/-- A shape is proper if its fields are columns of the table and its relations are proper, each
named once. -/
theorem Shape.proper_iff {shape : Shape} {table : String} :
    shape.Proper schema table ↔ (∀ field ∈ shape.fields, schema.hasColumn table field) ∧
      (shape.relations.map (·.1)).Nodup ∧ branchesProper schema shape.relations table := by
  obtain ⟨fields, excluded, relations⟩ := shape
  rw [Shape.Proper]

/-- Omitting is taking names away from the fields. -/
theorem omitFields_eq_diff (fields : List String) (omitted : Option Omissions) :
    (Shape.omitFields fields omitted).1 =
      fields.diff (((omitted.getD []).filter (·.2)).map (·.1)) := by
  unfold Shape.omitFields
  dsimp only
  generalize ((omitted.getD []).filter (·.2)).map (·.1) = dropped
  generalize hstart : (fields, ([] : List String)) = start
  obtain rfl : start.1 = fields := by rw [← hstart]
  clear hstart
  induction dropped generalizing start with
  | nil => rw [List.foldl_nil, List.diff_nil]
  | cons name rest ih =>
      rw [List.foldl_cons, List.diff_cons]
      by_cases hname : name ∈ start.1
      · rw [if_pos (List.contains_iff_mem.mpr hname)]
        exact ih (start.1.erase name, start.2 ++ [name])
      · rw [if_neg (by simpa using hname), List.erase_of_not_mem hname]
        exact ih start

/-- Omitting fields leaves some of them. -/
theorem omitFields_subset (fields : List String) (omitted : Option Omissions) :
    (Shape.omitFields fields omitted).1 ⊆ fields := by
  rw [omitFields_eq_diff]
  exact List.diff_subset _ _

/-- The shape of a known table is proper if its relations are. -/
theorem ofTable_proper {name : String} {table : Table} (htable : schema.table? name = some table)
    (selected : Option Choices) (omitted : Option Omissions) {relations : Branches}
    (hsorted : Dict.Sorted relations) (hrelations : branchesProper schema relations name) :
    (Shape.ofTable table selected omitted relations).Proper schema name := by
  have hfields : ∀ field ∈ (Shape.omitFields (Shape.chosenFields table selected) omitted).1,
      schema.hasColumn name field := by
    intro field hfield
    have hchosen := omitFields_subset _ _ hfield
    rw [Shape.chosenFields] at hchosen
    obtain ⟨column, hcolumn, rfl⟩ := List.mem_map.mp (List.mem_filter.mp hchosen).1
    rw [Schema.hasColumn, htable]
    exact List.any_eq_true.mpr ⟨column, hcolumn, by simp⟩
  unfold Shape.ofTable
  rw [Shape.Proper]
  exact ⟨hfields, hsorted.names_nodup, hrelations⟩

/-- A shape that shows nothing is proper. -/
theorem empty_proper (table : String) : Shape.Proper schema {} table := by
  rw [Shape.Proper, branchesProper]
  refine ⟨?_, List.nodup_nil, trivial⟩
  intro field hfield
  cases hfield

/-- A shape of all columns and no relations is proper. -/
theorem plain_proper (table : String) : (Shape.plain schema table).Proper schema table := by
  unfold Shape.plain
  cases htable : schema.table? table with
  | none => exact empty_proper table
  | some known =>
      refine ofTable_proper htable none none List.Pairwise.nil ?_
      rw [branchesProper]
      trivial

/-- How a choice loads a relation to `target`, unless it refuses it. -/
def Choice.branch? (schema : Schema) (target : String) : Choice RelationArgs → Option Branch
  | .flag false => none
  | .flag true => some { shape := .plain schema target }
  | .relation args => some (args.branch schema target)

/-- The relations known of a level with one more choice: a relation that is known, under a name that
is no column, is added unless the choice refuses it. -/
def addChoice (schema : Schema) (table : Table) (key : String) (choice : Choice RelationArgs)
    (known : Branches) : Branches :=
  if table.hasColumn key then known
  else match table.relation? key with
    | none => known
    | some relation =>
      match choice.branch? schema relation.target with
      | none => known
      | some branch => Dict.put key branch known

/-- Choices are added one after the other. -/
theorem addBranches_cons (table : Table) (key : String) (choice : Choice RelationArgs)
    (rest : List (String × Choice RelationArgs)) (known : Branches) :
    addBranches schema table ((key, choice) :: rest) known =
      addBranches schema table rest (addChoice schema table key choice known) := by
  cases choice with
  | flag chosen => cases chosen <;> rfl
  | relation args => rfl

/-- Adding a proper branch under the name of a relation. -/
theorem branchesProper_put {name : String} {branches : Branches} {key : String} {branch : Branch}
    {relation : Relation} (h : branchesProper schema branches name)
    (hcolumn : schema.hasColumn name key = false)
    (hrelation : schema.relation? name key = some relation)
    (hbranch : branch.shape.Proper schema relation.target) :
    branchesProper schema (Dict.put key branch branches) name := by
  refine branchesProper_iff.mpr ?_
  intro entry hentry
  rcases Dict.mem_put hentry with rfl | hmem
  · exact ⟨hcolumn, relation, hrelation, hbranch⟩
  · exact branchesProper_iff.mp h entry hmem

/-- So are no relations. -/
theorem noBranches_proper (table : String) : branchesProper schema [] table := by
  rw [branchesProper]
  trivial

mutual

/-- The shape that arguments give to a relation is proper.  The branches that are known grow by one
relation after the other, so the induction over choices carries what is asked of the branches known
so far. -/
theorem RelationArgs.branch_proper : ∀ (args : RelationArgs) (target : String),
    (args.branch schema target).shape.Proper schema target
  | ⟨selected, included, omitted, filter, orderBy, take, skip, distinct, joinKind⟩, target => by
      rw [RelationArgs.branch]
      dsimp only
      split
      · next table htable =>
          obtain ⟨hsorted, hproper⟩ := chosenBranches_proper selected htable List.Pairwise.nil
            (noBranches_proper target)
          obtain ⟨hsortedAll, hproperAll⟩ := chosenBranches_proper included htable hsorted hproper
          exact ofTable_proper htable selected omitted hsortedAll hproperAll
      · exact empty_proper target

/-- Choices add proper relations to known ones, if there are any choices. -/
theorem chosenBranches_proper : ∀ (choices : Option (List (String × Choice RelationArgs)))
    {name : String} {table : Table} {known : Branches}, schema.table? name = some table →
      Dict.Sorted known → branchesProper schema known name →
      Dict.Sorted (chosenBranches schema table choices known) ∧
        branchesProper schema (chosenBranches schema table choices known) name
  | none, _, _, _, _, hsorted, hproper => ⟨hsorted, hproper⟩
  | some choices, _, _, _, htable, hsorted, hproper =>
      addBranches_proper choices htable hsorted hproper

/-- So does each choice by name. -/
theorem addBranches_proper : ∀ (choices : List (String × Choice RelationArgs))
    {name : String} {table : Table} {known : Branches}, schema.table? name = some table →
      Dict.Sorted known → branchesProper schema known name →
      Dict.Sorted (addBranches schema table choices known) ∧
        branchesProper schema (addBranches schema table choices known) name
  | [], name, table, known, htable, hsorted, hproper => ⟨hsorted, hproper⟩
  | (key, choice) :: rest, name, table, known, htable, hsorted, hproper => by
      have hchoice : ∀ target branch, choice.branch? schema target = some branch →
          branch.shape.Proper schema target := by
        intro target branch hbranch
        match choice, hbranch with
        | .flag true, rfl => exact plain_proper target
        | .relation args, rfl => exact RelationArgs.branch_proper args target
      have hrest : ∀ next : Branches, Dict.Sorted next ∧ branchesProper schema next name →
          Dict.Sorted (addBranches schema table rest next) ∧
            branchesProper schema (addBranches schema table rest next) name :=
        fun next hnext => addBranches_proper rest htable hnext.1 hnext.2
      rw [addBranches_cons]
      refine hrest _ ?_
      unfold addChoice
      split
      · exact ⟨hsorted, hproper⟩
      · next hcolumn =>
          split
          · exact ⟨hsorted, hproper⟩
          · next relation hrelation =>
              split
              · exact ⟨hsorted, hproper⟩
              · next branch hbranch =>
                  refine ⟨hsorted.put key branch, branchesProper_put hproper ?_ ?_
                    (hchoice _ _ hbranch)⟩
                  · rw [Schema.hasColumn, htable]
                    simpa using hcolumn
                  · rw [Schema.relation?, htable]
                    exact hrelation

end

/-- The shape that choices and omissions give to a table is proper. -/
theorem Schema.shape_proper (schema : Schema) (table : String) (selected included : Option Choices)
    (omitted : Option Omissions) :
    (schema.shape table selected included omitted).Proper schema table := by
  unfold Schema.shape
  split
  · next known hknown =>
      obtain ⟨hsorted, hproper⟩ := chosenBranches_proper selected hknown List.Pairwise.nil
        (noBranches_proper table)
      obtain ⟨hsortedAll, hproperAll⟩ := chosenBranches_proper included hknown hsorted hproper
      exact ofTable_proper hknown selected omitted hsortedAll hproperAll
  · exact empty_proper table

/-! ### Layouts -/

/-- The columns of the primary key of a table, none if it is not usable. -/
def Schema.usableKey (schema : Schema) (table : String) : List String :=
  match schema.table? table with
  | some known => if known.hasUsableKey then known.key else []
  | none => []

/-- A usable key consists of columns of the table. -/
theorem hasColumn_of_usableKey {table column : String} (h : column ∈ schema.usableKey table) :
    schema.hasColumn table column = true := by
  unfold Schema.usableKey at h
  rw [Schema.hasColumn]
  cases hknown : schema.table? table with
  | none =>
      rw [hknown] at h
      cases h
  | some known =>
      rw [hknown] at h
      dsimp only at h
      split at h
      · next husable => exact List.all_eq_true.mp husable column h
      · cases h

/-- A relation that can be joined is known, relates no many to many, and leads to a known table. -/
theorem joinable?_eq_some {table name : String} {relation : Relation}
    (h : Planner.joinable? schema table name = some relation) :
    schema.relation? table name = some relation ∧ relation.kind ≠ .manyToMany ∧
      ∃ target, schema.table? relation.target = some target := by
  unfold Planner.joinable? at h
  obtain ⟨known, hknown, h⟩ := Option.bind_eq_some_iff.mp h
  split at h
  · cases h
  · next hkind =>
      obtain ⟨target, htarget, h⟩ := Option.bind_eq_some_iff.mp h
      cases h
      exact ⟨hknown, hkind, target, htarget⟩

mutual

/-- The layout is planned for the shape of a table: it shows the fields, carries these, the key,
and the links of what is put off, all of them columns of the table, and its relations are those of
the shape. -/
inductive Shape.Planned (schema : Schema) : Shape → String → Layout → Prop
  | intro {fields excluded : List String} {relations : List (String × BranchOf Shape)}
      {table : String} {layout : Layout} (htable : layout.table = table)
      (hfields : layout.fields = fields) (hkey : layout.key = schema.usableKey table)
      (hcarried : fields ++ layout.key ⊆ layout.columns)
      (hlinked : ∀ entry ∈ layout.deferred, ∀ relation,
        schema.relation? table entry.1 = some relation → relation.fromColumn ∈ layout.columns)
      (hknown : ∀ column ∈ layout.columns, schema.hasColumn table column)
      (hrelations : BranchesPlanned schema relations table layout.relations layout.deferred) :
      Shape.Planned schema ⟨fields, excluded, relations⟩ table layout

/-- Each relation is joined under a layout planned for its shape, or put off because it cannot be
joined. -/
inductive BranchesPlanned (schema : Schema) : List (String × BranchOf Shape) → String →
    List JoinedBranch → List (String × Branch) → Prop
  | nil {table : String} : BranchesPlanned schema [] table [] []
  | joined {name : String} {branch : BranchOf Shape} {rest : List (String × BranchOf Shape)}
      {table : String} {relation : Relation} {layout : Layout} {others : List JoinedBranch}
      {deferred : List (String × Branch)}
      (hjoinable : Planner.joinable? schema table name = some relation)
      (hlayout : Shape.Planned schema branch.shape relation.target layout)
      (hlead : layout.lead ≠ "")
      (hrest : BranchesPlanned schema rest table others deferred) :
      BranchesPlanned schema ((name, branch) :: rest) table
        (⟨name, relation.kind.isToMany, branch, layout⟩ :: others) deferred
  | deferred {name : String} {branch : BranchOf Shape} {rest : List (String × BranchOf Shape)}
      {table : String} {relation : Relation} {others : List JoinedBranch}
      {deferred : List (String × Branch)}
      (hjoinable : Planner.joinable? schema table name = none)
      (hrelation : schema.relation? table name = some relation)
      (hrest : BranchesPlanned schema rest table others deferred) :
      BranchesPlanned schema ((name, branch) :: rest) table others ((name, branch) :: deferred)

end

/-- A planned layout has the lead that it was planned with. -/
theorem lead_plan (shape : Shape) (table qualifier lead : String) (extra : List String)
    (planner : Planner) :
    (shape.plan schema table qualifier lead extra planner).1.lead = lead := by
  obtain ⟨fields, excluded, relations⟩ := shape
  rw [Shape.plan]

/-- What stands before the columns of a joined table is not empty. -/
theorem lead_ne_empty (lead name : String) : lead ++ name ++ "_" ≠ "" := by
  intro hempty
  have hlength := congrArg String.length hempty
  simp at hlength

mutual

/-- Planning a proper shape gives a layout that is planned for it. -/
theorem Shape.plan_planned (hschema : schema.Consistent) : ∀ (shape : Shape) {table : String}
    (qualifier lead : String) (extra : List String) (planner : Planner),
    shape.Proper schema table →
      shape.Planned schema table (shape.plan schema table qualifier lead extra planner).1
  | ⟨fields, excluded, relations⟩, table, qualifier, lead, extra, planner, h => by
      rw [Shape.Proper] at h
      obtain ⟨hlinks, hcolumns, hrelations⟩ :=
        planBranches_planned hschema relations qualifier lead planner h.2.2
      rw [Shape.plan]
      refine Shape.Planned.intro rfl rfl ?_ ?_ ?_ ?_ hrelations
      · rfl
      · intro column hcolumn
        rw [mem_withHidden]
        rcases List.mem_append.mp hcolumn with hfield | hkey
        · exact Or.inl hfield
        · exact Or.inr (List.mem_append_left _ (List.mem_append_left _ hkey))
      · intro entry hentry relation hrelation
        rw [mem_withHidden]
        exact Or.inr (List.mem_append_right _ (hlinks entry hentry relation hrelation))
      · intro column hcolumn
        rcases mem_withHidden.mp hcolumn with hfield | hhidden
        · exact h.1 column hfield
        · rcases List.mem_append.mp hhidden with hsome | hlink
          · rcases List.mem_append.mp hsome with hkey | hextra
            · exact hasColumn_of_usableKey hkey
            · exact (List.mem_filter.mp hextra).2
          · exact hcolumns column hlink

/-- Planning the relations of a table carries along the links of what is put off, and joins or puts
off each relation. -/
theorem planBranches_planned (hschema : schema.Consistent) :
    ∀ (relations : List (String × BranchOf Shape)) {table : String} (qualifier lead : String)
    (planner : Planner), branchesProper schema relations table →
      (∀ entry ∈ (planBranches schema relations table qualifier lead planner).1.deferred,
        ∀ relation, schema.relation? table entry.1 = some relation →
          relation.fromColumn ∈ (planBranches schema relations table qualifier lead planner).1.links) ∧
      (∀ column ∈ (planBranches schema relations table qualifier lead planner).1.links,
        schema.hasColumn table column) ∧
      BranchesPlanned schema relations table
        (planBranches schema relations table qualifier lead planner).1.joined
        (planBranches schema relations table qualifier lead planner).1.deferred
  | [], table, qualifier, lead, planner, h => by
      rw [planBranches]
      refine ⟨?_, ?_, BranchesPlanned.nil⟩
      · intro entry hentry
        cases hentry
      · intro column hcolumn
        cases hcolumn
  | (name, ⟨shape, filter, orderBy, take, skip, distinct, joinKind⟩) :: rest,
      table, qualifier, lead, planner, h => by
      rw [branchesProper] at h
      obtain ⟨⟨-, known, hknown, hshape⟩, hrest⟩ := h
      rw [planBranches]
      rcases planner.add_cases schema table qualifier name joinKind with
        ⟨hnone, hadd⟩ | ⟨relation, hjoinable, hadd⟩
      · obtain ⟨hlinks, hcolumns, hothers⟩ :=
          planBranches_planned hschema rest qualifier lead planner hrest
        simp only [hadd, hknown]
        refine ⟨?_, ?_, BranchesPlanned.deferred hnone hknown hothers⟩
        · intro entry hentry relation hrelation
          rcases List.mem_cons.mp hentry with rfl | hmem
          · rw [hknown] at hrelation
            cases hrelation
            exact List.mem_cons_self
          · exact List.mem_cons_of_mem _ (hlinks entry hmem relation hrelation)
        · intro column hcolumn
          rcases List.mem_cons.mp hcolumn with rfl | hmem
          · exact hschema.fromColumn_isColumn hknown
          · exact hcolumns column hmem
      · have hrelation := (joinable?_eq_some hjoinable).1
        rw [hknown] at hrelation
        cases hrelation
        simp only [hadd]
        obtain ⟨hlinks, hcolumns, hothers⟩ := planBranches_planned hschema rest qualifier lead
          (shape.plan schema known.target (name ++ "_" ++ toString (planner.count + 1))
            (lead ++ name ++ "_") (distinct.getD []) ⟨planner.count + 1, planner.joins ++
              [⟨known, name, qualifier, name ++ "_" ++ toString (planner.count + 1), joinKind⟩]⟩).2
          hrest
        refine ⟨hlinks, hcolumns, BranchesPlanned.joined hjoinable
          (Shape.plan_planned hschema shape _ _ _ _ hshape) ?_ hothers⟩
        rw [lead_plan]
        exact lead_ne_empty lead name

end

/-- Naming outputs keeps the lead of a layout. -/
theorem Layout.lead_nameOutputs (layout : Layout) (taken : List String) :
    (layout.nameOutputs taken).1.lead = layout.lead := by
  obtain ⟨_, _, _, _, _, _, _, _, _, _⟩ := layout
  rw [Layout.nameOutputs]

mutual

/-- Naming outputs keeps a layout planned for its shape. -/
theorem Shape.Planned.nameOutputs : ∀ {shape : Shape} {table : String} {layout : Layout},
    shape.Planned schema table layout → ∀ taken,
      shape.Planned schema table (layout.nameOutputs taken).1
  | _, _, ⟨_, _, _, _, _, _, _, _, _, _⟩,
      .intro htable hfields hkey hcarried hlinked hknown hrelations, taken => by
      rw [Layout.nameOutputs]
      exact Shape.Planned.intro htable hfields hkey hcarried hlinked hknown
        (hrelations.nameOutputs _)

/-- Naming outputs keeps the joined relations as they were planned. -/
theorem BranchesPlanned.nameOutputs : ∀ {relations : List (String × BranchOf Shape)}
    {table : String} {joined : List JoinedBranch} {deferred : List (String × Branch)},
    BranchesPlanned schema relations table joined deferred → ∀ taken,
      BranchesPlanned schema relations table (nameBranchOutputs joined taken).1 deferred
  | _, _, _, _, .nil, taken => by
      rw [nameBranchOutputs]
      exact BranchesPlanned.nil
  | _, _, _, _, .joined hjoinable hlayout hlead hrest, taken => by
      rw [nameBranchOutputs]
      refine BranchesPlanned.joined hjoinable (hlayout.nameOutputs _) ?_ (hrest.nameOutputs _)
      rw [Layout.lead_nameOutputs]
      exact hlead
  | _, _, _, _, .deferred hjoinable hrelation hrest, taken =>
      BranchesPlanned.deferred hjoinable hrelation (hrest.nameOutputs _)

end

/-- The layout of a proper shape is planned for it. -/
theorem Shape.layout_planned (hschema : schema.Consistent) {shape : Shape} {table : String}
    (h : shape.Proper schema table) (extra : List String) :
    shape.Planned schema table (shape.layout schema table extra).1 :=
  (Shape.plan_planned hschema shape table "" extra {} h).nameOutputs []

/-- A layout is planned for the table of its shape. -/
theorem Shape.Planned.table_eq {shape : Shape} {table : String} {layout : Layout}
    (h : shape.Planned schema table layout) : layout.table = table := by
  cases h with
  | intro htable => exact htable

/-- Its key is the usable key of the table. -/
theorem Shape.Planned.key_eq {shape : Shape} {table : String} {layout : Layout}
    (h : shape.Planned schema table layout) : layout.key = schema.usableKey table := by
  cases h with
  | intro htable hfields hkey => exact hkey

/-- It shows the fields of its shape. -/
theorem Shape.Planned.fields_eq {shape : Shape} {table : String} {layout : Layout}
    (h : shape.Planned schema table layout) : layout.fields = shape.fields := by
  cases h with
  | intro htable hfields => exact hfields

/-- Its relations are those of the shape, planned. -/
theorem Shape.Planned.branches {shape : Shape} {table : String} {layout : Layout}
    (h : shape.Planned schema table layout) :
    BranchesPlanned schema shape.relations table layout.relations layout.deferred := by
  cases h with
  | intro _ _ _ _ _ _ hrelations => exact hrelations

/-- A planned layout carries the links of what is put off, and no column that is not one of the
table. -/
theorem Shape.Planned.links {shape : Shape} {table : String} {layout : Layout}
    (h : shape.Planned schema table layout) {entry : String × Branch}
    (hentry : entry ∈ layout.deferred) {relation : Relation}
    (hrelation : schema.relation? table entry.1 = some relation) :
    relation.fromColumn ∈ layout.columns := by
  cases h with
  | intro _ _ _ _ hlinked _ _ => exact hlinked entry hentry relation hrelation

/-- A planned layout carries its fields and its key. -/
theorem Shape.Planned.fields_subset {shape : Shape} {table : String} {layout : Layout}
    (h : shape.Planned schema table layout) : layout.fields ⊆ layout.columns := by
  cases h with
  | intro _ hfields _ hcarried _ _ _ =>
      exact fun field hfield => hcarried (List.mem_append_left _ (hfields ▸ hfield))

/-- Its key is among the columns that are carried along. -/
theorem Shape.Planned.key_subset {shape : Shape} {table : String} {layout : Layout}
    (h : shape.Planned schema table layout) : layout.key ⊆ layout.columns := by
  cases h with
  | intro _ _ _ hcarried _ _ _ =>
      exact fun column hcolumn => hcarried (List.mem_append_right _ hcolumn)

/-- The relations of a shape are those joined and those put off. -/
theorem BranchesPlanned.names_perm {relations : List (String × BranchOf Shape)} {table : String}
    {joined : List JoinedBranch} {deferred : List (String × Branch)}
    (h : BranchesPlanned schema relations table joined deferred) :
    (joined.map (·.name) ++ deferred.map (·.1)).Perm (relations.map (·.1)) := by
  induction relations generalizing joined deferred with
  | nil =>
      cases h
      exact List.Perm.refl _
  | cons entry rest ih =>
      cases h with
      | joined hjoinable hlayout hlead hrest => exact (ih hrest).cons _
      | deferred hjoinable hrelation hrest =>
          exact List.perm_middle.trans ((ih hrest).cons _)

/-- What is put off is one of the relations. -/
theorem BranchesPlanned.deferred_subset {relations : List (String × BranchOf Shape)}
    {table : String} {joined : List JoinedBranch} {deferred : List (String × Branch)}
    (h : BranchesPlanned schema relations table joined deferred) : deferred ⊆ relations := by
  induction relations generalizing joined deferred with
  | nil =>
      cases h
      exact List.nil_subset []
  | cons entry rest ih =>
      cases h with
      | joined hjoinable hlayout hlead hrest =>
          exact List.Subset.trans (ih hrest) (List.subset_cons_self _ _)
      | deferred hjoinable hrelation hrest => exact List.cons_subset_cons _ (ih hrest)

/-- What is joined is one of the relations, under a layout planned for its shape. -/
theorem BranchesPlanned.mem_joined {relations : List (String × BranchOf Shape)} {table : String}
    {joined : List JoinedBranch} {deferred : List (String × Branch)}
    (h : BranchesPlanned schema relations table joined deferred) {branch : JoinedBranch}
    (hbranch : branch ∈ joined) :
    (branch.name, branch.branch) ∈ relations ∧ branch.layout.lead ≠ "" ∧
      ∃ relation, schema.relation? table branch.name = some relation ∧
        branch.isToMany = relation.kind.isToMany ∧
        branch.branch.shape.Planned schema relation.target branch.layout := by
  induction relations generalizing joined deferred with
  | nil =>
      cases h
      cases hbranch
  | cons entry rest ih =>
      cases h with
      | joined hjoinable hlayout hlead hrest =>
          rcases List.mem_cons.mp hbranch with rfl | hbranch
          · exact ⟨List.mem_cons_self, hlead, _, (joinable?_eq_some hjoinable).1, rfl, hlayout⟩
          · exact (ih hrest hbranch).imp_left (List.mem_cons_of_mem _)
      | deferred hjoinable hrelation hrest =>
          exact (ih hrest hbranch).imp_left (List.mem_cons_of_mem _)

/-- What is put off is proper, as all relations are. -/
theorem BranchesPlanned.deferred_proper {relations : List (String × BranchOf Shape)}
    {table : String} {joined : List JoinedBranch} {deferred : List (String × Branch)}
    (h : BranchesPlanned schema relations table joined deferred)
    (hproper : branchesProper schema relations table) :
    branchesProper schema deferred table :=
  branchesProper_iff.mpr fun entry hentry =>
    branchesProper_iff.mp hproper entry (h.deferred_subset hentry)

/-- What it joins are relations of the shape. -/
theorem Shape.Planned.names_subset {shape : Shape} {table : String} {layout : Layout}
    (h : shape.Planned schema table layout) :
    layout.relations.map (·.name) ⊆ shape.relations.map (·.1) := by
  cases h with
  | intro htable hfields hkey hcarried hlinked hknown hrelations =>
      exact fun name hname => hrelations.names_perm.subset (List.mem_append_left _ hname)

/-- A relation is joined once or put off once. -/
theorem BranchesPlanned.nodup {relations : List (String × BranchOf Shape)} {table : String}
    {joined : List JoinedBranch} {deferred : List (String × Branch)}
    (h : BranchesPlanned schema relations table joined deferred)
    (hnodup : (relations.map (·.1)).Nodup) :
    (joined.map (·.name)).Nodup ∧ (deferred.map (·.1)).Nodup ∧
      ∀ name ∈ joined.map (·.name), name ∉ deferred.map (·.1) := by
  obtain ⟨hjoined, hdeferred, hdisjoint⟩ :=
    List.nodup_append.mp ((List.Perm.nodup_iff h.names_perm).mpr hnodup)
  exact ⟨hjoined, hdeferred, fun name hname hmem => hdisjoint name hname name hmem rfl⟩

/-! ### Named outputs -/

mutual

/-- Every column has an output name, and the identity is the outputs of the key, or all outputs if
there is no usable key. -/
def Layout.Named : Layout → Prop
  | ⟨_, _, _, _, columns, outputs, key, identity, relations, _⟩ =>
    outputs.length = columns.length ∧
      identity = (if key.isEmpty then outputs else outputsOf columns outputs key) ∧
      branchesNamed relations

/-- So it is in all layouts beneath. -/
def branchesNamed : List (JoinedBranchOf Layout) → Prop
  | [] => True
  | ⟨_, _, _, layout⟩ :: rest => layout.Named ∧ branchesNamed rest

end

/-- What naming settles at one level. -/
theorem Layout.Named.level {layout : Layout} (h : layout.Named) :
    layout.outputs.length = layout.columns.length ∧
      layout.identity = if layout.key.isEmpty then layout.outputs
        else outputsOf layout.columns layout.outputs layout.key := by
  obtain ⟨_, _, _, _, _, _, _, _, _, _⟩ := layout
  rw [Layout.Named] at h
  exact ⟨h.1, h.2.1⟩

/-- The identity is made of outputs. -/
theorem identity_subset (columns outputs key : List String) :
    (if key.isEmpty then outputs else outputsOf columns outputs key) ⊆ outputs := by
  split
  · exact List.Subset.refl outputs
  · intro output houtput
    obtain ⟨column, -, hfound⟩ := List.mem_filterMap.mp houtput
    exact (List.of_mem_zip (Dict.mem_of_lookup hfound)).2

/-- There are as many fresh names as are wanted. -/
theorem freshNames_length (taken wanted : List String) :
    (freshNames taken wanted).1.length = wanted.length := by
  induction wanted generalizing taken with
  | nil => rfl
  | cons name rest ih =>
      rw [freshNames]
      exact congrArg (· + 1) (ih _)

mutual

/-- Naming gives each column of a layout an output. -/
theorem Layout.nameOutputs_named : ∀ (layout : Layout) (taken : List String),
    (layout.nameOutputs taken).1.Named
  | ⟨_, _, lead, _, columns, _, _, _, relations, _⟩, taken => by
      rw [Layout.nameOutputs, Layout.Named]
      refine ⟨?_, rfl, nameBranchOutputs_named relations _⟩
      rw [freshNames_length, List.length_map]

/-- So it does beneath the joined relations. -/
theorem nameBranchOutputs_named : ∀ (branches : List (JoinedBranchOf Layout))
    (taken : List String), branchesNamed (nameBranchOutputs branches taken).1
  | [], _ => by
      rw [nameBranchOutputs, branchesNamed]
      trivial
  | ⟨_, _, _, layout⟩ :: rest, taken => by
      rw [nameBranchOutputs, branchesNamed]
      exact ⟨layout.nameOutputs_named _, nameBranchOutputs_named rest _⟩

end

end NestedQuery
