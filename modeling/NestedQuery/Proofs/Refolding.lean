import NestedQuery.Proofs.Folding
import NestedQuery.Proofs.Nesting

/-!
# Folding undoes flattening

A forest is shaped by a layout when each of its records has just the columns
and the joined relations that the layout has for its table, and so on beneath.
Under every owner the records of a relation are told apart by their identities.
Then flattening loses nothing, as long as no relation is paged: side by side,
to-many relations multiply rows, nested ones repeat their owners, and empty ones
leave nulls, and folding the rows gives the forest back, in order.  This holds
of every layout that planning makes, since there the output names are apart,
identities are made of outputs, and only the first table has no lead.
-/

namespace NestedQuery

variable {schema : Schema}

/-! ### Forests -/

mutual

/-- Whether no joined relation, at any depth, makes its records distinct or cuts them to a page. -/
def Layout.isUnpaged : Layout → Bool
  | ⟨_, _, _, _, _, _, _, _, relations, _⟩ => branchesUnpaged relations

def branchesUnpaged : List (JoinedBranchOf Layout) → Bool
  | [] => true
  | ⟨_, _, branch, layout⟩ :: rest =>
    branch.distinct.isNone && branch.take.isNone && branch.skip.isNone && layout.isUnpaged &&
      branchesUnpaged rest

end

mutual

/-- The record is shaped by the layout: it has a scalar for each column and an entry for each joined
relation, a list or at most one record, and no other entries; the records of a relation are told
apart and are shaped in turn. -/
def Layout.Shapes : Layout → Record → Prop
  | ⟨_, _, _, _, columns, _, _, _, relations, _⟩, record =>
    record.Carries columns ∧
      (∀ name ∈ Dict.names record, name ∈ columns ∨ name ∈ relations.map (·.name)) ∧
      branchesShape relations record

def branchesShape : List (JoinedBranchOf Layout) → Record → Prop
  | [], _ => True
  | ⟨name, isToMany, _, layout⟩ :: rest, record =>
    (∃ node, record.lookup name = some node ∧ node.OfKind isToMany ∧
      layout.ToldApart node.records ∧ ∀ child ∈ node.records, layout.Shapes child) ∧
    branchesShape rest record

end

instance (layout : Layout) (records : List Record) : Decidable (layout.ToldApart records) :=
  decidable_of_iff ((records.map fun record => Value.jointKey (layout.identityOf record)).Nodup ∧
      ∀ record ∈ records, layout.isBase ∨ ∃ value ∈ layout.identityOf record, value ≠ .null)
    ⟨fun h => ⟨h.1, h.2⟩, fun h => ⟨h.keys, h.matched⟩⟩

mutual

/-- Whether a record is shaped by a layout can be decided. -/
def Layout.decideShapes : ∀ (layout : Layout) (record : Record), Decidable (layout.Shapes record)
  | ⟨_, _, _, _, columns, _, _, _, relations, _⟩, record =>
    have := decideBranchesShape relations record
    decidable_of_iff (record.Carries columns ∧
        (∀ name ∈ Dict.names record, name ∈ columns ∨ name ∈ relations.map (·.name)) ∧
        branchesShape relations record) (by rw [Layout.Shapes])

def decideBranchesShape : ∀ (relations : List (JoinedBranchOf Layout)) (record : Record),
    Decidable (branchesShape relations record)
  | [], _ => isTrue (by rw [branchesShape]; trivial)
  | ⟨name, isToMany, branch, layout⟩ :: rest, record =>
    have := layout.decideShapes
    have := decideBranchesShape rest record
    match hnode : record.lookup name with
    | none => isFalse (by rw [branchesShape]; simp [hnode])
    | some node =>
      decidable_of_iff ((node.OfKind isToMany ∧ layout.ToldApart node.records ∧
          ∀ child ∈ node.records, layout.Shapes child) ∧ branchesShape rest record)
        (by rw [branchesShape]; simp [hnode])

end

instance (layout : Layout) (record : Record) : Decidable (layout.Shapes record) :=
  layout.decideShapes record

/-- A forest: records shaped by the layout of their table and told apart. -/
structure Layout.Forest (layout : Layout) (records : List Record) : Prop where
  apart : layout.ToldApart records
  shaped : ∀ record ∈ records, layout.Shapes record

mutual

/-- Where nothing is paged, records that a layout shapes are such as folding makes. -/
theorem Layout.Shapes.folded : ∀ {layout : Layout}, layout.isUnpaged → ∀ {record : Record},
    layout.Shapes record → layout.Folded record
  | ⟨_, _, _, _, _, _, _, _, relations, _⟩, hunpaged, record, h => by
      rw [Layout.isUnpaged] at hunpaged
      rw [Layout.Shapes] at h
      rw [Layout.Folded]
      exact ⟨h.1, h.2.1, branchesShape_folded hunpaged h.2.2⟩

/-- So are entries of the shape of joined relations without pages. -/
theorem branchesShape_folded : ∀ {relations : List (JoinedBranchOf Layout)},
    branchesUnpaged relations → ∀ {record : Record}, branchesShape relations record →
    branchesFolded relations record
  | [], _, _, _ => by
      rw [branchesFolded]
      trivial
  | ⟨name, isToMany, branch, layout⟩ :: rest, hunpaged, record, h => by
      simp only [branchesUnpaged, Bool.and_eq_true, Option.isNone_iff_eq_none] at hunpaged
      rw [branchesShape] at h
      obtain ⟨⟨⟨⟨hdistinct, htake⟩, hskip⟩, hbeneath⟩, hothers⟩ := hunpaged
      obtain ⟨⟨node, hnode, hkind, hapart, hchildren⟩, hrest⟩ := h
      rw [branchesFolded]
      exact ⟨⟨node, hnode, hkind, BranchOf.page_of_none hdistinct htake hskip _, hapart,
        fun child hchild => Layout.Shapes.folded hbeneath (hchildren child hchild)⟩,
        branchesShape_folded hothers hrest⟩

end

/-! ### Planned layouts -/

mutual

/-- The relations of a record stand in a dictionary: none is asked for twice, at any depth. -/
def Shape.NamesOnce : Shape → Prop
  | ⟨_, _, relations⟩ => (relations.map (·.1)).Nodup ∧ branchesNameOnce relations

def branchesNameOnce : List (String × BranchOf Shape) → Prop
  | [] => True
  | (_, ⟨shape, _, _, _, _, _, _⟩) :: rest => shape.NamesOnce ∧ branchesNameOnce rest

end

mutual

/-- A proper shape asks for no relation twice. -/
theorem Shape.Proper.namesOnce : ∀ {shape : Shape} {table : String},
    shape.Proper schema table → shape.NamesOnce
  | ⟨_, _, relations⟩, table, h => by
      rw [Shape.Proper] at h
      rw [Shape.NamesOnce]
      exact ⟨h.2.1, branchesProper_nameOnce h.2.2⟩

/-- Proper relations are named once at every level. -/
theorem branchesProper_nameOnce : ∀ {relations : List (String × BranchOf Shape)} {table : String},
    branchesProper schema relations table → branchesNameOnce relations
  | [], _, _ => by
      rw [branchesNameOnce]
      trivial
  | (_, ⟨_, _, _, _, _, _, _⟩) :: _, _, h => by
      rw [branchesProper] at h
      obtain ⟨⟨-, _, -, hshape⟩, hrest⟩ := h
      rw [branchesNameOnce]
      exact ⟨hshape.namesOnce, branchesProper_nameOnce hrest⟩

end

/-- Naming outputs keeps the names of the joined relations. -/
theorem names_nameBranchOutputs (branches : List (JoinedBranchOf Layout)) (taken : List String) :
    (nameBranchOutputs branches taken).1.map (·.name) = branches.map (·.name) := by
  induction branches generalizing taken with
  | nil => rw [nameBranchOutputs]
  | cons joined rest ih =>
      obtain ⟨name, isToMany, branch, layout⟩ := joined
      rw [nameBranchOutputs, List.map_cons, List.map_cons, ih]

mutual

/-- The named layout of a plan is sound, under whatever names. -/
theorem Shape.plan_sound : ∀ {shape : Shape}, shape.NamesOnce →
    ∀ (table qualifier lead : String) (extra : List String) (planner : Planner)
      (taken : List String),
      ((shape.plan schema table qualifier lead extra planner).1.nameOutputs taken).1.Sound
  | ⟨fields, excluded, relations⟩, h, table, qualifier, lead, extra, planner, taken => by
      rw [Shape.NamesOnce] at h
      rw [Shape.plan, Layout.nameOutputs]
      dsimp only
      rw [Layout.Sound, names_nameBranchOutputs]
      obtain ⟨hnames, hbranches⟩ := planBranches_sound h.2 table qualifier lead planner
      refine ⟨?_, identity_subset _ _ _, hnames.nodup h.1, hbranches _⟩
      rw [freshNames_length, List.length_map]

/-- Planning keeps some of the relations, and what it joins is sound once its outputs are named. -/
theorem planBranches_sound : ∀ {relations : List (String × BranchOf Shape)},
    branchesNameOnce relations → ∀ (table qualifier lead : String) (planner : Planner),
      let planned := (planBranches schema relations table qualifier lead planner).1
      (planned.joined.map (·.name)).Sublist (relations.map (·.1)) ∧
        ∀ taken, branchesSound (nameBranchOutputs planned.joined taken).1
  | [], _, table, qualifier, lead, planner => by
      rw [planBranches]
      refine ⟨List.nil_sublist _, fun taken => ?_⟩
      rw [nameBranchOutputs, branchesSound]
      trivial
  | (name, ⟨shape, filter, orderBy, take, skip, distinct, joinKind⟩) :: rest, h,
      table, qualifier, lead, planner => by
      rw [branchesNameOnce] at h
      obtain ⟨hshape, hrest⟩ := h
      rw [planBranches]
      rcases planner.add_cases schema table qualifier name joinKind with
        ⟨-, hadd⟩ | ⟨relation, -, hadd⟩
      · obtain ⟨hnames, hbranches⟩ := planBranches_sound hrest table qualifier lead planner
        simp only [hadd]
        split
        · exact ⟨hnames.cons _, hbranches⟩
        · exact ⟨hnames.cons _, hbranches⟩
      · simp only [hadd]
        obtain ⟨hnames, hbranches⟩ := planBranches_sound hrest table qualifier lead
          (shape.plan schema relation.target (name ++ "_" ++ toString (planner.count + 1))
            (lead ++ name ++ "_") (distinct.getD []) ⟨planner.count + 1, planner.joins ++
              [⟨relation, name, qualifier, name ++ "_" ++ toString (planner.count + 1),
                joinKind⟩]⟩).2
        refine ⟨hnames.cons_cons _, fun taken => ?_⟩
        rw [nameBranchOutputs, branchesSound]
        refine ⟨⟨?_, Shape.plan_sound hshape _ _ _ _ _ _⟩, hbranches _⟩
        rw [Layout.isBase, Layout.lead_nameOutputs, lead_plan]
        simp

end

/-- **Folding undoes flattening.**  Of any planned layout without pages, a forest is what folding
makes of the rows of its records. -/
theorem assemble_undoes_flatten (schema : Schema) (planner : Planner) {shape : Shape}
    (hshape : shape.NamesOnce) (table : String) (extra : List String) :
    let layout := ((shape.plan schema table table "" extra planner).1.nameOutputs []).1
    layout.isUnpaged → ∀ records, layout.Forest records →
      layout.assemble ((records.flatMap layout.flatten).map Dict.ofPairs) = records := by
  intro layout hunpaged records hforest
  exact Layout.assemble_flatten (Shape.plan_sound hshape _ _ _ _ _ _)
    (Layout.nameOutputs_apart _ []).nodup hforest.apart
    fun record hrecord => (hforest.shaped record hrecord).folded hunpaged

/-- Courses with pupils and sessions, and sessions with notes, which have no key. -/
def courseTables : List TableDecl :=
  let key : Column := { name := "id", type := .integer, primary := true }
  [{ name := "Course", columns := [key] },
   { name := "Note"
     columns := [{ name := "sessionId", type := .integer, references := some ⟨"Session", "id"⟩ },
       { name := "text" }] },
   { name := "Pupil"
     columns := [key,
       { name := "courseId", type := .integer, references := some ⟨"Course", "id"⟩ }] },
   { name := "Session"
     columns := [key,
       { name := "courseId", type := .integer, references := some ⟨"Course", "id"⟩ }] }]

/-- All that belongs to a course, and the course of each pupil once more. -/
def wholeCourse : Shape :=
  (Schema.ofDecls courseTables).shape "Course" none
    (some [("pupils", .relation { included := some [("course", .flag true)] }),
      ("sessions", .relation { included := some [("notes", .flag true)] })]) none

/-- A course with two pupils and two sessions, of which one has two notes, and an empty course. -/
def courseForest : List Record :=
  let number : Int → Node := fun n => .scalar (.integer n)
  let note : String → Record := fun text =>
    [("sessionId", number 1), ("text", .scalar (.text text))]
  let pupil : Int → Record := fun id =>
    [("course", .object [("id", number 1)]), ("courseId", number 1), ("id", number id)]
  let session : Int → List Record → Record := fun id notes =>
    [("courseId", number 1), ("id", number id), ("notes", .list notes)]
  [[("id", number 1), ("pupils", .list [pupil 1, pupil 2]),
      ("sessions", .list [session 1 [note "a", note "b"], session 2 []])],
    [("id", number 2), ("pupils", .list []), ("sessions", .list [])]]

/-- Six rows stand for the first course and one for the other, and fold into them again. -/
theorem assemble_undoes_flatten_courses :
    let layout := (wholeCourse.layout (Schema.ofDecls courseTables) "Course" []).1
    wholeCourse.NamesOnce ∧ layout.isUnpaged ∧ layout.Forest courseForest ∧
      (courseForest.map fun course => (layout.flatten course).length) = [6, 1] ∧
      layout.assemble ((courseForest.flatMap layout.flatten).map Dict.ofPairs) = courseForest := by
  intro layout
  have hnames : wholeCourse.NamesOnce := (Schema.shape_proper _ _ _ _ _).namesOnce
  have hunpaged : layout.isUnpaged := by decide +kernel
  have hforest : layout.Forest courseForest := ⟨by decide +kernel, by decide +kernel⟩
  exact ⟨hnames, hunpaged, hforest, by decide +kernel,
    assemble_undoes_flatten (Schema.ofDecls courseTables) {} hnames "Course" [] hunpaged _ hforest⟩

end NestedQuery
