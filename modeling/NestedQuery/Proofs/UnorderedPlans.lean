import NestedQuery.Proofs.RevisedPlans

/-!
# Plans without the orderings of relations

The ordering of a relation does not take part in planning.  Dropping the
orderings that a request gives to its relations, at every depth, drops them from
its shape and from its layout and changes nothing else there: the same columns
are carried under the same names, the same relations are joined or put off, and
the joined relations bring the same predicates along.  Only their sort keys go.
-/

namespace NestedQuery

variable {schema : Schema}

/-! ### Dropping orderings -/

mutual

/-- The arguments without an ordering of the relation or of the relations beneath it. -/
def RelationArgs.unordered : RelationArgs → RelationArgs
  | ⟨selected, included, omitted, filter, _, take, skip, distinct, joinKind⟩ =>
    ⟨choicesUnordered selected, choicesUnordered included, omitted, filter, none, take, skip,
      distinct, joinKind⟩

def choicesUnordered :
    Option (List (String × Choice RelationArgs)) → Option (List (String × Choice RelationArgs))
  | none => none
  | some choices => some (entriesUnordered choices)

def entriesUnordered :
    List (String × Choice RelationArgs) → List (String × Choice RelationArgs)
  | [] => []
  | (name, .flag chosen) :: rest => (name, .flag chosen) :: entriesUnordered rest
  | (name, .relation args) :: rest => (name, .relation args.unordered) :: entriesUnordered rest

end

/-- The request without orderings of its relations. -/
def FindArgs.unordered (args : FindArgs) : FindArgs :=
  { args with
    selected := choicesUnordered args.selected
    included := choicesUnordered args.included }

mutual

/-- The shape without orderings of its relations. -/
def Shape.unordered : Shape → Shape
  | ⟨fields, excluded, relations⟩ => ⟨fields, excluded, branchesUnordered relations⟩

def branchesUnordered : List (String × BranchOf Shape) → List (String × BranchOf Shape)
  | [] => []
  | (name, ⟨shape, filter, _, take, skip, distinct, joinKind⟩) :: rest =>
    (name, ⟨shape.unordered, filter, none, take, skip, distinct, joinKind⟩) ::
      branchesUnordered rest

end

/-- The branch without an ordering of its relation or of the relations beneath it. -/
def BranchOf.unordered (branch : Branch) : Branch :=
  { branch with shape := branch.shape.unordered, orderBy := none }

mutual

/-- The layout without orderings of its relations. -/
def Layout.unordered : Layout → Layout
  | ⟨table, qualifier, lead, fields, columns, outputs, key, identity, relations, deferred⟩ =>
    ⟨table, qualifier, lead, fields, columns, outputs, key, identity, joinedUnordered relations,
      branchesUnordered deferred⟩

def joinedUnordered : List (JoinedBranchOf Layout) → List (JoinedBranchOf Layout)
  | [] => []
  | ⟨name, isToMany, branch, layout⟩ :: rest =>
    ⟨name, isToMany, branch.unordered, layout.unordered⟩ :: joinedUnordered rest

end

/-! ### Dropping orderings as a revision -/

/-- The revision that drops orderings. -/
def Revision.unordered (schema : Schema) : Revision schema where
  orderBy _ := none

mutual

/-- Leaving out the orderings beneath arguments is a revision of them. -/
theorem RelationArgs.unordered_eq : ∀ (args : RelationArgs) (target : String),
    args.unordered = args.revised (Revision.unordered schema) target
  | ⟨selected, included, _, _, _, _, _, _, _⟩, target => by
      rw [RelationArgs.unordered, RelationArgs.revised, choicesUnordered_eq selected target,
        choicesUnordered_eq included target]
      rfl

/-- So it is of choices that may be absent. -/
theorem choicesUnordered_eq : ∀ (choices : Option (List (String × Choice RelationArgs)))
    (table : String),
    choicesUnordered choices = choicesRevised (Revision.unordered schema) choices table
  | none, table => by rw [choicesUnordered, choicesRevised]
  | some choices, table => by
      rw [choicesUnordered, choicesRevised, entriesUnordered_eq choices table]

/-- So it is of the choices by name. -/
theorem entriesUnordered_eq : ∀ (choices : List (String × Choice RelationArgs)) (table : String),
    entriesUnordered choices = entriesRevised (Revision.unordered schema) choices table
  | [], table => by rw [entriesUnordered, entriesRevised]
  | (name, .flag chosen) :: rest, table => by
      rw [entriesUnordered, entriesRevised, entriesUnordered_eq rest table]
  | (name, .relation args) :: rest, table => by
      rw [entriesUnordered, entriesRevised, entriesUnordered_eq rest table, args.unordered_eq]

end

mutual

/-- Leaving out the orderings beneath a shape is the same revision. -/
theorem Shape.unordered_eq : ∀ (shape : Shape) (table : String),
    shape.unordered = shape.revised (Revision.unordered schema) table
  | ⟨_, _, relations⟩, table => by
      rw [Shape.unordered, Shape.revised, branchesUnordered_eq relations table]

/-- So it is of its relations. -/
theorem branchesUnordered_eq : ∀ (branches : List (String × BranchOf Shape)) (table : String),
    branchesUnordered branches = branchesRevised (Revision.unordered schema) branches table
  | [], table => by rw [branchesUnordered, branchesRevised]
  | (name, ⟨shape, _, _, _, _, _, _⟩) :: rest, table => by
      rw [branchesUnordered, branchesRevised, branchesUnordered_eq rest table,
        shape.unordered_eq (schema.targetOf table name)]
      rfl

end

mutual

/-- Leaving out the orderings of a layout is the same revision. -/
theorem Layout.unordered_eq : ∀ (layout : Layout),
    layout.unordered = layout.revised (Revision.unordered schema)
  | ⟨table, _, _, _, _, _, _, _, relations, deferred⟩ => by
      rw [Layout.unordered, Layout.revised, joinedUnordered_eq relations table,
        branchesUnordered_eq deferred table]

/-- So it is of its joined relations. -/
theorem joinedUnordered_eq : ∀ (relations : List (JoinedBranchOf Layout)) (table : String),
    joinedUnordered relations = joinedRevised (Revision.unordered schema) relations table
  | [], table => by rw [joinedUnordered, joinedRevised]
  | ⟨name, _, branch, layout⟩ :: rest, table => by
      rw [joinedUnordered, joinedRevised, joinedUnordered_eq rest table, layout.unordered_eq,
        BranchOf.unordered, branch.shape.unordered_eq (schema.targetOf table name)]
      rfl

end

/-! ### Shapes and layouts -/

/-- A request without orderings has its shape without orderings. -/
theorem shape_unordered (table : String) (args : FindArgs) :
    schema.shape table args.unordered.selected args.unordered.included args.unordered.omitted =
      (schema.shape table args.selected args.included args.omitted).unordered := by
  have hargs : args.unordered = args.revised (Revision.unordered schema) table := by
    unfold FindArgs.unordered FindArgs.revised
    rw [choicesUnordered_eq args.selected table, choicesUnordered_eq args.included table]
  rw [hargs, shape_revised, Shape.unordered_eq _ table]

/-- The fields of a shape have no ordering. -/
theorem Shape.fields_unordered (shape : Shape) : shape.unordered.fields = shape.fields := by
  cases shape
  rw [Shape.unordered]

/-- The relations of a shape keep their names. -/
theorem Shape.names_unordered (shape : Shape) :
    shape.unordered.relations.map (·.1) = shape.relations.map (·.1) := by
  rw [@Shape.unordered_eq {} shape "", Shape.relations_revised, branchesRevised_names]

/-- The layout of a shape without orderings is its layout without orderings, with the same joins. -/
theorem Shape.layout_unordered (shape : Shape) (table : String) (extra : List String) :
    shape.unordered.layout schema table extra =
      ((shape.layout schema table extra).1.unordered, (shape.layout schema table extra).2) := by
  rw [shape.unordered_eq table, Shape.layout_revised, Layout.unordered_eq]

/-! ### What the statement needs -/

/-- A layout joins the same tables without its orderings. -/
theorem Layout.joinedTables_unordered (layout : Layout) :
    layout.unordered.joinedTables = layout.joinedTables := by
  rw [@Layout.unordered_eq {} layout, layout.joinedTables_revised]

/-- It repeats rows or not, whatever its orderings. -/
theorem Layout.fansOut_unordered (layout : Layout) :
    layout.unordered.fansOut = layout.fansOut := by
  rw [@Layout.unordered_eq {} layout, layout.fansOut_revised]

/-- Its outputs are the same, too. -/
theorem Layout.projection_unordered (layout : Layout) :
    layout.unordered.projection = layout.projection := by
  rw [@Layout.unordered_eq {} layout, layout.projection_revised]

mutual

/-- The joined relations bring the same predicates along, and no sort keys. -/
theorem Layout.clauses_unordered : ∀ (layout : Layout) (n : Nat),
    layout.unordered.clauses schema n =
      (⟨(layout.clauses schema n).1.predicates, []⟩, (layout.clauses schema n).2)
  | ⟨_, _, _, _, _, _, _, _, relations, _⟩, n => by
      rw [Layout.unordered, Layout.clauses, Layout.clauses, branchClauses_unordered relations]

/-- The relations bring along the same predicates and no sort keys, and the counter goes on
alike. -/
theorem branchClauses_unordered : ∀ (relations : List (JoinedBranchOf Layout)) (n : Nat),
    branchClauses schema (joinedUnordered relations) n =
      (⟨(branchClauses schema relations n).1.predicates, []⟩, (branchClauses schema relations n).2)
  | [], n => by
      rw [joinedUnordered, branchClauses]
  | ⟨_, _, branch, layout⟩ :: rest, n => by
      have hfields : layout.unordered.table = layout.table ∧
          layout.unordered.qualifier = layout.qualifier := by
        obtain ⟨_, _, _, _, _, _, _, _, _, _⟩ := layout
        rw [Layout.unordered]
        exact ⟨rfl, rfl⟩
      rw [joinedUnordered, branchClauses, branchClauses, hfields.1, hfields.2]
      simp only [layout.joinedTables_unordered, layout.clauses_unordered,
        branchClauses_unordered rest, BranchOf.unordered, Schema.sortKeys, BranchClauses.append,
        List.append_nil]

end

end NestedQuery
