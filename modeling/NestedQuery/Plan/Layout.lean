import NestedQuery.Plan.Predicate
import NestedQuery.Plan.Shape
import NestedQuery.Plan.SortKeys
import NestedQuery.Record

/-!
# Layouts of joined statements

A joined statement carries the columns of every table of a shape side by side.
Its layout is a tree that says, for each table, which columns it contributes,
under which output names, and which of these tell its records apart.  No two
columns of the statement share an output name.  Walking the tree again folds
flat rows back into nested records: rows with the same identity make one
record, and a joined table whose identity is all null had no match.
-/

namespace NestedQuery

/-- A relation joined beneath a table. -/
structure JoinedBranchOf (Layout : Type) where
  name : String
  isToMany : Bool
  branch : Branch
  layout : Layout

/-- One table of a joined statement. -/
structure Layout where
  table : String
  /-- The name of the first table, the label of a joined one. -/
  qualifier : String
  /-- What stands before the output names of the columns. -/
  lead : String
  /-- The columns that records show. -/
  fields : List String
  /-- The columns that the statement carries: the fields, then hidden ones. -/
  columns : List String
  /-- The output names of the columns. -/
  outputs : List String
  /-- The columns of the primary key, none if it is not usable. -/
  key : List String
  /-- The outputs that tell records apart. -/
  identity : List String
  relations : List (JoinedBranchOf Layout)
  /-- Relations that cannot be joined and are loaded afterwards. -/
  deferred : List (String × Branch)

/-- A relation joined beneath a table. -/
abbrev JoinedBranch := JoinedBranchOf Layout

/-- Columns, then those of `extra` that are not there yet, each once. -/
def withHidden (columns extra : List String) : List String :=
  extra.foldl (fun known column => if known.contains column then known else known ++ [column])
    columns

/-! ### Output names -/

/-- The `n`th name to try for a wanted one. -/
def candidateName (wanted : String) (n : Nat) : String :=
  if n = 0 then wanted else wanted ++ "_" ++ toString n

/-- The first candidate that is not taken; among one more candidates than there are taken names
there is one. -/
def freshName (taken : List String) (wanted : String) : String :=
  (((List.range (taken.length + 1)).map (candidateName wanted)).find?
    fun name => !taken.contains name).getD wanted

/-- Names wanted one after the other, each made fresh; gives all names taken then. -/
def freshNames (taken : List String) : List String → List String × List String
  | [] => ([], taken)
  | wanted :: rest =>
    let name := freshName taken wanted
    let (names, taken) := freshNames (name :: taken) rest
    (name :: names, taken)

/-- The outputs of the given columns, among columns paired with outputs. -/
def outputsOf (columns outputs : List String) (wanted : List String) : List String :=
  wanted.filterMap fun column => (columns.zip outputs).lookup column

/-! ### Planning -/

/-- What the relations of a shape become: those joined, those loaded afterwards, and the columns
that link the latter. -/
structure PlannedBranches where
  joined : List JoinedBranch := []
  deferred : Branches := []
  links : List String := []

mutual

/-- The layout of a shape for `table`, known under `qualifier`, with `extra` columns carried along
as far as they exist.  Relations are joined depth first, in name order. -/
def Shape.plan (schema : Schema) : Shape → String → String → String → List String → Planner →
    Layout × Planner
  | ⟨fields, _, relations⟩, table, qualifier, lead, extra, planner =>
    let known := schema.table? table
    let key := match known with
      | some known => if known.hasUsableKey then known.key else []
      | none => []
    let carried := extra.filter fun column => known.any (·.hasColumn column)
    let (planned, planner) := planBranches schema relations table qualifier lead planner
    ({ table, qualifier, lead, fields, key,
       columns := withHidden fields (key ++ carried ++ planned.links),
       outputs := [], identity := [],
       relations := planned.joined, deferred := planned.deferred }, planner)

/-- Plans each relation: joins it if it can be joined, else leaves it for afterwards. -/
def planBranches (schema : Schema) : List (String × BranchOf Shape) → String → String → String →
    Planner → PlannedBranches × Planner
  | [], _, _, _, planner => ({}, planner)
  | (name, ⟨shape, filter, orderBy, take, skip, distinct, joinKind⟩) :: rest,
      table, qualifier, lead, planner =>
    let branch : Branch := ⟨shape, filter, orderBy, take, skip, distinct, joinKind⟩
    match planner.add schema table qualifier name joinKind with
    | (some join, planner) =>
      let (layout, planner) := shape.plan schema join.relation.target join.label
        (lead ++ name ++ "_") (distinct.getD []) planner
      let (others, planner) := planBranches schema rest table qualifier lead planner
      ({ others with
         joined := ⟨name, join.relation.kind.isToMany, branch, layout⟩ :: others.joined },
        planner)
    | (none, planner) =>
      let (others, planner) := planBranches schema rest table qualifier lead planner
      match schema.relation? table name with
      | some relation =>
        ({ others with
           deferred := (name, branch) :: others.deferred
           links := relation.fromColumn :: others.links }, planner)
      | none => (others, planner)

end

mutual

/-- Gives every column an output name that no earlier column has, this table first and then the
joined ones in turn. -/
def Layout.nameOutputs : Layout → List String → Layout × List String
  | ⟨table, qualifier, lead, fields, columns, _, key, _, relations, deferred⟩, taken =>
    let (outputs, taken) := freshNames taken (columns.map (lead ++ ·))
    let identity := if key.isEmpty then outputs else outputsOf columns outputs key
    let (relations, taken) := nameBranchOutputs relations taken
    (⟨table, qualifier, lead, fields, columns, outputs, key, identity, relations, deferred⟩, taken)

/-- Names the outputs of each joined table. -/
def nameBranchOutputs : List (JoinedBranchOf Layout) → List String →
    List (JoinedBranchOf Layout) × List String
  | [], taken => ([], taken)
  | ⟨name, isToMany, branch, layout⟩ :: rest, taken =>
    let (layout, taken) := layout.nameOutputs taken
    let (others, taken) := nameBranchOutputs rest taken
    (⟨name, isToMany, branch, layout⟩ :: others, taken)

end

/-- The layout of a shape for a base table, and the joins that it needs. -/
def Shape.layout (schema : Schema) (shape : Shape) (table : String) (extra : List String) :
    Layout × Planner :=
  let (layout, planner) := shape.plan schema table table "" extra {}
  ((layout.nameOutputs []).1, planner)

/-! ### What the statement needs -/

mutual

/-- The joined relations beneath a table. -/
def Layout.joinedTables : Layout → JoinedTables
  | ⟨_, _, _, _, _, _, _, _, relations, _⟩ => branchTables relations

/-- Joined relations by name. -/
def branchTables : List (JoinedBranchOf Layout) → List (String × JoinedTable)
  | [] => []
  | ⟨name, _, _, layout⟩ :: rest =>
    (name, ⟨layout.table, layout.qualifier, layout.joinedTables⟩) :: branchTables rest

end

mutual

/-- Whether a joined relation, at any depth, may repeat base rows. -/
def Layout.fansOut : Layout → Bool
  | ⟨_, _, _, _, _, _, _, _, relations, _⟩ => branchesFanOut relations

/-- Whether one of the relations may repeat base rows. -/
def branchesFanOut : List (JoinedBranchOf Layout) → Bool
  | [] => false
  | ⟨_, isToMany, _, layout⟩ :: rest => isToMany || layout.fansOut || branchesFanOut rest

end

/-- A column under its output name, which is written only where it differs. -/
def labelled (qualifier column output : String) : Output :=
  .column ⟨qualifier, column⟩ (if output = column then none else some output)

mutual

/-- The outputs of all columns of all tables. -/
def Layout.projection : Layout → List Output
  | ⟨_, qualifier, _, _, columns, outputs, _, _, relations, _⟩ =>
    (columns.zip outputs).map (fun (column, output) => labelled qualifier column output) ++
      branchProjections relations

/-- The outputs of all joined tables. -/
def branchProjections : List (JoinedBranchOf Layout) → List Output
  | [] => []
  | ⟨_, _, _, layout⟩ :: rest => layout.projection ++ branchProjections rest

end

/-- Predicates and sort keys that the joined relations bring along. -/
structure BranchClauses where
  predicates : List Expr := []
  keys : List SortKey := []

/-- The clauses of both. -/
def BranchClauses.append (a b : BranchClauses) : BranchClauses :=
  ⟨a.predicates ++ b.predicates, a.keys ++ b.keys⟩

mutual

/-- The clauses of every joined relation, at any depth, where `n` labels have been used. -/
def Layout.clauses (schema : Schema) : Layout → Nat → BranchClauses × Nat
  | ⟨_, _, _, _, _, _, _, _, relations, _⟩, n => branchClauses schema relations n

/-- The clauses of each relation, followed by those beneath it. -/
def branchClauses (schema : Schema) : List (JoinedBranchOf Layout) → Nat → BranchClauses × Nat
  | [], n => ({}, n)
  | ⟨_, _, branch, layout⟩ :: rest, n =>
    let nested := layout.joinedTables
    let (predicate, n) := schema.predicate? layout.table layout.qualifier branch.filter nested n
    let keys := schema.sortKeys layout.table layout.qualifier branch.orderBy nested
    let (beneath, n) := layout.clauses schema n
    let (others, n) := branchClauses schema rest n
    ((BranchClauses.append ⟨predicate.toList, keys⟩ beneath).append others, n)

end

end NestedQuery
