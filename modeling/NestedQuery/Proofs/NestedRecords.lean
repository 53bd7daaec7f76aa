import NestedQuery.Proofs.RecordShape

/-!
# Nested records

What a record with its relations should be can be said of a row of a table on
its own: it shows the columns of the row, and under each relation the nested
records of the rows that the relation links the row to.
-/

namespace NestedQuery

variable {schema : Schema} {db : Database}

/-! ### Linked rows -/

/-- The rows of the target that a relation links a row to, through a junction table once for every
link. -/
def Relation.linked (db : Database) (relation : Relation) (row : Row) : List Row :=
  match relation.junction with
  | none => (db.rows relation.target).filter fun other =>
      (other.value relation.toColumn).sqlEq (row.value relation.fromColumn)
  | some junction => (db.rows relation.target).flatMap fun other =>
      ((db.rows junction.table).filter fun link =>
        (link.value junction.fromColumn).sqlEq (row.value relation.fromColumn) &&
          (other.value relation.toColumn).sqlEq (link.value junction.toColumn)).map fun _ => other

/-- Of values that are not null, being equal is having the same key. -/
def Value.AgreesOnKey (a b : Value) : Prop :=
  a ≠ .null → b ≠ .null → (a.sqlEq b = true ↔ a.key = b.key)

instance (a b : Value) : Decidable (a.AgreesOnKey b) :=
  inferInstanceAs (Decidable (a ≠ .null → b ≠ .null → (a.sqlEq b = true ↔ a.key = b.key)))

/-- The values by which a relation links rows of a table are equal if their keys are. -/
structure Relation.Keyed (db : Database) (relation : Relation) (table : String) : Prop where
  direct : relation.junction = none → ∀ row ∈ db.rows table, ∀ other ∈ db.rows relation.target,
    (other.value relation.toColumn).AgreesOnKey (row.value relation.fromColumn)
  owners : ∀ junction, relation.junction = some junction → ∀ row ∈ db.rows table,
    ∀ link ∈ db.rows junction.table,
      (link.value junction.fromColumn).AgreesOnKey (row.value relation.fromColumn)
  targets : ∀ junction, relation.junction = some junction → ∀ link ∈ db.rows junction.table,
    ∀ other ∈ db.rows relation.target,
      (other.value relation.toColumn).AgreesOnKey (link.value junction.toColumn)

instance (relation : Relation) (table : String) : Decidable (relation.Keyed db table) :=
  match hjunction : relation.junction with
  | none =>
    decidable_of_iff (∀ row ∈ db.rows table, ∀ other ∈ db.rows relation.target,
        (other.value relation.toColumn).AgreesOnKey (row.value relation.fromColumn))
      ⟨fun h => ⟨fun _ => h, by simp [hjunction], by simp [hjunction]⟩, fun h => h.direct hjunction⟩
  | some junction =>
    decidable_of_iff
      ((∀ row ∈ db.rows table, ∀ link ∈ db.rows junction.table,
          (link.value junction.fromColumn).AgreesOnKey (row.value relation.fromColumn)) ∧
        ∀ link ∈ db.rows junction.table, ∀ other ∈ db.rows relation.target,
          (other.value relation.toColumn).AgreesOnKey (link.value junction.toColumn))
      ⟨fun h => ⟨by simp [hjunction], by simpa [hjunction] using h.1,
          by simpa [hjunction] using h.2⟩,
        fun h => ⟨h.owners junction hjunction, h.targets junction hjunction⟩⟩

/-! ### Nested records -/

/-- The record of some columns of a row. -/
def Row.recordOf (row : Row) (columns : List String) : Record :=
  Dict.ofPairs (columns.map fun column => (column, .scalar (row.value column)))

mutual

/-- The record that a row makes under a shape. -/
def Shape.nest (schema : Schema) (db : Database) : Shape → String → Row → Record
  | ⟨fields, _, relations⟩, table, row =>
    Dict.putAll (row.recordOf fields) (nestBranches schema db relations table row)

/-- The entries of the relations of a row. -/
def nestBranches (schema : Schema) (db : Database) :
    List (String × BranchOf Shape) → String → Row → List (String × Node)
  | [], _, _ => []
  | (name, ⟨shape, _, _, _, _, _, _⟩) :: rest, table, row =>
    match schema.relation? table name with
    | some relation =>
      (name, .ofRelated relation.kind.isToMany
        ((relation.linked db row).map (shape.nest schema db relation.target))) ::
        nestBranches schema db rest table row
    | none => nestBranches schema db rest table row

end

/-- The branch brings no clauses along: it shows all related rows in their own order. -/
structure BranchOf.WithoutClauses (branch : Branch) : Prop where
  filter : branch.filter = none
  orderBy : branch.orderBy = none
  take : branch.take = none
  skip : branch.skip = none
  distinct : branch.distinct = none
  joinKind : branch.joinKind = .left

instance (branch : Branch) : Decidable branch.WithoutClauses :=
  decidable_of_iff (branch.filter = none ∧ branch.orderBy = none ∧ branch.take = none ∧
      branch.skip = none ∧ branch.distinct = none ∧ branch.joinKind = .left)
    ⟨fun ⟨filter, orderBy, take, skip, distinct, joinKind⟩ =>
        ⟨filter, orderBy, take, skip, distinct, joinKind⟩,
      fun h => ⟨h.filter, h.orderBy, h.take, h.skip, h.distinct, h.joinKind⟩⟩

/-- Where nothing is made distinct or cut, a page is everything. -/
theorem BranchOf.page_of_none {branch : Branch} (hdistinct : branch.distinct = none)
    (htake : branch.take = none) (hskip : branch.skip = none) (records : List Record) :
    branch.page records = records := by
  unfold BranchOf.page
  rw [htake, hdistinct, hskip]
  rfl

/-- The page of a branch without clauses is everything. -/
theorem BranchOf.WithoutClauses.page {branch : Branch} (h : branch.WithoutClauses)
    (records : List Record) : branch.page records = records :=
  page_of_none h.distinct h.take h.skip records

mutual

/-- Of every relation of a shape, at any depth, something holds. -/
def Shape.Throughout (schema : Schema) (holds : String → Branch → Relation → Prop) :
    Shape → String → Prop
  | ⟨_, _, relations⟩, table => branchesThroughout schema holds relations table

def branchesThroughout (schema : Schema) (holds : String → Branch → Relation → Prop) :
    List (String × BranchOf Shape) → String → Prop
  | [], _ => True
  | (name, ⟨shape, filter, orderBy, take, skip, distinct, joinKind⟩) :: rest, table =>
    (∀ relation, schema.relation? table name = some relation →
      holds table ⟨shape, filter, orderBy, take, skip, distinct, joinKind⟩ relation ∧
        shape.Throughout schema holds relation.target) ∧
    branchesThroughout schema holds rest table

end

/-- What holds throughout relations holds of each of them that is known, and throughout its
shape. -/
theorem branchesThroughout_iff {holds : String → Branch → Relation → Prop}
    {branches : List (String × Branch)} {table : String} :
    branchesThroughout schema holds branches table ↔ ∀ entry ∈ branches,
      ∀ relation, schema.relation? table entry.1 = some relation →
        holds table entry.2 relation ∧ entry.2.shape.Throughout schema holds relation.target := by
  induction branches with
  | nil => simp [branchesThroughout]
  | cons entry rest ih =>
      obtain ⟨name, ⟨shape, filter, orderBy, take, skip, distinct, joinKind⟩⟩ := entry
      rw [branchesThroughout, ih, List.forall_mem_cons]

/-- What holds throughout a shape holds throughout its relations. -/
theorem Shape.throughout_iff {holds : String → Branch → Relation → Prop} {shape : Shape}
    {table : String} : shape.Throughout schema holds table ↔
      branchesThroughout schema holds shape.relations table := by
  obtain ⟨_, _, _⟩ := shape
  rw [Shape.Throughout]

mutual

/-- Throughout a shape something stronger may be asked instead. -/
theorem Shape.Throughout.mono {holds weaker : String → Branch → Relation → Prop}
    (hmono : ∀ table branch relation, holds table branch relation → weaker table branch relation) :
    ∀ {shape : Shape} {table : String}, shape.Throughout schema holds table →
      shape.Throughout schema weaker table
  | ⟨_, _, relations⟩, table, h => by
      rw [Shape.Throughout] at h ⊢
      exact branchesThroughout_mono hmono h

/-- So it may throughout relations. -/
theorem branchesThroughout_mono {holds weaker : String → Branch → Relation → Prop}
    (hmono : ∀ table branch relation, holds table branch relation → weaker table branch relation) :
    ∀ {branches : List (String × BranchOf Shape)} {table : String},
      branchesThroughout schema holds branches table →
      branchesThroughout schema weaker branches table
  | [], table, h => by
      rw [branchesThroughout]
      trivial
  | (name, ⟨shape, filter, orderBy, take, skip, distinct, joinKind⟩) :: rest, table, h => by
      rw [branchesThroughout] at h ⊢
      refine ⟨?_, branchesThroughout_mono hmono h.2⟩
      intro relation hrelation
      obtain ⟨hholds, hbeneath⟩ := h.1 relation hrelation
      exact ⟨hmono _ _ _ hholds, Shape.Throughout.mono hmono hbeneath⟩

end

section Decisions

variable (holds : String → Branch → Relation → Prop)
  [∀ table branch relation, Decidable (holds table branch relation)]

mutual

/-- What is decided for each relation is decided throughout a shape. -/
def Shape.decideThroughout : ∀ (shape : Shape) (table : String),
    Decidable (shape.Throughout schema holds table)
  | ⟨_, _, relations⟩, table =>
    have := decideBranchesThroughout relations table
    decidable_of_iff (branchesThroughout schema holds relations table) (by rw [Shape.Throughout])

def decideBranchesThroughout : ∀ (branches : List (String × BranchOf Shape)) (table : String),
    Decidable (branchesThroughout schema holds branches table)
  | [], _ => isTrue (by rw [branchesThroughout]; trivial)
  | (name, ⟨shape, filter, orderBy, take, skip, distinct, joinKind⟩) :: rest, table =>
    have := decideBranchesThroughout rest table
    match hrelation : schema.relation? table name with
    | none =>
      decidable_of_iff (branchesThroughout schema holds rest table)
        (by rw [branchesThroughout]; simp [hrelation])
    | some relation =>
      have := shape.decideThroughout relation.target
      decidable_of_iff ((holds table ⟨shape, filter, orderBy, take, skip, distinct, joinKind⟩
          relation ∧ shape.Throughout schema holds relation.target) ∧
          branchesThroughout schema holds rest table)
        (by rw [branchesThroughout]; simp [hrelation])

end

instance (shape : Shape) (table : String) : Decidable (shape.Throughout schema holds table) :=
  shape.decideThroughout holds table

end Decisions

end NestedQuery
