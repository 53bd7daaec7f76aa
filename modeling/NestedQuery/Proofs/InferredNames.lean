import NestedQuery.Plan.SortKeys
import NestedQuery.Proofs.InferredRelations
import NestedQuery.Proofs.Planning

/-!
# Names of inferred relations

A foreign key names its relations by rule, after its column or after one of the
two tables, and no rule looks at the columns of the table that takes the
relation.  Requests name columns and relations alike, and of the two the column
wins.  So an inferred relation can be requested exactly if its table has no
column of its name.
-/

namespace NestedQuery

/-! ### The rule for the own table -/

namespace Naming

/-- Whether a foreign-key column names its relation after the target: its stem is empty, is `id`, is
the table itself, or is the whole column. -/
def FallsBack (column owner : String) : Prop :=
  stem column = "" ∨ eqIgnoringCase (stem column) "id" ∨ eqIgnoringCase (stem column) owner ∨
    stem column = column

theorem forward_of_fallsBack {column owner : String} (h : FallsBack column owner)
    (target : String) : forward column owner target = Text.lowerFirst target := by
  unfold forward
  rw [if_pos]
  simpa [FallsBack, or_assoc] using h

theorem forward_of_not_fallsBack {column owner : String} (h : ¬ FallsBack column owner)
    (target : String) : forward column owner target = stem column := by
  unfold forward
  rw [if_neg]
  simpa [FallsBack, or_assoc] using h

/-- A column shares its name with its relation exactly if the relation is named after the target
and the column is too. -/
theorem forward_eq_column_iff (column owner target : String) :
    forward column owner target = column ↔
      FallsBack column owner ∧ Text.lowerFirst target = column := by
  by_cases h : FallsBack column owner
  · rw [forward_of_fallsBack h]
    simp [h]
  · have hstem : stem column ≠ column := fun heq => h (.inr (.inr (.inr heq)))
    rw [forward_of_not_fallsBack h]
    simp [h, hstem]

end Naming

/-- The name is one that the rules give such a relation of the table. -/
def Relation.NamedByRule (relation : Relation) (table name : String) : Prop :=
  match relation.kind with
  | .manyToOne => name = Naming.forward relation.fromColumn table relation.target
  | .oneToMany => name = Naming.backwardMany relation.target
  | .oneToOne =>
      name = Naming.forward relation.fromColumn table relation.target ∨
        name = Naming.backwardOne relation.target
  | .manyToMany => False

/-! ### What a name stands for -/

namespace Schema

/-- Requests reach the relation by its name: including it loads it, a filter under its name asks for
related rows, and an ordering under its name sorts by columns of the joined table. -/
structure Reached (schema : Schema) (table name : String) (relation : Relation) : Prop where
  included : (schema.shape table none (some [(name, .flag true)]) none).relations =
    [(name, { shape := .plain schema relation.target })]
  filtered : ∀ inner qualifier n, ∃ rows used, rows.table = relation.target ∧
    schema.predicate? table qualifier (some (.node [] [] [] [(name, .related inner)])) [] n =
      (some (.exists rows), used)
  ordered : ∀ qualifier (joined : JoinedTables) under target entry,
    joined.lookup name = some under → schema.table? under.table = some target →
      schema.sortKeys table qualifier (some (.one [(name, .nested entry)])) joined =
        target.sortKeys under.label entry

/-- Requests that name the relation say nothing: including it loads nothing, a filter under its name
constrains nothing, and an ordering under its name sorts by nothing. -/
structure Shadowed (schema : Schema) (table name : String) : Prop where
  included : (schema.shape table none (some [(name, .flag true)]) none).relations = []
  filtered : ∀ inner qualifier joined n,
    schema.predicate? table qualifier (some (.node [] [] [] [(name, .related inner)])) joined n =
      (none, n)
  ordered : ∀ qualifier joined entry,
    schema.sortKeys table qualifier (some (.one [(name, .nested entry)])) joined = []

variable {schema : Schema} {table name : String} {known : Table} {relation : Relation}

theorem not_reached_of_shadowed (h : schema.Shadowed table name) :
    ¬ schema.Reached table name relation := by
  intro hreached
  simpa [h.included] using hreached.included

/-- The relations of a shape that includes one name. -/
theorem relations_including (hknown : schema.table? table = some known) :
    (schema.shape table none (some [(name, .flag true)]) none).relations =
      addChoice schema known name (.flag true) [] := by
  rw [shape, hknown]
  exact addBranches_cons known name (.flag true) [] []

/-- The predicate of a filter of one entry. -/
theorem predicate?_entry (hknown : schema.table? table = some known) (qualifier : String)
    (operand : Operand) (joined : JoinedTables) (n : Nat) :
    schema.predicate? table qualifier (some (.node [] [] [] [(name, operand)])) joined n =
      match known.column? name, known.relation? name with
      | some column, _ => (operand.columnPredicate? column qualifier, n)
      | none, some relation => relationPredicate? schema operand relation qualifier joined n
      | none, none => (none, n) := by
  simp only [predicate?, hknown]
  exact Filter.predicate?_entry known qualifier name operand joined n

/-- A column hides a relation of its name. -/
theorem shadowed_of_hasColumn (hknown : schema.table? table = some known)
    (hcolumn : known.hasColumn name = true) : schema.Shadowed table name := by
  obtain ⟨column, hfound, -⟩ := exists_column hcolumn
  constructor
  case included =>
    rw [relations_including hknown, addChoice, if_pos hcolumn]
  case filtered =>
    intro inner qualifier joined n
    rw [predicate?_entry hknown, hfound]
    rfl
  case ordered =>
    intro qualifier joined entry
    simp [sortKeys, hknown, SortRequest.entries, keySortKeys, hcolumn, SortSpec.key?]

/-- A relation that needs no junction is reached unless a column hides it. -/
theorem reached_of_not_hasColumn (hconsistent : schema.Consistent)
    (hknown : schema.table? table = some known) (hrelation : known.relation? name = some relation)
    (hcolumn : known.hasColumn name = false) (hdirect : relation.junction = none) :
    schema.Reached table name relation := by
  constructor
  case included =>
    rw [relations_including hknown, addChoice, if_neg (by simp [hcolumn]), hrelation]
    rfl
  case filtered =>
    intro inner qualifier n
    obtain ⟨target, htarget, -⟩ := (hconsistent.resolves hknown hrelation).target
    rw [predicate?_related hknown hcolumn hrelation]
    simp only [relationPredicate?, List.lookup_nil, htarget, existence, hdirect]
    refine ⟨_, _, ?_, rfl⟩
    rw [andWhere?_frame]
    exact hconsistent.table_name htarget
  case ordered =>
    intro qualifier joined under other entry hunder hother
    simp [sortKeys, hknown, SortRequest.entries, keySortKeys, hcolumn, hunder, hother]

/-! ### Relations of a catalog -/

/-- Inferred relations are named by rule and lead to their targets directly. -/
theorem inferred_named {decls : List TableDecl}
    (h : (ofDecls decls).relation? table name = some relation) :
    relation.NamedByRule table name ∧ relation.junction = none := by
  obtain ⟨rfl, hoffer⟩ := inferred_from h
  obtain ⟨owner, column, target, foreign, single, optional, -, -, -, -, hfrom⟩ := mem_offers hoffer
  rcases hfrom with hforward | hbackward
  · cases hforward
    cases single <;> simp [keyed, Relation.NamedByRule]
  · cases hbackward
    cases single <;> simp [keyed, Relation.NamedByRule, Relation.oneToOne, Relation.oneToMany]

/-- **Requesting inferred relations.**  Requests reach an inferred relation by its name exactly if
its table has no column of that name, and otherwise the column hides it in selections, filters and
orderings.  The name follows from the names of the foreign key alone, and a relation of many to one
is hidden by the column of its own key exactly if it is named after its target and the column is
too. -/
theorem inferred_reached_iff (decls : List TableDecl)
    (h : (ofDecls decls).relation? table name = some relation) :
    let schema := ofDecls decls
    (schema.Reached table name relation ↔ schema.hasColumn table name = false) ∧
      (schema.Shadowed table name ↔ schema.hasColumn table name = true) ∧
      relation.NamedByRule table name ∧
      (relation.kind = .manyToOne → (name = relation.fromColumn ↔
        Naming.FallsBack relation.fromColumn table ∧
          Text.lowerFirst relation.target = relation.fromColumn)) := by
  intro schema
  obtain ⟨hnamed, hdirect⟩ := inferred_named h
  obtain ⟨known, hknown, hrelation⟩ := Option.bind_eq_some_iff.mp h
  have hconsistent : schema.Consistent := (reachable_ofDecls decls).consistent
  have hcolumns : schema.hasColumn table name = known.hasColumn name := by
    rw [hasColumn, hknown, Option.any_some]
  rw [hcolumns]
  refine ⟨?_, ?_, hnamed, ?_⟩
  · constructor
    · intro hreached
      by_contra hcolumn
      exact not_reached_of_shadowed (shadowed_of_hasColumn hknown (by simpa using hcolumn)) hreached
    · exact fun hcolumn => reached_of_not_hasColumn hconsistent hknown hrelation hcolumn hdirect
  · constructor
    · intro hshadowed
      by_contra hcolumn
      exact not_reached_of_shadowed hshadowed (reached_of_not_hasColumn hconsistent hknown hrelation
        (by simpa using hcolumn) hdirect)
    · exact shadowed_of_hasColumn hknown
  · intro hkind
    have hname : name = Naming.forward relation.fromColumn table relation.target := by
      simpa [Relation.NamedByRule, hkind] using hnamed
    rw [hname]
    exact Naming.forward_eq_column_iff _ _ _

/-- Posts of the blog are asked for their author, and no column is in the way. -/
theorem inferred_reached_iff_blog :
    ∃ relation, (ofDecls blogTables).relation? "Post" "author" = some relation ∧
      (ofDecls blogTables).Reached "Post" "author" relation ∧ "author" ≠ relation.fromColumn := by
  have hauthor : (ofDecls blogTables).relation? "Post" "author" = some
      { name := "author", kind := .manyToOne, target := "Author"
        fromColumn := "authorId", toColumn := "id" } := by
    decide +kernel
  exact ⟨_, hauthor, (inferred_reached_iff blogTables hauthor).1.mpr (by decide +kernel),
    by decide⟩

/-- Contracts whose key is called like its target. -/
def plainContracts : List TableDecl :=
  [{ name := "Mentor", columns := [{ name := "id", type := .integer, primary := true }] },
   { name := "Contract"
     columns := [
       { name := "id", type := .integer, primary := true },
       { name := "mentor", type := .integer, references := some ⟨"Mentor", "id"⟩ }] }]

/-- The relation takes the name of the column that it is inferred from, and including it loads
nothing. -/
theorem own_column_shadows :
    let schema := ofDecls plainContracts
    ∃ relation, schema.relation? "Contract" "mentor" = some relation ∧
      relation.fromColumn = "mentor" ∧ schema.hasColumn "Contract" "mentor" = true ∧
      (schema.shape "Contract" none (some [("mentor", .flag true)]) none).relations.map (·.1) =
        [] := by
  intro schema
  have hmentor : schema.relation? "Contract" "mentor" = some
      { name := "mentor", kind := .manyToOne, target := "Mentor"
        fromColumn := "mentor", toColumn := "id" } := by
    decide +kernel
  exact ⟨_, hmentor, rfl, by decide +kernel, by decide +kernel⟩

end Schema

end NestedQuery
