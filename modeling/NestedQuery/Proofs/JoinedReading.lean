import NestedQuery.Proofs.BaseRows
import NestedQuery.Proofs.FilterMeaning

/-!
# Filters over joined relations

Where a relation is joined, a filter on it speaks about the label of the join:
about the one row that a joined row has there, and about nulls where the join
found none.  So a filter has a second reading, at a base row and the rows that
are joined beside it.  A relation that is not joined is still asked whether one
of its rows satisfies the filter.
-/

namespace NestedQuery

variable {schema : Schema} {db : Database}

/-- The row under a label: where there is none, the empty row, which is null in every column. -/
def Bindings.rowAt (bindings : Bindings) (label : String) : Row :=
  (bindings.lookup label).join.getD []

/-- A bound label reads as the row under it. -/
theorem reads_rowAt {bindings : Bindings} {label : String} (h : label ∈ Dict.names bindings) :
    Reads bindings label (bindings.rowAt label) := by
  intro column
  obtain ⟨found, hfound⟩ := Option.isSome_iff_exists.mp (Dict.lookup_isSome_iff.mpr h)
  rw [Bindings.value, Bindings.rowAt, hfound]
  cases found <;> rfl

/-! ### The reading -/

mutual

/-- What a filter on a table says of a row, beside which joined relations have the rows under their
labels. -/
def Filter.joinedReading (schema : Schema) (db : Database) : Filter → Table → Row → JoinedTables →
    Bindings → Option (Option Bool)
  | .node allOf anyOf noneOf entries, table, row, joined, around =>
    let alternatives := joinedReadings schema db anyOf table row joined around
    conjoin (joinedEntryReadings schema db entries table row joined around ++
      (joinedReadings schema db allOf table row joined around).filterMap id ++
      (if alternatives.all Option.isSome then (disjoin (alternatives.filterMap id)).toList
        else []) ++
      ((joinedReadings schema db noneOf table row joined around).filterMap id).map fun truth =>
        truth.map (!·))

/-- What each filter says. -/
def joinedReadings (schema : Schema) (db : Database) : List Filter → Table → Row → JoinedTables →
    Bindings → List (Option (Option Bool))
  | [], _, _, _, _ => []
  | filter :: rest, table, row, joined, around =>
    filter.joinedReading schema db table row joined around ::
      joinedReadings schema db rest table row joined around

/-- What the entries say. -/
def joinedEntryReadings (schema : Schema) (db : Database) : List (String × Operand) → Table → Row →
    JoinedTables → Bindings → List (Option Bool)
  | [], _, _, _, _ => []
  | (key, operand) :: rest, table, row, joined, around =>
    (match table.column? key, table.relation? key with
      | some column, _ => operand.columnReading column row
      | none, some relation => joinedRelatedReading schema db operand relation row joined around
      | none, none => none).toList ++ joinedEntryReadings schema db rest table row joined around

/-- What an entry on a relation says: of the row under its label if it is joined, else that a linked
row is kept. -/
def joinedRelatedReading (schema : Schema) (db : Database) : Operand → Relation → Row →
    JoinedTables → Bindings → Option (Option Bool)
  | .related inner, relation, row, joined, around =>
    match joined.lookup relation.name with
    | some under => (schema.table? under.table).bind fun target =>
        inner.joinedReading schema db target (around.rowAt under.label) under.nested around
    | none => relatedReading schema db (.related inner) relation row
  | _, _, _, _, _ => none

end

/-! ### What predicates mean -/

section Meaning

/-- Joined relations have their labels among some that are bound, none of which is a label that
filters make up. -/
structure Bindings.Joins (bindings : Bindings) (joined : JoinedTables) (scope : List String) :
    Prop where
  within : tablesWithin joined scope
  bound : scope ⊆ Dict.names bindings
  foreign : ∀ label ∈ scope, ∀ base n, label ≠ subLabel base n

variable {scope : List String}

mutual

/-- The predicate of a filter means what the filter says beside the joined rows.  As without joins,
the counter runs through the parts of a filter.  The labels of joins are no labels of filters, so
beneath a joined relation every number is unused. -/
theorem Filter.predicate?_joined : ∀ (filter : Filter) (table : Table) (qualifier : String)
    (n : Nat) {joined : JoinedTables} {bindings : Bindings} {row : Row},
      Reads bindings qualifier row → Unused qualifier n → bindings.Joins joined scope →
      Option.Rel (Means db bindings) (filter.predicate? schema table qualifier joined n).1
        (filter.joinedReading schema db table row joined bindings)
  | .node allOf anyOf noneOf entries, table, qualifier, n, joined, bindings, row, hrow, hunused,
      hjoins => by
      have hentries := entryPredicates_joined entries table qualifier n hrow hunused hjoins
      have hunusedAll := hunused.mono (entryPredicates_count schema entries table qualifier joined n)
      have hall := filterPredicates_joined allOf table qualifier _ hrow hunusedAll hjoins
      have hunusedAny := hunusedAll.mono
        (filterPredicates_count schema allOf table qualifier joined _)
      have hany := filterPredicates_joined anyOf table qualifier _ hrow hunusedAny hjoins
      have hunusedNone := hunusedAny.mono
        (filterPredicates_count schema anyOf table qualifier joined _)
      have hnone := filterPredicates_joined noneOf table qualifier _ hrow hunusedNone hjoins
      rw [Filter.predicate?, Filter.joinedReading]
      exact node_means hentries hall hany hnone

/-- The predicates of several filters mean what each of them says beside the joined rows. -/
theorem filterPredicates_joined : ∀ (filters : List Filter) (table : Table) (qualifier : String)
    (n : Nat) {joined : JoinedTables} {bindings : Bindings} {row : Row},
      Reads bindings qualifier row → Unused qualifier n → bindings.Joins joined scope →
      List.Forall₂ (Option.Rel (Means db bindings))
        (filterPredicates schema filters table qualifier joined n).1
        (joinedReadings schema db filters table row joined bindings)
  | [], _, _, _, _, _, _, _, _, _ => by
      rw [filterPredicates, joinedReadings]
      exact List.Forall₂.nil
  | filter :: rest, table, qualifier, n, joined, bindings, row, hrow, hunused, hjoins => by
      have hfirst := Filter.predicate?_joined filter table qualifier n hrow hunused hjoins
      have hrest := filterPredicates_joined rest table qualifier _ hrow
        (hunused.mono (Filter.predicate?_count schema filter table qualifier joined n)) hjoins
      rw [filterPredicates, joinedReadings]
      exact List.Forall₂.cons hfirst hrest

/-- The predicates of entries mean what each entry says there. -/
theorem entryPredicates_joined : ∀ (entries : List (String × Operand)) (table : Table)
    (qualifier : String) (n : Nat) {joined : JoinedTables} {bindings : Bindings} {row : Row},
      Reads bindings qualifier row → Unused qualifier n → bindings.Joins joined scope →
      List.Forall₂ (Means db bindings) (entryPredicates schema entries table qualifier joined n).1
        (joinedEntryReadings schema db entries table row joined bindings)
  | [], _, _, _, _, _, _, _, _, _ => by
      rw [entryPredicates, joinedEntryReadings]
      exact List.Forall₂.nil
  | (key, operand) :: rest, table, qualifier, n, joined, bindings, row, hrow, hunused, hjoins => by
      rw [entryPredicates, joinedEntryReadings]
      cases hcolumn : table.column? key with
      | some column =>
          exact List.rel_append (toList_means (operand.columnPredicate?_means hrow column))
            (entryPredicates_joined rest table qualifier n hrow hunused hjoins)
      | none =>
          cases hrelation : table.relation? key with
          | some relation =>
              have hcount := relationPredicate?_count schema operand relation qualifier joined n
              exact List.rel_append
                (toList_means
                  (relationPredicate?_joined operand relation qualifier n hrow hunused hjoins))
                (entryPredicates_joined rest table qualifier _ hrow (hunused.mono hcount) hjoins)
          | none => exact entryPredicates_joined rest table qualifier n hrow hunused hjoins

/-- The predicate of a relation means what the filter says of its joined row, or of its related rows
if it is not joined. -/
theorem relationPredicate?_joined : ∀ (operand : Operand) (relation : Relation)
    (qualifier : String) (n : Nat) {joined : JoinedTables} {bindings : Bindings} {row : Row},
      Reads bindings qualifier row → Unused qualifier n → bindings.Joins joined scope →
      Option.Rel (Means db bindings)
        (relationPredicate? schema operand relation qualifier joined n).1
        (joinedRelatedReading schema db operand relation row joined bindings)
  | .related inner, relation, qualifier, n, joined, bindings, row, hrow, hunused, hjoins => by
      rw [joinedRelatedReading]
      cases hlookup : joined.lookup relation.name with
      | some under =>
          obtain ⟨hlabel, hnested⟩ :=
            JoinedTable.within_iff.mp (within_of_lookup hjoins.within hlookup)
          rw [relationPredicate?, hlookup]
          dsimp only
          cases htarget : schema.table? under.table with
          | none => exact Option.Rel.none
          | some target =>
              exact Filter.predicate?_joined inner target under.label n
                (reads_rowAt (hjoins.bound hlabel))
                (fun base m _ => hjoins.foreign under.label hlabel base m)
                ⟨hnested, hjoins.bound, hjoins.foreign⟩
      | none =>
          rw [relationPredicate?_unjoined (.related inner) relation qualifier hlookup n]
          exact relationPredicate?_means (.related inner) relation qualifier n hrow hunused
  | .literal _, _, _, _, _, _, _, _, _, _ => by
      rw [relationPredicate?, joinedRelatedReading]
      · exact Option.Rel.none
      · simp
      · simp
  | .condition _, _, _, _, _, _, _, _, _, _ => by
      rw [relationPredicate?, joinedRelatedReading]
      · exact Option.Rel.none
      · simp
      · simp

end

end Meaning

/-! ### What filters keep -/

/-- Nothing is said, or what is said is false. -/
def refutes : Option (Option Bool) → Bool
  | none => true
  | some truth => truth == some false

theorem keeps_eq_all (said : Option (Option Bool)) :
    keeps said = said.toList.all (· == some true) := by
  cases said with
  | none => rfl
  | some truth => exact (Bool.and_true _).symm

/-- What is conjoined is kept if all of it is true. -/
theorem keeps_conjoin (truths : List (Option Bool)) :
    keeps (conjoin truths) = truths.all (· == some true) := by
  induction truths with
  | nil => rfl
  | cons truth rest ih =>
      have hrest : (rest.foldr both (some true) == some true) = rest.all (· == some true) := by
        rw [← ih]
        cases rest <;> rfl
      rw [List.all_cons, ← hrest]
      change (both truth (rest.foldr both (some true)) == some true) = _
      rw [Bool.eq_iff_iff, Bool.and_eq_true, beq_iff_eq, beq_iff_eq, beq_iff_eq]
      exact both_eq_true_iff

/-- Alternatives are kept if there is none or one of them is kept. -/
theorem keeps_alternatives (said : List (Option (Option Bool))) :
    ((if said.all Option.isSome then (disjoin (said.filterMap id)).toList else []).all
      (· == some true)) = (said.isEmpty || said.any keeps) := by
  have heither : ∀ truths : List (Option Bool),
      (truths.foldr either (some false) == some true) = truths.any (· == some true) := by
    intro truths
    induction truths with
    | nil => rfl
    | cons truth rest ih =>
        rw [List.foldr_cons, List.any_cons, ← ih]
        generalize rest.foldr either (some false) = other
        rcases truth with _ | _ | _ <;> rcases other with _ | _ | _ <;> rfl
  split
  · next hsome =>
      have hmap : ∃ truths : List (Option Bool), said = truths.map some := by
        refine ⟨said.filterMap id, ?_⟩
        induction said with
        | nil => rfl
        | cons first rest ih =>
            rw [List.all_cons, Bool.and_eq_true] at hsome
            obtain ⟨truth, rfl⟩ := Option.isSome_iff_exists.mp hsome.1
            exact congrArg _ (ih hsome.2)
      obtain ⟨truths, rfl⟩ := hmap
      rw [List.filterMap_map, Function.id_comp, List.filterMap_some]
      cases truths with
      | nil => rfl
      | cons truth rest =>
          have hkeeps : ((truth :: rest).map some).any keeps = (truth :: rest).any (· == some true) := by
            rw [List.any_map]
            rfl
          rw [hkeeps, ← heither]
          exact Bool.and_true _
  · next hnone =>
      have hany : said.any keeps = true := by
        rw [Bool.not_eq_true, List.all_eq_false] at hnone
        obtain ⟨first, hfirst, hnot⟩ := hnone
        refine List.any_eq_true.mpr ⟨first, hfirst, ?_⟩
        cases first with
        | none => rfl
        | some truth => exact absurd rfl hnot
      rw [hany, Bool.or_true]
      rfl

/-- A filter is kept if all its entries and all filters that must hold are kept, one of the
alternatives is, and what must not hold is refuted. -/
theorem keeps_node (entries : List (Option Bool)) (every any excluded : List (Option (Option Bool))) :
    keeps (conjoin (entries ++ every.filterMap id ++
      (if any.all Option.isSome then (disjoin (any.filterMap id)).toList else []) ++
      (excluded.filterMap id).map fun truth => truth.map (!·))) =
    (entries.all (· == some true) && every.all keeps && (any.isEmpty || any.any keeps) &&
      excluded.all refutes) := by
  have hevery : (every.filterMap id).all (· == some true) = every.all keeps := by
    rw [List.all_filterMap]
    refine List.all_congr rfl fun said => ?_
    cases said <;> rfl
  have hexcluded : ((excluded.filterMap id).map fun truth => truth.map (!·)).all (· == some true) =
      excluded.all refutes := by
    rw [List.all_map, List.all_filterMap]
    refine List.all_congr rfl fun said => ?_
    rcases said with _ | _ | _ | _ <;> rfl
  rw [keeps_conjoin, List.all_append, List.all_append, List.all_append, hevery,
    keeps_alternatives, hexcluded]

end NestedQuery
