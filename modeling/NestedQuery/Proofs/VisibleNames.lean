import NestedQuery.Proofs.CompiledScope

/-!
# Visible names

Where a column reference stands, some qualifiers are visible: those of its own
statement and those of the statements around it.  A reference reads the nearest
source of its qualifier, whichever that is, so what it reads is settled by its
qualifier alone only if no two visible sources share a name.  Here the visible
qualifiers are listed, for every statement inside a statement and for every
column reference, and a well-scoped statement whose lists have no repetition is
shown to leave no reference to chance.
-/

namespace NestedQuery

/-- A column reference with the qualifiers that are visible where it stands, the nearest first. -/
structure Use where
  column : ColumnRef
  visible : List String
  deriving DecidableEq, Repr

/-- The reference with more qualifiers visible around it. -/
def Use.inside (around : List String) (use : Use) : Use :=
  { use with visible := use.visible ++ around }

/-- The qualifier of the reference is visible, and wherever the visible qualifiers are bound, the
reference reads every source that its qualifier is bound to: there is but one. -/
structure Use.Resolved (use : Use) : Prop where
  bound : use.column.qualifier ∈ use.visible
  reads : ∀ bindings : Bindings, Dict.names bindings = use.visible →
    ∀ row, (use.column.qualifier, row) ∈ bindings →
      bindings.value use.column = .ok ((row.bind (·.lookup use.column.name)).getD .null)

/-- A visible qualifier that no other source shares settles what is read. -/
theorem Use.resolved_of_nodup {use : Use} (hbound : use.column.qualifier ∈ use.visible)
    (hnodup : use.visible.Nodup) : use.Resolved := by
  refine ⟨hbound, ?_⟩
  intro bindings hnames row hrow
  have hlookup : bindings.lookup use.column.qualifier = some row :=
    Dict.lookup_of_mem (hnames ▸ hnodup) hrow
  simp only [Bindings.value, hlookup]
  rfl

/-! ### What is visible -/

mutual

/-- For every statement inside the expression, the qualifiers of it and of those around it inside
the expression, the nearest first. -/
def Expr.nestings : Expr → List (List String)
  | .column _ => []
  | .literal _ => []
  | .compare left _ right => left.nestings ++ right.nestings
  | .connect left _ right => left.nestings ++ right.nestings
  | .not inner => inner.nestings
  | .like subject _ _ => subject.nestings
  | .oneOf subject _ _ => subject.nestings
  | .isNull subject _ => subject.nestings
  | .exists statement => selectNestings statement

/-- For the statement and every statement inside it, the qualifiers of it and of those around it,
the nearest first. -/
def selectNestings : SelectOf Expr → List (List String)
  | ⟨_, table, label, joins, filter, _, _, _⟩ =>
    let own := label.getD table :: joins.map (·.label)
    own :: (joinNestings joins [label.getD table] ++ (filterNestings filter).map (· ++ own))

/-- The same for the statements inside the conditions of joins, after `own` tables. -/
def joinNestings : List (JoinOf Expr) → List String → List (List String)
  | [], _ => []
  | ⟨_, _, label, on⟩ :: rest, own =>
    on.nestings.map (· ++ (own ++ [label])) ++ joinNestings rest (own ++ [label])

/-- The same for the statements inside a filter. -/
def filterNestings : Option Expr → List (List String)
  | none => []
  | some condition => condition.nestings

end

mutual

/-- The column references of the expression. -/
def Expr.uses : Expr → List Use
  | .column ref => [⟨ref, []⟩]
  | .literal _ => []
  | .compare left _ right => left.uses ++ right.uses
  | .connect left _ right => left.uses ++ right.uses
  | .not inner => inner.uses
  | .like subject _ _ => subject.uses
  | .oneOf subject _ _ => subject.uses
  | .isNull subject _ => subject.uses
  | .exists statement => selectUses statement

/-- The column references of the clauses of a statement. -/
def selectUses : SelectOf Expr → List Use
  | ⟨_, table, label, joins, filter, groupBy, orderBy, _⟩ =>
    let own := label.getD table :: joins.map (·.label)
    joinUses joins [label.getD table] ++ (filterUses filter).map (Use.inside own) ++
      (groupBy.getD []).map (⟨·, own⟩) ++ (orderBy.getD []).map (⟨·.column, own⟩)

/-- The column references of the conditions of joins, after `own` tables. -/
def joinUses : List (JoinOf Expr) → List String → List Use
  | [], _ => []
  | ⟨_, _, label, on⟩ :: rest, own =>
    on.uses.map (Use.inside (own ++ [label])) ++ joinUses rest (own ++ [label])

/-- The column references of a filter. -/
def filterUses : Option Expr → List Use
  | none => []
  | some condition => condition.uses

end

/-- The column references of a statement that stands alone: those of its clauses and its outputs. -/
def SelectOf.uses (statement : Select) : List Use :=
  selectUses statement ++ statement.outputs.filterMap fun
    | .column ref _ => some ⟨ref, statement.scope⟩
    | .count _ => none

/-! ### References stand in scope -/

/-- The qualifier of the reference is visible to it or in the scope around, and the qualifiers
visible to it are among those of one nesting, in the same order. -/
structure Use.Placed (use : Use) (nestings : List (List String)) (scope : List String) : Prop where
  bound : use.column.qualifier ∈ use.visible ++ scope
  within : ∃ nesting ∈ nestings, use.visible.Sublist nesting

/-- A use stays placed if there is more around it. -/
theorem Use.Placed.widen {use : Use} {nestings wider : List (List String)} {scope : List String}
    (h : use.Placed nestings scope)
    (hwider : ∀ nesting ∈ nestings, ∃ other ∈ wider, nesting.Sublist other) :
    use.Placed wider scope := by
  obtain ⟨nesting, hmem, hsub⟩ := h.within
  obtain ⟨other, hother, hwithin⟩ := hwider nesting hmem
  exact ⟨h.bound, other, hother, hsub.trans hwithin⟩

/-- So it does among more nestings. -/
theorem Use.Placed.mono {use : Use} {nestings more : List (List String)} {scope : List String}
    (h : use.Placed nestings scope) (hmore : nestings ⊆ more) : use.Placed more scope :=
  h.widen fun nesting hnesting => ⟨nesting, hmore hnesting, List.Sublist.refl _⟩

/-- Inside a statement a use is placed in the nestings with what is around them. -/
theorem Use.Placed.inside {use : Use} {nestings : List (List String)} {around scope : List String}
    (h : use.Placed nestings (around ++ scope)) :
    (use.inside around).Placed (nestings.map (· ++ around)) scope := by
  obtain ⟨nesting, hmem, hsub⟩ := h.within
  refine ⟨?_, nesting ++ around, List.mem_map_of_mem hmem, hsub.append_right around⟩
  simpa only [Use.inside, List.append_assoc] using h.bound

mutual

/-- The references of an expression in scope are placed.  A reference of an expression stands in a
statement inside the expression, or in no statement but those around it; the empty nesting stands
for the latter. -/
theorem Expr.Scoped.placed : ∀ {expr : Expr} {scope : List String}, expr.Scoped scope →
    ∀ use ∈ expr.uses, use.Placed ([] :: expr.nestings) scope
  | .column ref, scope, h, use, huse => by
      rw [Expr.Scoped] at h
      rw [Expr.uses, List.mem_singleton] at huse
      subst huse
      exact ⟨h, [], List.mem_cons_self, List.Sublist.refl _⟩
  | .literal _, scope, h, use, huse => by simp [Expr.uses] at huse
  | .compare left _ right, scope, h, use, huse => by
      rw [Expr.Scoped] at h
      rw [Expr.uses] at huse
      rw [Expr.nestings]
      rcases List.mem_append.mp huse with huse | huse
      · exact (Expr.Scoped.placed h.1 use huse).mono (by simp)
      · exact (Expr.Scoped.placed h.2 use huse).mono (by simp)
  | .connect left _ right, scope, h, use, huse => by
      rw [Expr.Scoped] at h
      rw [Expr.uses] at huse
      rw [Expr.nestings]
      rcases List.mem_append.mp huse with huse | huse
      · exact (Expr.Scoped.placed h.1 use huse).mono (by simp)
      · exact (Expr.Scoped.placed h.2 use huse).mono (by simp)
  | .not inner, scope, h, use, huse => by
      rw [Expr.Scoped] at h
      exact Expr.Scoped.placed h use huse
  | .like subject _ _, scope, h, use, huse => by
      rw [Expr.Scoped] at h
      exact Expr.Scoped.placed h use huse
  | .oneOf subject _ _, scope, h, use, huse => by
      rw [Expr.Scoped] at h
      exact Expr.Scoped.placed h use huse
  | .isNull subject _, scope, h, use, huse => by
      rw [Expr.Scoped] at h
      exact Expr.Scoped.placed h use huse
  | .exists statement, scope, h, use, huse => by
      rw [Expr.Scoped] at h
      rw [Expr.uses] at huse
      rw [Expr.nestings]
      exact (selectScoped_placed h use huse).mono (List.subset_cons_self _ _)

/-- So are the references of a statement in scope, inside one of its nestings. -/
theorem selectScoped_placed : ∀ {statement : SelectOf Expr} {outer : List String},
    selectScoped statement outer →
    ∀ use ∈ selectUses statement, use.Placed (selectNestings statement) outer
  | ⟨_, table, label, joins, filter, groupBy, orderBy, _⟩, outer, h, use, huse => by
      rw [selectScoped] at h
      obtain ⟨hjoins, hfilter, hgroup, horder⟩ := h
      rw [selectUses] at huse
      rw [selectNestings]
      simp only [List.mem_append, List.mem_map] at huse
      rcases huse with ((huse | ⟨inner, hinner, rfl⟩) | ⟨column, hcolumn, rfl⟩) | ⟨key, hkey, rfl⟩
      · exact (joinsScoped_placed hjoins use huse).mono (by simp)
      · exact (filterScoped_placed hfilter inner hinner).inside.mono (by simp)
      · cases groupBy with
        | none => cases hcolumn
        | some columns =>
            exact ⟨hgroup columns rfl column hcolumn, _, List.mem_cons_self, List.Sublist.refl _⟩
      · cases orderBy with
        | none => cases hkey
        | some keys =>
            exact ⟨horder keys rfl key hkey, _, List.mem_cons_self, List.Sublist.refl _⟩

/-- So are the references of the conditions of joins. -/
theorem joinsScoped_placed : ∀ {joins : List (JoinOf Expr)} {own outer : List String},
    joinsScoped joins own outer → ∀ use ∈ joinUses joins own,
      use.Placed ((own ++ joins.map (·.label)) :: joinNestings joins own) outer
  | [], own, outer, _, use, huse => by simp [joinUses] at huse
  | ⟨_, _, label, on⟩ :: rest, own, outer, h, use, huse => by
      rw [joinsScoped] at h
      rw [joinUses] at huse
      rw [joinNestings]
      rcases List.mem_append.mp huse with huse | huse
      · obtain ⟨inner, hinner, rfl⟩ := List.mem_map.mp huse
        apply (Expr.Scoped.placed h.1 inner hinner).inside.widen
        intro nesting hnesting
        rw [List.map_cons, List.mem_cons] at hnesting
        rcases hnesting with rfl | hnesting
        · exact ⟨_, List.mem_cons_self, by simp⟩
        · exact ⟨nesting, by simp [hnesting], List.Sublist.refl _⟩
      · exact (joinsScoped_placed h.2 use huse).mono (by simp)

/-- So are the references of a filter. -/
theorem filterScoped_placed : ∀ {filter : Option Expr} {scope : List String},
    filterScoped filter scope → ∀ use ∈ filterUses filter,
      use.Placed ([] :: filterNestings filter) scope
  | none, scope, _, use, huse => by simp [filterUses] at huse
  | some condition, scope, h, use, huse => by
      rw [filterScoped] at h
      exact Expr.Scoped.placed h use huse

end

/-- If no two sources that are visible together share a name, every reference of a well-scoped
statement reads the source of its qualifier. -/
theorem SelectOf.WellScoped.resolved {statement : Select} (h : statement.WellScoped)
    (hnodup : ∀ nesting ∈ selectNestings statement, nesting.Nodup) :
    ∀ use ∈ statement.uses, use.Resolved := by
  intro use huse
  unfold SelectOf.uses at huse
  rcases List.mem_append.mp huse with hclause | houtput
  · obtain ⟨hbound, nesting, hnesting, hsub⟩ := selectScoped_placed h.clauses use hclause
    rw [List.append_nil] at hbound
    exact Use.resolved_of_nodup hbound (hsub.nodup (hnodup nesting hnesting))
  · obtain ⟨output, hlisted, hmade⟩ := List.mem_filterMap.mp houtput
    cases output with
    | count label => cases hmade
    | column ref label =>
        cases hmade
        apply Use.resolved_of_nodup (h.outputs _ hlisted ref label rfl)
        apply hnodup
        obtain ⟨_, table, label, joins, filter, _, _, _⟩ := statement
        rw [selectNestings]
        exact List.mem_cons_self

end NestedQuery
