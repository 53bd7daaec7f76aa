import NestedQuery.Proofs.CompiledScope

/-!
# Plans are in scope

Planning walks the tree of a shape and joins what it can.  The walk keeps two
things: the conditions of the joins planned so far are in scope one after the
other, and every label that a layout mentions is among those given out.  Hence
the outputs, predicates and sort keys that are read off a finished layout are in
the scope of the statement that carries its joins.
-/

namespace NestedQuery

variable {schema : Schema}

/-! ### Orderings -/

/-- The sort key of a column has the given qualifier. -/
theorem SortSpec.key?_qualifier {qualifier column : String} {spec : SortSpec} {key : SortKey}
    (h : spec.key? qualifier column = some key) : key.column = ⟨qualifier, column⟩ := by
  cases spec <;> cases h <;> rfl

/-- The sort keys of an ordering are in scope if the qualifier of its table and the labels of the
joined tables are. -/
theorem sortKeys_scoped {table qualifier : String} {order : Option SortRequest}
    {joined : JoinedTables} {scope : List String} (hqualifier : qualifier ∈ scope)
    (hjoined : tablesWithin joined scope) :
    ∀ key ∈ schema.sortKeys table qualifier order joined, key.column.qualifier ∈ scope := by
  intro key hkey
  unfold Schema.sortKeys at hkey
  split at hkey
  · obtain ⟨entry, -, hkey⟩ := List.mem_flatMap.mp hkey
    obtain ⟨⟨name, spec⟩, -, hkey⟩ := List.mem_flatMap.mp hkey
    simp only [Schema.keySortKeys] at hkey
    split at hkey
    · rw [SortSpec.key?_qualifier (Option.mem_toList.mp hkey)]
      exact hqualifier
    · split at hkey
      · next under entry hunder =>
          have hlabel := (JoinedTable.within_iff.mp (within_of_lookup hjoined hunder)).1
          split at hkey
          · obtain ⟨⟨column, inner⟩, -, hkey⟩ := List.mem_filterMap.mp hkey
            simp only at hkey
            split at hkey
            · rw [SortSpec.key?_qualifier hkey]
              exact hlabel
            · cases hkey
          · cases hkey
      · cases hkey
  · cases hkey

/-! ### Joins -/

/-- The qualifiers of a base table and of the joins planned for it. -/
def Planner.scope (planner : Planner) (base : String) : List String :=
  base :: planner.joins.map (·.label)

/-- The conditions of the planned joins are in scope one after the other. -/
def Planner.Linked (planner : Planner) (base : String) : Prop :=
  joinsScoped (planner.joins.map PlannedJoin.clause) [base] []

/-- Joins are in scope one after the other if the first of them are, and the others behind them. -/
theorem joinsScoped_append {first others : List Join} {own outer : List String} :
    joinsScoped (first ++ others) own outer ↔
      joinsScoped first own outer ∧ joinsScoped others (own ++ first.map (·.label)) outer := by
  induction first generalizing own with
  | nil => simp [joinsScoped]
  | cons join rest ih =>
      obtain ⟨kind, table, label, on⟩ := join
      rw [List.cons_append, joinsScoped, joinsScoped, ih, List.map_cons, and_assoc]
      simp only [List.append_assoc, List.cons_append, List.nil_append]

/-- A relation that is not joined changes nothing; one that is joined leads from a known
qualifier, and its label is the only new one. -/
theorem Planner.add_cases (planner : Planner) (schema : Schema) (table source name : String)
    (kind : JoinKind) :
    (joinable? schema table name = none ∧
      planner.add schema table source name kind = (none, planner)) ∨
    ∃ relation, joinable? schema table name = some relation ∧
      let join : PlannedJoin :=
        { relation, name, source, label := name ++ "_" ++ toString (planner.count + 1), kind }
      planner.add schema table source name kind =
        (some join, { count := planner.count + 1, joins := planner.joins ++ [join] }) := by
  unfold Planner.add
  cases joinable? schema table name with
  | none => exact Or.inl ⟨rfl, rfl⟩
  | some relation => exact Or.inr ⟨relation, rfl, rfl⟩

/-- One more join from a known qualifier keeps the conditions in scope. -/
theorem Planner.Linked.add {planner : Planner} {base : String} (h : planner.Linked base)
    {join : PlannedJoin} (hsource : join.source ∈ planner.scope base) (count : Nat) :
    Planner.Linked { count, joins := planner.joins ++ [join] } base := by
  have hlabels : [base] ++ (planner.joins.map PlannedJoin.clause).map (·.label) =
      planner.scope base := by
    rw [List.map_map]
    rfl
  unfold Planner.Linked
  rw [List.map_append, joinsScoped_append, hlabels]
  refine ⟨h, ?_⟩
  rw [List.map_singleton, PlannedJoin.clause, joinsScoped, joinsScoped, PlannedJoin.on]
  simp only [Expr.Scoped, Expr.col]
  refine ⟨⟨?_, ?_⟩, trivial⟩
  · simp [hsource]
  · simp

/-! ### Layouts -/

mutual

/-- The qualifiers of the tables of a layout are in scope. -/
def Layout.Within : Layout → List String → Prop
  | ⟨_, qualifier, _, _, _, _, _, _, relations, _⟩, scope =>
    qualifier ∈ scope ∧ branchesWithin relations scope

/-- The qualifiers of all joined tables are in scope. -/
def branchesWithin : List (JoinedBranchOf Layout) → List String → Prop
  | [], _ => True
  | ⟨_, _, _, layout⟩ :: rest, scope => layout.Within scope ∧ branchesWithin rest scope

end

mutual

/-- A layout within a scope is within every wider one. -/
theorem Layout.Within.mono : ∀ {layout : Layout} {scope wider : List String},
    layout.Within scope → scope ⊆ wider → layout.Within wider
  | ⟨_, _, _, _, _, _, _, _, _, _⟩, scope, wider, h, hwider => by
      rw [Layout.Within] at h ⊢
      exact ⟨hwider h.1, branchesWithin_mono h.2 hwider⟩

/-- So are its joined relations. -/
theorem branchesWithin_mono : ∀ {branches : List (JoinedBranchOf Layout)}
    {scope wider : List String}, branchesWithin branches scope → scope ⊆ wider →
      branchesWithin branches wider
  | [], _, _, _, _ => by
      rw [branchesWithin]
      trivial
  | ⟨_, _, _, _⟩ :: _, scope, wider, h, hwider => by
      rw [branchesWithin] at h ⊢
      exact ⟨h.1.mono hwider, branchesWithin_mono h.2 hwider⟩

end

/-- What planning keeps and reaches: the conditions stay in scope, labels that were known stay
known. -/
structure Planner.Extends (before after : Planner) (base : String) : Prop where
  linked : after.Linked base
  known : before.scope base ⊆ after.scope base

/-- Planning that goes on twice goes on. -/
theorem Planner.Extends.trans {one two three : Planner} {base : String}
    (h : one.Extends two base) (hnext : two.Extends three base) : one.Extends three base :=
  ⟨hnext.linked, List.Subset.trans h.known hnext.known⟩

/-- Planning one more join keeps what there was and makes its label known. -/
theorem Planner.Linked.extends_add {planner : Planner} {base : String} (h : planner.Linked base)
    (join : PlannedJoin) (hsource : join.source ∈ planner.scope base) (count : Nat) :
    let next : Planner := { count, joins := planner.joins ++ [join] }
    planner.Extends next base ∧ join.label ∈ next.scope base := by
  refine ⟨⟨h.add hsource count, ?_⟩, ?_⟩
  · refine List.cons_subset_cons base ?_
    rw [List.map_append]
    exact List.subset_append_left _ _
  · simp [Planner.scope]

mutual

/-- Planning a shape under a known qualifier keeps the joins in scope, and the layout is within the
labels given out then.  Planning a relation first adds its join, whose source is known, then plans
beneath its label, then the relations after it; each step only adds labels, so what was planned
stays in scope. -/
theorem Shape.plan_within : ∀ (shape : Shape) (table qualifier lead : String)
    (extra : List String) (planner : Planner) {base : String}, planner.Linked base →
      qualifier ∈ planner.scope base →
      planner.Extends (shape.plan schema table qualifier lead extra planner).2 base ∧
        (shape.plan schema table qualifier lead extra planner).1.Within
          ((shape.plan schema table qualifier lead extra planner).2.scope base)
  | ⟨fields, _, relations⟩, table, qualifier, lead, extra, planner, base, h, hqualifier => by
      obtain ⟨hextends, hwithin⟩ :=
        planBranches_within relations table qualifier lead planner h hqualifier
      rw [Shape.plan]
      refine ⟨hextends, ?_⟩
      rw [Layout.Within]
      exact ⟨hextends.known hqualifier, hwithin⟩

/-- So does planning several relations. -/
theorem planBranches_within : ∀ (relations : List (String × BranchOf Shape))
    (table qualifier lead : String) (planner : Planner) {base : String}, planner.Linked base →
      qualifier ∈ planner.scope base →
      planner.Extends (planBranches schema relations table qualifier lead planner).2 base ∧
        branchesWithin (planBranches schema relations table qualifier lead planner).1.joined
          ((planBranches schema relations table qualifier lead planner).2.scope base)
  | [], table, qualifier, lead, planner, base, h, hqualifier => by
      rw [planBranches, branchesWithin]
      exact ⟨⟨h, List.Subset.refl _⟩, trivial⟩
  | (name, ⟨shape, filter, orderBy, take, skip, distinct, joinKind⟩) :: rest,
      table, qualifier, lead, planner, base, h, hqualifier => by
      rw [planBranches]
      rcases planner.add_cases schema table qualifier name joinKind with
        ⟨-, hadd⟩ | ⟨relation, -, hadd⟩
      · obtain ⟨hextends, hwithin⟩ :=
          planBranches_within rest table qualifier lead planner h hqualifier
        simp only [hadd]
        split <;> exact ⟨hextends, hwithin⟩
      · simp only [hadd]
        obtain ⟨hadded, hlabel⟩ := h.extends_add
          ⟨relation, name, qualifier, name ++ "_" ++ toString (planner.count + 1), joinKind⟩
          hqualifier (planner.count + 1)
        obtain ⟨hplanned, hlayout⟩ := Shape.plan_within shape relation.target
          (name ++ "_" ++ toString (planner.count + 1)) (lead ++ name ++ "_") (distinct.getD []) _
          hadded.linked hlabel
        have hsofar := hadded.trans hplanned
        obtain ⟨hrest, hothers⟩ :=
          planBranches_within rest table qualifier lead _ hsofar.linked (hsofar.known hqualifier)
        refine ⟨hsofar.trans hrest, ?_⟩
        rw [branchesWithin]
        exact ⟨hlayout.mono hrest.known, hothers⟩

end

mutual

/-- Naming outputs leaves qualifiers alone. -/
theorem Layout.Within.nameOutputs : ∀ {layout : Layout} {scope : List String} (taken : List String),
    layout.Within scope → (layout.nameOutputs taken).1.Within scope
  | ⟨_, _, _, _, _, _, _, _, relations, _⟩, scope, taken, h => by
      rw [Layout.Within] at h
      rw [Layout.nameOutputs, Layout.Within]
      exact ⟨h.1, branchesWithin_nameOutputs _ h.2⟩

/-- Naming outputs keeps joined relations within the scope. -/
theorem branchesWithin_nameOutputs : ∀ {branches : List (JoinedBranchOf Layout)}
    {scope : List String} (taken : List String), branchesWithin branches scope →
      branchesWithin (nameBranchOutputs branches taken).1 scope
  | [], _, _, _ => by
      rw [nameBranchOutputs, branchesWithin]
      trivial
  | ⟨_, _, _, _⟩ :: _, scope, taken, h => by
      rw [branchesWithin] at h
      rw [nameBranchOutputs, branchesWithin]
      exact ⟨h.1.nameOutputs _, branchesWithin_nameOutputs _ h.2⟩

end

mutual

/-- The joined tables of a layout have the qualifiers of the layout. -/
theorem Layout.Within.joinedTables : ∀ {layout : Layout} {scope : List String},
    layout.Within scope → tablesWithin layout.joinedTables scope
  | ⟨_, _, _, _, _, _, _, _, _, _⟩, scope, h => by
      rw [Layout.Within] at h
      rw [Layout.joinedTables]
      exact branchTables_within h.2

/-- Joined relations within a scope join tables with labels in it. -/
theorem branchTables_within : ∀ {branches : List (JoinedBranchOf Layout)} {scope : List String},
    branchesWithin branches scope → tablesWithin (branchTables branches) scope
  | [], _, _ => by
      rw [branchTables, tablesWithin]
      trivial
  | ⟨_, _, _, ⟨_, _, _, _, _, _, _, _, _, _⟩⟩ :: _, scope, h => by
      rw [branchesWithin] at h
      rw [branchTables, tablesWithin, JoinedTable.Within]
      have hqualifier := h.1
      rw [Layout.Within] at hqualifier
      exact ⟨⟨hqualifier.1, h.1.joinedTables⟩, branchTables_within h.2⟩

end

mutual

/-- The outputs of a layout are columns of its qualifiers. -/
theorem Layout.Within.projection : ∀ {layout : Layout} {scope : List String},
    layout.Within scope → ∀ output ∈ layout.projection,
      ∃ ref label, output = .column ref label ∧ ref.qualifier ∈ scope
  | ⟨_, _, _, _, _, _, _, _, _, _⟩, scope, h, output, houtput => by
      rw [Layout.Within] at h
      rw [Layout.projection] at houtput
      rcases List.mem_append.mp houtput with hown | hbeneath
      · obtain ⟨⟨column, name⟩, -, rfl⟩ := List.mem_map.mp hown
        exact ⟨_, _, rfl, h.1⟩
      · exact branchProjections_within h.2 output hbeneath

/-- Their outputs are columns with qualifiers in the scope. -/
theorem branchProjections_within : ∀ {branches : List (JoinedBranchOf Layout)}
    {scope : List String}, branchesWithin branches scope →
      ∀ output ∈ branchProjections branches,
        ∃ ref label, output = .column ref label ∧ ref.qualifier ∈ scope
  | [], _, _, output, houtput => by
      rw [branchProjections] at houtput
      cases houtput
  | ⟨_, _, _, _⟩ :: _, scope, h, output, houtput => by
      rw [branchesWithin] at h
      rw [branchProjections] at houtput
      rcases List.mem_append.mp houtput with hfirst | hrest
      · exact h.1.projection output hfirst
      · exact branchProjections_within h.2 output hrest

end

/-- The predicates and sort keys that joined relations bring along are in scope. -/
structure BranchClauses.Within (clauses : BranchClauses) (scope : List String) : Prop where
  predicates : ∀ part ∈ clauses.predicates, part.Scoped scope
  keys : ∀ key ∈ clauses.keys, key.column.qualifier ∈ scope

/-- Clauses within a scope may be put together. -/
theorem BranchClauses.Within.append {one other : BranchClauses} {scope : List String}
    (hone : one.Within scope) (hother : other.Within scope) : (one.append other).Within scope :=
  ⟨fun part hpart => (List.mem_append.mp hpart).elim (hone.predicates part)
      (hother.predicates part),
    fun key hkey => (List.mem_append.mp hkey).elim (hone.keys key) (hother.keys key)⟩

theorem BranchClauses.within_empty (scope : List String) : BranchClauses.Within {} scope := by
  constructor
  · intro part hpart
    cases hpart
  · intro key hkey
    cases hkey

mutual

/-- The clauses of a layout are in the scope of its qualifiers. -/
theorem Layout.Within.clauses : ∀ {layout : Layout} {scope : List String} (n : Nat),
    layout.Within scope → (layout.clauses schema n).1.Within scope
  | ⟨_, _, _, _, _, _, _, _, _, _⟩, scope, n, h => by
      rw [Layout.Within] at h
      rw [Layout.clauses]
      exact branchClauses_within n h.2

/-- The clauses that joined relations bring along are within their scope. -/
theorem branchClauses_within : ∀ {branches : List (JoinedBranchOf Layout)} {scope : List String}
    (n : Nat), branchesWithin branches scope →
      (branchClauses schema branches n).1.Within scope
  | [], scope, _, _ => by
      rw [branchClauses]
      exact BranchClauses.within_empty scope
  | ⟨_, _, branch, layout⟩ :: rest, scope, n, h => by
      rw [branchesWithin] at h
      have htables := h.1.joinedTables
      have hqualifier : layout.qualifier ∈ scope := by
        obtain ⟨_, _, _, _, _, _, _, _, _, _⟩ := layout
        have hlayout := h.1
        rw [Layout.Within] at hlayout
        exact hlayout.1
      have hpredicate : filterScoped (schema.predicate? layout.table layout.qualifier
          branch.filter layout.joinedTables n).1 scope :=
        predicate?_scoped hqualifier htables n
      rw [branchClauses]
      refine BranchClauses.Within.append (BranchClauses.Within.append ⟨?_, ?_⟩
        (h.1.clauses _)) (branchClauses_within _ h.2)
      · exact filterScoped_iff.mp hpredicate
      · exact sortKeys_scoped hqualifier htables

end

end NestedQuery
