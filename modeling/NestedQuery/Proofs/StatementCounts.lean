import Mathlib.Algebra.GroupWithZero.Nat
import NestedQuery.Engine.Find
import NestedQuery.Proofs.Planning

/-!
# How many statements a request asks

A request asks one base statement.  Every relation that is not joined takes one
more, and a relation through a junction table takes another one for its links:
no matter how many records there are, since the related rows of all owners of a
level are asked for together.  The bound is on the dialogue itself, so it holds
whoever answers it.
-/

namespace NestedQuery

/-! ### Dialogues of bounded length -/

namespace Load

variable {α β ι : Type}

/-- Whatever rows answer its statements, the dialogue asks at most so many of them. -/
def AsksAtMost : Load α → Nat → Prop
  | .done _, _ => True
  | .fail _, _ => True
  | .ask _ _, 0 => False
  | .ask _ next, n + 1 => ∀ rows, (next rows).AsksAtMost n

theorem asksAtMost_pure (result : α) (n : Nat) : (pure result : Load α).AsksAtMost n := trivial

/-- A single statement is one at most. -/
theorem asksAtMost_query (statement : Select) : (query statement).AsksAtMost 1 :=
  fun rows => asksAtMost_pure rows 0

/-- What asks no more than some number asks no more than a greater one. -/
theorem AsksAtMost.mono {load : Load α} {m n : Nat} (h : load.AsksAtMost m) (hle : m ≤ n) :
    load.AsksAtMost n := by
  induction load generalizing m n with
  | done result => trivial
  | fail error => trivial
  | ask statement next ih =>
      cases m with
      | zero => exact h.elim
      | succ m =>
          obtain ⟨n, rfl⟩ : ∃ k, n = k + 1 := ⟨n - 1, by omega⟩
          exact fun rows => ih rows (h rows) (by omega)

/-- The numbers of statements of a dialogue and of what goes on with its result add up. -/
theorem AsksAtMost.bind {load : Load α} {next : α → Load β} {m n : Nat} (h : load.AsksAtMost m)
    (hnext : ∀ result, (next result).AsksAtMost n) : (load >>= next).AsksAtMost (m + n) := by
  induction load generalizing m with
  | done result => exact (hnext result).mono (Nat.le_add_left n m)
  | fail error => trivial
  | ask statement rest ih =>
      cases m with
      | zero => exact h.elim
      | succ m =>
          rw [Nat.succ_add]
          exact fun rows => ih rows (h rows)

/-- So do those of several dialogues in turn. -/
theorem asksAtMost_sequence_map (dialogue : ι → Load α) (bound : ι → Nat) {items : List ι}
    (h : ∀ item ∈ items, (dialogue item).AsksAtMost (bound item)) :
    (sequence (items.map dialogue)).AsksAtMost (items.map bound).sum := by
  induction items with
  | nil => trivial
  | cons first rest ih =>
      rw [List.map_cons, List.map_cons, List.sum_cons]
      refine (h first List.mem_cons_self).bind fun result => ?_
      have hrest := ih fun item hitem => h item (List.mem_cons_of_mem _ hitem)
      exact hrest.bind (n := 0) fun results => asksAtMost_pure _ 0

/-- The bound is one on the log, with any source and from any state of it. -/
theorem AsksAtMost.hold_length {σ : Type} {load : Load α} {n : Nat} (h : load.AsksAtMost n)
    (source : Source σ) (state : σ) : (load.hold source state).log.length ≤ n := by
  induction load generalizing n state with
  | done result => exact Nat.zero_le n
  | fail error => exact Nat.zero_le n
  | ask statement next ih =>
      cases n with
      | zero => exact h.elim
      | succ n =>
          rw [hold]
          rcases source statement state with ⟨answer, after⟩
          cases answer with
          | ok rows => exact Nat.succ_le_succ (ih rows (h rows) after)
          | error error => exact Nat.succ_le_succ (Nat.zero_le n)

end Load

/-! ### The relations of a tree -/

variable (schema : Schema)

/-- The known relations of a table among those of one level. -/
def levelRelations (table : String) (branches : Branches) : List Relation :=
  (knownBranches schema table branches).map (·.2.2)

mutual

/-- The relations of a tree, one for each node at any depth: those of the first level, then those
beneath them. -/
def Shape.nodes : Shape → String → List Relation
  | ⟨_, _, relations⟩, table =>
    levelRelations schema table relations ++ nodesBeneath relations table

/-- The relations beneath those of one level. -/
def nodesBeneath : List (String × BranchOf Shape) → String → List Relation
  | [], _ => []
  | (name, ⟨shape, _, _, _, _, _, _⟩) :: rest, table =>
    match schema.relation? table name with
    | none => nodesBeneath rest table
    | some relation => shape.nodes relation.target ++ nodesBeneath rest table

end

/-- The relations of several branches of a table, at any depth. -/
def branchNodes (table : String) (branches : Branches) : List Relation :=
  levelRelations schema table branches ++ nodesBeneath schema branches table

mutual

/-- The relations that a layout leaves for afterwards, with all beneath them. -/
def Layout.looseNodes : Layout → List Relation
  | ⟨table, _, _, _, _, _, _, _, relations, deferred⟩ =>
    branchNodes schema table deferred ++ looseBranchNodes relations

/-- Those that the layouts of joined relations leave for afterwards. -/
def looseBranchNodes : List (JoinedBranchOf Layout) → List Relation
  | [] => []
  | ⟨_, _, _, layout⟩ :: rest => layout.looseNodes ++ looseBranchNodes rest

end

/-- The statements that relations take by themselves: one each, and one more for each that leads
through a junction table. -/
def followUps (relations : List Relation) : Nat :=
  relations.length + relations.countP (·.junction.isSome)

/-- Relations take the follow-up statements of each. -/
theorem followUps_append (some others : List Relation) :
    followUps (some ++ others) = followUps some + followUps others := by
  rw [followUps, followUps, followUps, List.length_append, List.countP_append]
  omega

/-- So they take as many as one by one together. -/
theorem followUps_eq_sum (relations : List Relation) :
    followUps relations = (relations.map fun relation => followUps [relation]).sum := by
  induction relations with
  | nil => rfl
  | cons relation rest ih =>
      rw [List.map_cons, List.sum_cons, ← ih, ← followUps_append, List.singleton_append]

/-! ### Follow-up statements -/

variable {schema}

/-- The related rows of one relation take one statement, or two through a junction table. -/
theorem fetch_asksAtMost (relation : Relation) (branch : Branch) (keys : List Value) :
    (fetch schema relation branch keys).AsksAtMost (followUps [relation]) := by
  have hrows : ∀ (target : Table) (keys : List Value) (read : List Row → List Related),
      (Load.query (relatedStatement schema target branch relation.toColumn keys) >>=
        fun rows => pure (read rows)).AsksAtMost 1 :=
    fun target keys read =>
      (Load.asksAtMost_query _).bind (n := 0) fun rows => Load.asksAtMost_pure _ 0
  unfold fetch
  split
  · exact Load.asksAtMost_pure _ _
  · split
    · next junction hjunction =>
        have htwo : followUps [relation] = 1 + 1 := by
          simp [followUps, hjunction]
        rw [htwo]
        unfold fetchLinked
        refine (Load.asksAtMost_query _).bind fun links => ?_
        dsimp only
        split
        · exact Load.asksAtMost_pure _ _
        · split
          · exact Load.asksAtMost_pure _ _
          · exact hrows _ _ _
    · next hdirect =>
        have hone : followUps [relation] = 1 := by
          simp [followUps, hdirect]
        rw [hone]
        unfold fetchDirect
        split
        · exact Load.asksAtMost_pure _ _
        · exact hrows _ _ _

/-- Fetching a level takes the follow-up statements of its relations. -/
theorem fetchLevel_asksAtMost (table : String) (branches : Branches) (owners : List Record) :
    (fetchLevel schema table branches owners).AsksAtMost
      (followUps (levelRelations schema table branches)) := by
  rw [followUps_eq_sum, levelRelations, List.map_map]
  exact Load.asksAtMost_sequence_map _ _ fun item _ => fetch_asksAtMost item.2.2 item.2.1 _

mutual

/-- Attaching what was fetched takes the statements for the relations beneath, each once for all
records of its level. -/
theorem attachLevel_asksAtMost : ∀ (table : String) (branches : List (String × BranchOf Shape))
    (fetched : List (List Related)), (attachLevel schema table branches fetched).AsksAtMost
      (followUps (nodesBeneath schema branches table))
  | table, [], fetched => by
      rw [attachLevel]
      exact Load.asksAtMost_pure _ _
  | table, (name, ⟨shape, filter, orderBy, take, skip, distinct, joinKind⟩) :: rest, fetched => by
      rw [attachLevel.eq_def, nodesBeneath]
      dsimp only
      split
      · next hunknown =>
          rw [hunknown]
          exact attachLevel_asksAtMost table rest _
      · exact Load.asksAtMost_pure _ _
      · next relation related others hknown =>
          rw [hknown, followUps_append]
          refine (finishRelated_asksAtMost relation.target shape related).bind fun finished => ?_
          exact (attachLevel_asksAtMost table rest others).bind (n := 0) fun more =>
            Load.asksAtMost_pure _ 0

/-- Finishing related records takes those of all relations beneath. -/
theorem finishRelated_asksAtMost : ∀ (table : String) (shape : Shape) (related : List Related),
    (finishRelated schema table shape related).AsksAtMost (followUps (shape.nodes schema table))
  | table, ⟨fields, _, relations⟩, related => by
      rw [finishRelated, Shape.nodes, followUps_append]
      refine (fetchLevel_asksAtMost table relations _).bind fun fetched => ?_
      exact (attachLevel_asksAtMost table relations fetched).bind (n := 0) fun load =>
        Load.asksAtMost_pure _ 0

end

/-- So does loading relations into records. -/
theorem loadBranches_asksAtMost (table : String) (branches : Branches) (owners : List Record) :
    (loadBranches schema table branches owners).AsksAtMost
      (followUps (branchNodes schema table branches)) := by
  rw [branchNodes, followUps_append]
  exact (fetchLevel_asksAtMost table branches owners).bind fun fetched =>
    attachLevel_asksAtMost table branches fetched

mutual

/-- Loading what could not be joined takes the statements for the relations left over. -/
theorem loadDeferred_asksAtMost : ∀ (layout : Layout) (records : List Record),
    (layout.loadDeferred schema records).AsksAtMost (followUps (layout.looseNodes schema))
  | ⟨table, _, _, _, _, _, _, _, relations, deferred⟩, records => by
      rw [Layout.loadDeferred, Layout.looseNodes, followUps_append]
      refine (loadBranches_asksAtMost table deferred records).bind fun here => ?_
      exact (loadDeferredBranches_asksAtMost relations _).bind (n := 0) fun beneath =>
        Load.asksAtMost_pure _ 0

/-- Loading what was put off beneath joined relations takes those of all that is not joined. -/
theorem loadDeferredBranches_asksAtMost : ∀ (branches : List (JoinedBranchOf Layout))
    (records : List Record), (loadDeferredBranches schema branches records).AsksAtMost
      (followUps (looseBranchNodes schema branches))
  | [], records => by
      rw [loadDeferredBranches]
      exact Load.asksAtMost_pure _ _
  | ⟨name, _, _, layout⟩ :: rest, records => by
      rw [loadDeferredBranches, looseBranchNodes, followUps_append]
      refine (loadDeferred_asksAtMost layout _).bind fun change => ?_
      exact (loadDeferredBranches_asksAtMost rest records).bind (n := 0) fun more =>
        Load.asksAtMost_pure _ 0

end

/-! ### Joined or left over -/

/-- An unknown relation is no node. -/
theorem branchNodes_unknown {table name : String} (h : schema.relation? table name = none)
    (branch : Branch) (rest : Branches) :
    branchNodes schema table ((name, branch) :: rest) = branchNodes schema table rest := by
  have hlevel : levelRelations schema table ((name, branch) :: rest) =
      levelRelations schema table rest := by
    simp only [levelRelations, knownBranches, List.filterMap_cons, h, Option.map_none]
  rw [branchNodes, branchNodes, hlevel, nodesBeneath, h]

/-- A known one is a node with its own nodes beneath it. -/
theorem branchNodes_known {table name : String} {relation : Relation}
    (h : schema.relation? table name = some relation) (branch : Branch) (rest : Branches) :
    (branchNodes schema table ((name, branch) :: rest)).Perm
      (relation :: (branch.shape.nodes schema relation.target ++
        branchNodes schema table rest)) := by
  have hlevel : levelRelations schema table ((name, branch) :: rest) =
      relation :: levelRelations schema table rest := by
    simp only [levelRelations, knownBranches, List.filterMap_cons, h, Option.map_some,
      List.map_cons]
  rw [branchNodes, branchNodes, hlevel, nodesBeneath, h]
  exact (List.perm_append_comm_assoc _ _ _).cons relation

/-- A relation that is left over with its tree, added to a level that is split. -/
theorem perm_of_left_over {relation : Relation}
    {tree added left leftover joined level : List Relation}
    (hleft : leftover.Perm (relation :: (tree ++ left)))
    (hlevel : (added ++ (left ++ joined)).Perm level) :
    (added ++ (leftover ++ joined)).Perm (relation :: (tree ++ level)) := by
  simp only [List.perm_iff_count, List.count_append, List.count_cons] at hleft hlevel ⊢
  intro one
  have hone := hleft one
  have hothers := hlevel one
  omega

/-- A relation that is joined and whose tree is split, added to a level that is split. -/
theorem perm_of_joined (relation : Relation)
    {tree beneath loose added left joined level : List Relation}
    (htree : (beneath ++ loose).Perm tree) (hlevel : (added ++ (left ++ joined)).Perm level) :
    (relation :: (beneath ++ added) ++ (left ++ (loose ++ joined))).Perm
      (relation :: (tree ++ level)) := by
  simp only [List.perm_iff_count, List.count_append, List.count_cons] at htree hlevel ⊢
  intro one
  have hbelow := htree one
  have hothers := hlevel one
  omega

/-- The relations of a tree are those that a plan adds to its joins, and those left over. -/
def Planner.Splits (planner next : Planner) (loose nodes : List Relation) : Prop :=
  ∃ added, next.joins = planner.joins ++ added ∧
    (added.map (·.relation) ++ loose).Perm nodes

mutual

/-- A plan joins every relation of a tree or leaves it over. -/
theorem Shape.plan_splits : ∀ (shape : Shape) (table qualifier lead : String)
    (extra : List String) (planner : Planner),
    let plan := shape.plan schema table qualifier lead extra planner
    planner.Splits plan.2 (plan.1.looseNodes schema) (shape.nodes schema table)
  | ⟨fields, _, relations⟩, table, qualifier, lead, extra, planner => by
      rw [Shape.plan]
      dsimp only
      rw [Layout.looseNodes, Shape.nodes]
      exact planBranches_splits relations table qualifier lead planner

/-- Planning the relations of a table splits their nodes.  What is not joined is left over, with all
beneath it, if it is known at all; what is joined brings the joins beneath it, and leaves over what
these leave over. -/
theorem planBranches_splits : ∀ (branches : List (String × BranchOf Shape))
    (table qualifier lead : String) (planner : Planner),
    let plan := planBranches schema branches table qualifier lead planner
    planner.Splits plan.2
      (branchNodes schema table plan.1.deferred ++ looseBranchNodes schema plan.1.joined)
      (branchNodes schema table branches)
  | [], table, qualifier, lead, planner => by
      rw [planBranches]
      exact ⟨[], (List.append_nil _).symm, .refl _⟩
  | (name, ⟨shape, filter, orderBy, take, skip, distinct, joinKind⟩) :: rest,
      table, qualifier, lead, planner => by
      rw [planBranches]
      rcases planner.add_cases schema table qualifier name joinKind with
        ⟨-, hadd⟩ | ⟨relation, hjoinable, hadd⟩
      · simp only [hadd]
        obtain ⟨added, hjoins, hperm⟩ := planBranches_splits rest table qualifier lead planner
        cases hknown : schema.relation? table name with
        | none =>
            rw [branchNodes_unknown hknown]
            exact ⟨added, hjoins, hperm⟩
        | some relation =>
            have hleft := branchNodes_known hknown
              ⟨shape, filter, orderBy, take, skip, distinct, joinKind⟩
              (planBranches schema rest table qualifier lead planner).1.deferred
            have hall := branchNodes_known hknown
              ⟨shape, filter, orderBy, take, skip, distinct, joinKind⟩ rest
            exact ⟨added, hjoins, (perm_of_left_over hleft hperm).trans hall.symm⟩
      · have hknown := (joinable?_eq_some hjoinable).1
        simp only [hadd]
        let label := name ++ "_" ++ toString (planner.count + 1)
        let join : PlannedJoin := ⟨relation, name, qualifier, label, joinKind⟩
        let joined : Planner := { count := planner.count + 1, joins := planner.joins ++ [join] }
        let plan := shape.plan schema relation.target label (lead ++ name ++ "_")
          (distinct.getD []) joined
        obtain ⟨beneath, hbeneath, hshape⟩ : joined.Splits plan.2 (plan.1.looseNodes schema)
            (shape.nodes schema relation.target) :=
          Shape.plan_splits shape relation.target label _ _ joined
        obtain ⟨added, hadded, hrest⟩ := planBranches_splits rest table qualifier lead plan.2
        refine ⟨join :: (beneath ++ added), ?_, ?_⟩
        · rw [hadded, hbeneath, List.append_assoc, List.append_assoc]
          rfl
        · have hall := branchNodes_known hknown
            ⟨shape, filter, orderBy, take, skip, distinct, joinKind⟩ rest
          rw [List.map_cons, List.map_append]
          exact (perm_of_joined relation hshape hrest).trans hall.symm

end

mutual

/-- Naming outputs leaves over the same relations. -/
theorem Layout.looseNodes_nameOutputs : ∀ (layout : Layout) (taken : List String),
    (layout.nameOutputs taken).1.looseNodes schema = layout.looseNodes schema
  | ⟨table, qualifier, lead, fields, columns, _, key, _, relations, deferred⟩, taken => by
      rw [Layout.nameOutputs, Layout.looseNodes, Layout.looseNodes]
      exact congrArg _ (looseBranchNodes_nameOutputs relations _)

/-- Naming outputs does not change what is left over. -/
theorem looseBranchNodes_nameOutputs : ∀ (branches : List (JoinedBranchOf Layout))
    (taken : List String),
    looseBranchNodes schema (nameBranchOutputs branches taken).1 = looseBranchNodes schema branches
  | [], taken => rfl
  | ⟨name, isToMany, branch, layout⟩ :: rest, taken => by
      rw [nameBranchOutputs, looseBranchNodes, looseBranchNodes, layout.looseNodes_nameOutputs,
        looseBranchNodes_nameOutputs rest]

end

/-- The relations of a shape are those that the plan for a base table joins, and those that its
layout leaves over. -/
theorem Shape.layout_splits (shape : Shape) (table : String) (extra : List String) :
    let plan := shape.layout schema table extra
    (plan.2.joins.map (·.relation) ++ plan.1.looseNodes schema).Perm
      (shape.nodes schema table) := by
  obtain ⟨added, hjoins, hperm⟩ := @Shape.plan_splits schema shape table table "" extra {}
  rw [List.nil_append] at hjoins
  rw [Shape.layout]
  dsimp only
  rw [Layout.looseNodes_nameOutputs, hjoins]
  exact hperm

/-! ### Requests -/

namespace Engine

/-- The relations that the base statement of a request joins: none under the query strategy, else
those of the plan. -/
def joinedRelations (engine : Engine) (table : String) (args : FindArgs) : List Relation :=
  match engine.schema.table? table with
  | none => []
  | some known =>
    if args.strategy.getD engine.settings.strategy = .join then
      ((engine.schema.shape table args.selected args.included args.omitted).layout engine.schema
        table (known.distinctColumns args.distinct)).2.joins.map (·.relation)
    else []

/-- A joined statement and what loads the rest. -/
theorem findJoined_asksAtMost (engine : Engine) (table : Table) (args : FindArgs)
    (paging : Paging) (layout : Layout) (planner : Planner) :
    (engine.findJoined table args paging layout planner).AsksAtMost
      (1 + followUps (layout.looseNodes engine.schema)) :=
  (Load.asksAtMost_query _).bind fun _ =>
    (loadDeferred_asksAtMost layout _).bind (n := 0) fun _ => Load.asksAtMost_pure _ 0

/-- A base statement and what loads every relation. -/
theorem findSeparately_asksAtMost (engine : Engine) (table : Table) (args : FindArgs)
    (paging : Paging) (shape : Shape) :
    (engine.findSeparately table args paging shape).AsksAtMost
      (1 + followUps (shape.nodes engine.schema table.name)) := by
  obtain ⟨fields, excluded, relations⟩ := shape
  exact (Load.asksAtMost_query _).bind fun rows =>
    (loadBranches_asksAtMost table.name relations _).bind (n := 0) fun load =>
      Load.asksAtMost_pure _ 0

end Engine

/-- The dialogue that finds records of a known table is bounded by the relations that the base
statement leaves over. -/
theorem findMany_asksAtMost (engine : Engine) (h : engine.schema.Consistent) {table : String}
    {known : Table} (hknown : engine.schema.table? table = some known) (args : FindArgs) :
    ∃ loose, (engine.joinedRelations table args ++ loose).Perm
        ((engine.schema.shape table args.selected args.included args.omitted).nodes
          engine.schema table) ∧
      (engine.findMany table args).AsksAtMost (1 + followUps loose) := by
  have hname : known.name = table := h.table_name hknown
  unfold Engine.findMany Engine.joinedRelations
  rw [hknown]
  dsimp only
  generalize engine.schema.shape table args.selected args.included args.omitted = shape
  have hsplit := @Shape.layout_splits engine.schema shape table
    (known.distinctColumns args.distinct)
  dsimp only at hsplit
  generalize shape.layout engine.schema table (known.distinctColumns args.distinct) = plan
    at hsplit ⊢
  have hseparate : (engine.findSeparately known args (engine.paging args) shape).AsksAtMost
      (1 + followUps (shape.nodes engine.schema table)) := by
    have hbound := engine.findSeparately_asksAtMost known args (engine.paging args) shape
    rw [hname] at hbound
    exact hbound
  by_cases hstrategy : args.strategy.getD engine.settings.strategy = .join
  · rw [if_pos hstrategy]
    by_cases hjoins : plan.2.joins = []
    · rw [if_neg (by simp [hjoins]), hjoins]
      exact ⟨_, .refl _, hseparate.bind (n := 0) fun _ => Load.asksAtMost_pure _ 0⟩
    · rw [if_pos ⟨hstrategy, by simpa using hjoins⟩]
      exact ⟨_, hsplit, (engine.findJoined_asksAtMost known args _ _ _).bind (n := 0)
        fun _ => Load.asksAtMost_pure _ 0⟩
  · rw [if_neg hstrategy, if_neg fun hjoin => hstrategy hjoin.1]
    exact ⟨_, .refl _, hseparate.bind (n := 0) fun _ => Load.asksAtMost_pure _ 0⟩

/-- **No statement for every record.**  Over a schema that can come about, whoever answers and
however many rows there are, finding records asks one statement, one more for each relation of the
tree that is not joined, and one more for each of those that leads through a junction table: no
more than that.  The relations of the tree are those that the base statement joins, and the
others. -/
theorem findMany_statements {schema : Schema} (h : schema.Reachable) (settings : Settings)
    {σ : Type} (source : Source σ) (state : σ) (table : String) (args : FindArgs) :
    let engine : Engine := { schema, settings }
    let shape := schema.shape table args.selected args.included args.omitted
    let outcome := (engine.findMany table args).hold source state
    ∃ loose, (engine.joinedRelations table args ++ loose).Perm (shape.nodes schema table) ∧
      outcome.log.length ≤ 1 + loose.length + loose.countP (·.junction.isSome) := by
  intro engine shape outcome
  cases hknown : schema.table? table with
  | none =>
      have hjoined : engine.joinedRelations table args = [] := by
        rw [Engine.joinedRelations, show engine.schema.table? table = none from hknown]
      have hfails : engine.findMany table args = .fail (.unknownTable table) := by
        rw [Engine.findMany, show engine.schema.table? table = none from hknown]
      refine ⟨shape.nodes schema table, by rw [hjoined]; exact .refl _, ?_⟩
      simp only [outcome, hfails]
      exact Nat.zero_le _
  | some known =>
      obtain ⟨loose, hperm, hbound⟩ := findMany_asksAtMost engine h.consistent hknown args
      refine ⟨loose, hperm, ?_⟩
      rw [Nat.add_assoc]
      exact hbound.hold_length source state

/-- Of the blog, authors with their posts take at most two statements under the query strategy, and
at most one when the posts are joined, whoever answers. -/
theorem findMany_statements_blog :
    (Schema.ofDecls blogTables).Reachable ∧
      (∀ answers : List Response, ((Engine.findMany ⟨Schema.ofDecls blogTables, {}⟩ "Author"
        { ({} : FindArgs).including "posts" with strategy := some .query }).hold scriptedSource
          answers).log.length ≤ 2) ∧
      ∀ answers : List Response, ((Engine.findMany ⟨Schema.ofDecls blogTables, {}⟩ "Author"
        { ({} : FindArgs).including "posts" with strategy := some .join }).hold scriptedSource
          answers).log.length ≤ 1 := by
  have hnodes : ((Schema.ofDecls blogTables).shape "Author" none
      (({} : FindArgs).including "posts").included none).nodes (Schema.ofDecls blogTables)
        "Author" = [.oneToMany "posts" "Post" "id" "authorId"] := by
    decide +kernel
  have hjoined : Engine.joinedRelations ⟨Schema.ofDecls blogTables, {}⟩ "Author"
      { ({} : FindArgs).including "posts" with strategy := some .join } =
        [.oneToMany "posts" "Post" "id" "authorId"] := by
    decide +kernel
  refine ⟨reachable_blog, fun answers => ?_, fun answers => ?_⟩
  · obtain ⟨loose, hperm, hlength⟩ := findMany_statements reachable_blog {} scriptedSource answers
      "Author" { ({} : FindArgs).including "posts" with strategy := some .query }
    have hloose : loose.Perm [.oneToMany "posts" "Post" "id" "authorId"] :=
      hperm.trans (.of_eq hnodes)
    rw [hloose.length_eq, hloose.countP_eq] at hlength
    exact hlength
  · obtain ⟨loose, hperm, hlength⟩ := findMany_statements reachable_blog {} scriptedSource answers
      "Author" { ({} : FindArgs).including "posts" with strategy := some .join }
    rw [hjoined] at hperm
    have hloose : loose.Perm [] :=
      (List.perm_append_left_iff [.oneToMany "posts" "Post" "id" "authorId"]).mp
        (hperm.trans (.of_eq hnodes))
    rw [hloose.length_eq, hloose.countP_eq] at hlength
    exact hlength

end NestedQuery
