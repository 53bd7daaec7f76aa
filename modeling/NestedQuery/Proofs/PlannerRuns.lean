import NestedQuery.Proofs.JoinedRows

/-!
# Runs of a planner

A planner answers calls: joining one more relation, or forgetting all joins.  A
relation that cannot be joined changes nothing, and after a reset labels are
counted from the start, so the number in a label is the place of its join in the
plan.  Whatever the calls, no two joins have the same label, for a label ends in
its number and a name before it cannot run into the number; and each join
compares the two columns that its relation links, each under the qualifier of
its own table.
-/

namespace NestedQuery

/-- A call on a planner. -/
inductive PlannerCall where
  | add (table source name : String) (kind : JoinKind)
  | clear

/-- The condition of a join compares the linking column of the source with that of the target,
each under its own qualifier: of any rows bound to the two qualifiers it says whether their
values are equal, and is unknown where these do not compare. -/
structure PlannedJoin.LinksOwn (join : PlannedJoin) : Prop where
  on : join.on = .compare (.column ⟨join.source, join.relation.fromColumn⟩) .eq
    (.column ⟨join.label, join.relation.toColumn⟩)
  truth : ∀ (db : Database) (bindings : Bindings) (one other : Option Row),
    bindings.lookup join.source = some one → bindings.lookup join.label = some other →
      join.on.truth db bindings = .ok
        ((((one.bind (·.lookup join.relation.fromColumn)).getD .null).compare
          ((other.bind (·.lookup join.relation.toColumn)).getD .null)).map (· == .eq))

theorem PlannedJoin.linksOwn (join : PlannedJoin) : join.LinksOwn where
  on := rfl
  truth := by
    intro db bindings one other hone hother
    have hleft : bindings.value ⟨join.source, join.relation.fromColumn⟩ =
        .ok ((one.bind (·.lookup join.relation.fromColumn)).getD .null) := by
      rw [Bindings.value, hone]
      rfl
    have hright : bindings.value ⟨join.label, join.relation.toColumn⟩ =
        .ok ((other.bind (·.lookup join.relation.toColumn)).getD .null) := by
      rw [Bindings.value, hother]
      rfl
    have heval : join.on.eval db bindings = .ok (truthValue
        ((((one.bind (·.lookup join.relation.fromColumn)).getD .null).compare
          ((other.bind (·.lookup join.relation.toColumn)).getD .null)).map (· == .eq))) := by
      rw [PlannedJoin.on, Expr.col, Expr.col, Expr.eval, Expr.eval, Expr.eval, hleft, hright]
      rfl
    rw [Expr.truth_ok heval, truth_truthValue]

namespace Planner

variable {schema : Schema}

/-- The planner after a call. -/
def call (schema : Schema) (planner : Planner) : PlannerCall → Planner
  | .add table source name kind => (planner.add schema table source name kind).2
  | .clear => planner.clear

/-- The planner after calls in turn, whether or not some of them are refused. -/
def after (schema : Schema) (planner : Planner) (calls : List PlannerCall) : Planner :=
  calls.foldl (call schema) planner

/-- What the joins of a planner are after some calls: they are as many as the counter says, have
labels of their own, each with the place of its join as the number, and each answers one of the
calls with the relation that the schema has under its name. -/
structure Answers (schema : Schema) (calls : List PlannerCall) (planner : Planner) : Prop where
  counted : planner.joins.length = planner.count
  numbered : planner.Numbered
  placed : ∀ (i : Nat) (h : i < planner.joins.length),
    planner.joins[i].label = planner.joins[i].name ++ "_" ++ toString (i + 1)
  asked : ∀ join ∈ planner.joins, ∃ table,
    .add table join.source join.name join.kind ∈ calls ∧
      joinable? schema table join.name = some join.relation

theorem answers_empty (calls : List PlannerCall) : Answers schema calls {} :=
  ⟨rfl, ⟨fun _ hjoin => (nomatch hjoin), List.nodup_nil⟩, fun _ hi => (nomatch hi),
    fun _ hjoin => (nomatch hjoin)⟩

/-- One call more, refused or not. -/
theorem Answers.call {planner : Planner} {calls : List PlannerCall}
    (h : Answers schema calls planner) (call : PlannerCall) :
    Answers schema (calls ++ [call]) (planner.call schema call) := by
  have hasked : ∀ join ∈ planner.joins, ∃ table,
      .add table join.source join.name join.kind ∈ calls ++ [call] ∧
        joinable? schema table join.name = some join.relation := by
    intro join hjoin
    obtain ⟨table, hmem, hjoinable⟩ := h.asked join hjoin
    exact ⟨table, List.mem_append_left _ hmem, hjoinable⟩
  cases call with
  | clear => exact answers_empty _
  | add table source name kind =>
      rw [Planner.call]
      rcases planner.add_cases schema table source name kind with
        ⟨-, hadd⟩ | ⟨relation, hjoinable, hadd⟩
      · rw [hadd]
        exact ⟨h.counted, h.numbered, h.placed, hasked⟩
      · rw [hadd]
        refine ⟨?_, h.numbered.add rfl, ?_, ?_⟩
        · rw [List.length_append, List.length_singleton, h.counted]
        · intro i hi
          rw [List.length_append, List.length_singleton] at hi
          by_cases hold : i < planner.joins.length
          · simpa only [List.getElem_append_left hold] using h.placed i hold
          · have hlast : i = planner.joins.length := by omega
            subst hlast
            simp only [List.getElem_concat_length, h.counted]
        · intro join hjoin
          rcases List.mem_append.mp hjoin with hold | hnew
          · exact hasked join hold
          · rw [List.mem_singleton.mp hnew]
            exact ⟨table, List.mem_append_right _ (List.mem_singleton_self _), hjoinable⟩

/-- Any calls, one after the other. -/
theorem Answers.after {planner : Planner} {before : List PlannerCall}
    (h : Answers schema before planner) (calls : List PlannerCall) :
    Answers schema (before ++ calls) (planner.after schema calls) := by
  induction calls generalizing planner before with
  | nil =>
      rw [List.append_nil]
      exact h
  | cons call rest ih =>
      have hrest := ih (h.call call)
      rw [List.append_assoc, List.singleton_append] at hrest
      exact hrest

/-- **Runs of a planner.**  After any calls the labels of the planned joins are distinct and as many
as the counter says, each with its place as the number; each join answers one of the calls, by the
relation of that name, and compares the linking columns of this relation under its own two
qualifiers; and joining what cannot be joined changes nothing. -/
theorem labels_apart_after (schema : Schema) (calls : List PlannerCall) :
    let planner := after schema {} calls
    (planner.joins.map (·.label)).Nodup ∧
      (planner.joins.map (·.label)).length = planner.count ∧
      (∀ (i : Nat) (h : i < planner.joins.length),
        planner.joins[i].label = planner.joins[i].name ++ "_" ++ toString (i + 1)) ∧
      (∀ join ∈ planner.joins, join.LinksOwn ∧ ∃ table,
        .add table join.source join.name join.kind ∈ calls ∧
          schema.relation? table join.name = some join.relation) ∧
      ∀ table source name kind, (planner.add schema table source name kind).1 = none →
        (planner.add schema table source name kind).2 = planner := by
  intro planner
  have hanswers : Answers schema calls planner := (answers_empty []).after calls
  refine ⟨hanswers.numbered.nodup, ?_, hanswers.placed, ?_, ?_⟩
  · rw [List.length_map, hanswers.counted]
  · intro join hjoin
    obtain ⟨table, hcall, hjoinable⟩ := hanswers.asked join hjoin
    exact ⟨join.linksOwn, table, hcall, (joinable?_eq_some hjoinable).1⟩
  · intro table source name kind hrefused
    rcases planner.add_cases schema table source name kind with
      ⟨-, hadd⟩ | ⟨relation, -, hadd⟩
    · rw [hadd]
    · rw [hadd] at hrefused
      cases hrefused

end Planner

end NestedQuery
