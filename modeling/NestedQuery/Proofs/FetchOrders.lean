import Mathlib.Algebra.GroupWithZero.Nat
import Mathlib.Logic.Relation
import NestedQuery.Engine.Stages
import NestedQuery.Proofs.Dictionary
import NestedQuery.Proofs.Reachability
import NestedQuery.Proofs.RecordShape

/-!
# Fetches in any order

Where answers depend on statements alone, it does not matter in which order the
fetches of a level are answered.  At any point of loading one can say what it
comes to: what was handed over, then what the other fetches of the level give in
turn, and then what follows.  No step changes this.  Every step brings a fetch
closer to its end, so that loading ends; and it can go on as long as it has not.
Loading side by side therefore ends as loading one after the other does, in the
same result or with the same error.
-/

namespace NestedQuery

variable {schema : Schema} {α β : Type} {answer : Select → Except QueryError (List Row)}
  {room : Nat}

/-! ### What dialogues come to -/

namespace Load

theorem bind_assoc {γ : Type} (load : Load α) (next : α → Load β) (last : β → Load γ) :
    (load >>= next) >>= last = load >>= fun result => next result >>= last := by
  induction load with
  | done result => rfl
  | fail error => rfl
  | ask statement rest ih => exact congrArg (Load.ask statement) (funext fun rows => ih rows)

/-- Dialogues in turn give what each of them gives, up to the first that fails. -/
theorem resultFrom_sequence (loads : List (Load α)) :
    (sequence loads).resultFrom answer = loads.mapM (·.resultFrom answer) := by
  induction loads with
  | nil => rfl
  | cons first rest ih =>
      rw [sequence, resultFrom_bind, List.mapM_cons]
      refine congrArg _ (funext fun result => ?_)
      rw [resultFrom_bind, ih]
      rfl

/-- An answer does not change what a dialogue comes to. -/
theorem resultFrom_answered (load : Load α) :
    (load.answered answer).resultFrom answer = load.resultFrom answer := by
  cases load with
  | done result => rfl
  | fail error => rfl
  | ask statement next =>
      rw [answered, resultFrom]
      cases answer statement <;> rfl

/-- How many answers a dialogue still waits for. -/
def turns (answer : Select → Except QueryError (List Row)) : Load α → Nat
  | .done _ => 0
  | .fail _ => 0
  | .ask statement next =>
    match answer statement with
    | .ok rows => (next rows).turns answer + 1
    | .error _ => 1

/-- An answer is one of them. -/
theorem turns_answered (statement : Select) (next : List Row → Load α) :
    (Load.ask statement next).turns answer =
      ((Load.ask statement next).answered answer).turns answer + 1 := by
  rw [answered, turns]
  cases answer statement <;> rfl

end Load

/-! ### Levels -/

namespace Pool

/-- What a level comes to: what was handed over, and what the other fetches give in turn. -/
def outlook (answer : Select → Except QueryError (List Row)) (pool : Pool) :
    Except QueryError (List (List Related)) := do
  let others ← (pool.underWay ++ pool.waiting).mapM (·.resultFrom answer)
  return pool.handed ++ others

/-- How many steps are left in a level, if no fetch fails. -/
def stepsLeft (answer : Select → Except QueryError (List Row)) (pool : Pool) : Nat :=
  (pool.underWay.map fun load => load.turns answer + 1).sum +
    (pool.waiting.map fun load => load.turns answer + 2).sum

variable {pool after : Pool}

/-- No step changes what a level comes to. -/
theorem Step.outlook_eq (h : pool.Step answer room after) :
    after.outlook answer = pool.outlook answer := by
  unfold outlook
  cases h with
  | setOut hroom => rw [List.append_assoc, List.singleton_append]
  | receive statement next =>
      simp only [List.append_assoc, List.cons_append, List.mapM_append, List.mapM_cons,
        Load.resultFrom_answered]
  | @handOver handed underWay waiting related =>
      rw [List.cons_append, List.mapM_cons, Load.resultFrom]
      cases (underWay ++ waiting).mapM (·.resultFrom answer) with
      | error error => rfl
      | ok others => exact congrArg Except.ok (List.append_assoc _ _ _)

/-- Every step is one of those left. -/
theorem Step.stepsLeft_eq (h : pool.Step answer room after) :
    pool.stepsLeft answer = after.stepsLeft answer + 1 := by
  unfold stepsLeft
  cases h with
  | setOut hroom => simp; omega
  | receive statement next => simp [Load.turns_answered]; omega
  | handOver related => simp [Load.turns]; omega

/-- No more fetches are under way than there is room for. -/
theorem Step.underWay_le (h : pool.Step answer room after) (hle : pool.underWay.length ≤ room) :
    after.underWay.length ≤ room := by
  cases h with
  | setOut hroom =>
      rw [List.length_append]
      exact hroom
  | receive statement next => simpa using hle
  | handOver related => exact (Nat.le_succ _).trans hle

end Pool

namespace Stages

/-- Levels that follow one another are held in turn one after the other. -/
theorem inTurn_bind (stages : Stages α) (next : α → Stages β) :
    (stages >>= next).inTurn = stages.inTurn >>= fun result => (next result).inTurn := by
  induction stages with
  | done result => rfl
  | level fetches rest ih =>
      rw [inTurn, Load.bind_assoc, ← funext ih]
      rfl

namespace State

/-- What loading comes to: what the level comes to, and what follows with its fetches in turn. -/
def outlook (answer : Select → Except QueryError (List Row)) : State α → Except QueryError α
  | .ended outcome => outcome
  | .within pool next => do
    let fetched ← pool.outlook answer
    (next fetched).inTurn.resultFrom answer

/-- How many fetches are under way. -/
def underWay : State α → Nat
  | .ended _ => 0
  | .within pool _ => pool.underWay.length

theorem outlook_start (stages : Stages α) :
    stages.start.outlook answer = stages.inTurn.resultFrom answer := by
  cases stages with
  | done result => rfl
  | level fetches next =>
      rw [inTurn, Load.resultFrom_bind, Load.resultFrom_sequence]
      simp [start, outlook, Pool.outlook]

variable {state after : State α}

/-- No step changes what loading comes to. -/
theorem Step.outlook_eq (h : state.Step answer room after) :
    after.outlook answer = state.outlook answer := by
  cases h with
  | inLevel hstep => rw [outlook, outlook, hstep.outlook_eq]
  | fail error => rfl
  | goOn =>
      rw [outlook_start]
      simp [outlook, Pool.outlook]

theorem Step.underWay_le (h : state.Step answer room after) (hle : state.underWay ≤ room) :
    after.underWay ≤ room := by
  cases h with
  | inLevel hstep => exact hstep.underWay_le hle
  | fail error => exact Nat.zero_le _
  | @goOn handed next => cases next handed <;> exact Nat.zero_le _

/-- Loading can go on until it has ended, if there is room for a fetch.  The first fetch under way
can always go on, since it waits for nobody but its source. -/
theorem ended_or_step (hroom : 0 < room) (state : State α) :
    (∃ outcome, state = .ended outcome) ∨ ∃ after, state.Step answer room after := by
  rcases state with outcome | ⟨⟨handed, underWay, waiting⟩, next⟩
  · exact .inl ⟨outcome, rfl⟩
  · right
    cases underWay with
    | nil =>
        cases waiting with
        | nil => exact ⟨_, .goOn⟩
        | cons first rest => exact ⟨_, .inLevel (.setOut hroom)⟩
    | cons first rest =>
        cases first with
        | done related => exact ⟨_, .inLevel (.handOver related)⟩
        | fail error => exact ⟨_, .fail error⟩
        | ask statement asked => exact ⟨_, .inLevel (@Pool.Step.receive _ _ _ [] _ _ statement asked)⟩

/-- Loading within a level does not go on for ever if nothing that may follow does.  The induction
is on the steps left in the level, and handing over to what follows may come with any number
left. -/
theorem acc_within {next : List (List Related) → Stages α}
    (hnext : ∀ fetched, Acc (fun after before : State α => before.Step answer room after)
      (next fetched).start) (pool : Pool) :
    Acc (fun after before : State α => before.Step answer room after) (.within pool next) := by
  induction hleft : pool.stepsLeft answer generalizing pool with
  | zero =>
      refine ⟨_, fun after hstep => ?_⟩
      cases hstep with
      | inLevel hstep => simp [hstep.stepsLeft_eq] at hleft
      | fail error => exact ⟨_, fun other hother => nomatch hother⟩
      | goOn => exact hnext _
  | succ left ih =>
      refine ⟨_, fun after hstep => ?_⟩
      cases hstep with
      | inLevel hstep => exact ih _ (Nat.succ.inj (hstep.stepsLeft_eq.symm.trans hleft))
      | fail error => exact ⟨_, fun other hother => nomatch hother⟩
      | goOn => exact hnext _

/-- Loading does not go on for ever. -/
theorem acc_start (stages : Stages α) :
    Acc (fun after before : State α => before.Step answer room after) stages.start := by
  induction stages with
  | done result => exact ⟨_, fun after hstep => nomatch hstep⟩
  | level fetches next ih => exact acc_within ih _

end State

/-- Whatever happens with so much room, loading keeps to it, goes on until it has ended with the
outcome, and does not go on for ever. -/
structure EndsAs (answer : Select → Except QueryError (List Row)) (room : Nat) (stages : Stages α)
    (outcome : Except QueryError α) : Prop where
  keeps : ∀ state, Relation.ReflTransGen (State.Step answer room) stages.start state →
    state.underWay ≤ room
  goes : ∀ state, Relation.ReflTransGen (State.Step answer room) stages.start state →
    state = .ended outcome ∨ ∃ after, state.Step answer room after
  ends : Acc (fun after before : State α => before.Step answer room after) stages.start

/-- Loading side by side ends as loading in turn does. -/
theorem endsAs_inTurn (hroom : 0 < room) (stages : Stages α) :
    stages.EndsAs answer room (stages.inTurn.resultFrom answer) where
  keeps := by
    intro state hreach
    induction hreach with
    | refl => cases stages <;> exact Nat.zero_le _
    | tail _ hstep ih => exact hstep.underWay_le ih
  goes := by
    intro state hreach
    have houtlook : state.outlook answer = stages.inTurn.resultFrom answer := by
      induction hreach with
      | refl => exact State.outlook_start stages
      | tail _ hstep ih => exact hstep.outlook_eq.trans ih
    rcases State.ended_or_step hroom state with ⟨outcome, rfl⟩ | hstep
    · left
      rw [← houtlook]
      rfl
    · exact .inr hstep
  ends := State.acc_start stages

end Stages

/-! ### Relations by level -/

mutual

/-- With the fetches of each level in turn, attaching by level is attaching. -/
theorem attachByLevel_inTurn : ∀ (table : String) (branches : List (String × BranchOf Shape))
    (fetched : List (List Related)),
      (attachByLevel schema table branches fetched).inTurn = attachLevel schema table branches fetched
  | table, [], fetched => by
      rw [attachByLevel, attachLevel]
      rfl
  | table, (name, ⟨shape, filter, orderBy, take, skip, distinct, joinKind⟩) :: rest, fetched => by
      rw [attachByLevel.eq_def, attachLevel.eq_def]
      dsimp only
      cases schema.relation? table name with
      | none => exact attachByLevel_inTurn table rest fetched
      | some relation =>
          cases fetched with
          | nil => rfl
          | cons related others =>
              dsimp only
              rw [Stages.inTurn_bind, finishByLevel_inTurn relation.target shape related]
              refine congrArg _ (funext fun finished => ?_)
              rw [Stages.inTurn_bind, attachByLevel_inTurn table rest others]
              rfl

theorem finishByLevel_inTurn : ∀ (table : String) (shape : Shape) (related : List Related),
    (finishByLevel schema table shape related).inTurn = finishRelated schema table shape related
  | table, ⟨fields, _, relations⟩, related => by
      rw [finishByLevel, finishRelated, Stages.inTurn]
      refine congrArg _ (funext fun fetched => ?_)
      rw [Stages.inTurn_bind, attachByLevel_inTurn table relations fetched]
      rfl

end

/-- So is loading. -/
theorem loadByLevel_inTurn (table : String) (branches : Branches) (owners : List Record) :
    (loadByLevel schema table branches owners).inTurn = loadBranches schema table branches owners := by
  rw [loadByLevel, Stages.inTurn, loadBranches, funext (attachByLevel_inTurn table branches)]
  rfl

/-- Items before the first that fails do not matter. -/
theorem mapM_first_error {γ δ ε : Type} {f : γ → Except ε δ} {before after : List γ} {item : γ}
    {error : ε} (hbefore : ∀ one ∈ before, ∃ result, f one = .ok result)
    (hitem : f item = .error error) : (before ++ item :: after).mapM f = .error error := by
  induction before with
  | nil =>
      rw [List.nil_append, List.mapM_cons, hitem]
      rfl
  | cons first rest ih =>
      obtain ⟨hfirst, hrest⟩ := List.forall_mem_cons.mp hbefore
      obtain ⟨result, hresult⟩ := hfirst
      rw [List.cons_append, List.mapM_cons, hresult, ih hrest]
      rfl

/-- Known relations come in the order of their names. -/
theorem knownBranches_sorted {branches : Branches} (h : Dict.Sorted branches) (table : String) :
    (knownBranches schema table branches).Pairwise fun one other => one.1 < other.1 := by
  refine List.Pairwise.filterMap _ ?_ h
  rintro ⟨name, branch⟩ ⟨other, kept⟩ hless known hknown found hfound
  obtain ⟨relation, -, rfl⟩ := Option.map_eq_some_iff.mp hknown
  obtain ⟨relation', -, rfl⟩ := Option.map_eq_some_iff.mp hfound
  exact hless

/-- A level with a failing fetch fails as the first of them does. -/
theorem loadBranches_error {branches : Branches} (hsorted : Dict.Sorted branches) {table : String}
    {owners : List Record} {known : String × Branch × Relation}
    (hknown : known ∈ knownBranches schema table branches) {error : QueryError}
    (herror : (levelFetch schema owners known).resultFrom answer = .error error)
    (hbefore : ∀ other ∈ knownBranches schema table branches, other.1 < known.1 →
      ∃ related, (levelFetch schema owners other).resultFrom answer = .ok related) :
    (loadBranches schema table branches owners).resultFrom answer = .error error := by
  obtain ⟨before, after, hsplit⟩ := List.append_of_mem hknown
  have hordered := @knownBranches_sorted schema _ hsorted table
  rw [hsplit, List.pairwise_append] at hordered
  have hlevel : (fetchLevel schema table branches owners).resultFrom answer = .error error := by
    rw [show fetchLevel schema table branches owners =
      Load.sequence (levelFetches schema table branches owners) from rfl, Load.resultFrom_sequence,
      levelFetches, List.mapM_map, hsplit]
    refine mapM_first_error (fun other hother => ?_) herror
    refine hbefore other (hsplit ▸ List.mem_append_left _ hother) ?_
    exact hordered.2.2 other hother known List.mem_cons_self
  rw [loadBranches, Load.resultFrom_bind, hlevel]
  rfl

/-- **Loading side by side is loading in turn.**  Under every mode, with every limit, and whatever
order answers come in, relations loaded by follow-up statements end up with what the same
relations end up with that are loaded one after the other, where answers depend on statements
alone: the same records attached, or the same error.  When fetches of a level fail, that is the
error of the first failing relation in the order of names. -/
theorem loading_side_by_side (schema : Schema) (answer : Select → Except QueryError (List Row))
    (mode : FetchMode) (table : String) {branches : Branches} (hsorted : Dict.Sorted branches)
    (owners : List Record) :
    let outcome := (loadBranches schema table branches owners).resultFrom answer
    (loadByLevel schema table branches owners).EndsAs answer mode.room outcome ∧
      ∀ known ∈ knownBranches schema table branches, ∀ error,
        (levelFetch schema owners known).resultFrom answer = .error error →
        (∀ other ∈ knownBranches schema table branches, other.1 < known.1 →
          ∃ related, (levelFetch schema owners other).resultFrom answer = .ok related) →
        outcome = .error error := by
  intro outcome
  constructor
  · have hroom : 0 < mode.room := by
      cases mode with
      | sequential => exact Nat.one_pos
      | concurrent limit => exact Nat.lt_of_lt_of_le Nat.one_pos (Nat.le_max_right limit 1)
    have hends := @Stages.endsAs_inTurn _ answer _ hroom (loadByLevel schema table branches owners)
    rw [loadByLevel_inTurn] at hends
    exact hends
  · intro known hknown error herror hbefore
    exact loadBranches_error hsorted hknown herror hbefore

/-- The tables of a forum: comments and posts of authors. -/
def forumTables : List TableDecl :=
  [{ name := "Author", columns := [{ name := "id", type := .integer, primary := true }] },
   { name := "Comment"
     columns := [{ name := "authorId", type := .integer, references := some ⟨"Author", "id"⟩ }] },
   { name := "Post"
     columns := [{ name := "authorId", type := .integer, references := some ⟨"Author", "id"⟩ }] }]

/-- An executor that refuses every statement by its table. -/
def refuseAll (statement : Select) : Except QueryError (List Row) :=
  .error (.execution (.refused statement.table))

/-- Comments and posts of an author, all refused: with room for two fetches as with a limit of none,
loading ends with the refusal of the comments. -/
theorem loading_side_by_side_forum :
    let branches : Branches := [("comments", { shape := {} }), ("posts", { shape := {} })]
    let owners : List Record := [[("id", .scalar (.integer 1))]]
    let loading := loadByLevel (Schema.ofDecls forumTables) "Author" branches owners
    Dict.Sorted branches ∧
      loading.EndsAs refuseAll (FetchMode.concurrent 2).room
        (.error (.execution (.refused "Comment"))) ∧
      loading.EndsAs refuseAll (FetchMode.concurrent 0).room
        (.error (.execution (.refused "Comment"))) := by
  intro branches owners loading
  have hsorted : Dict.Sorted branches := by
    unfold Dict.Sorted
    decide
  have hrefused : ((knownBranches (Schema.ofDecls forumTables) "Author" branches).head?.bind
      fun known =>
        match (levelFetch (Schema.ofDecls forumTables) owners known).resultFrom refuseAll with
        | .ok _ => none
        | .error error => some error) = some (.execution (.refused "Comment")) := by
    decide +kernel
  obtain ⟨first, hfirst, hrefused⟩ := Option.bind_eq_some_iff.mp hrefused
  have hmem := List.mem_of_head? hfirst
  have herror : (levelFetch (Schema.ofDecls forumTables) owners first).resultFrom refuseAll =
      .error (.execution (.refused "Comment")) := by
    split at hrefused
    · cases hrefused
    · next error heq => rw [heq, Option.some.inj hrefused]
  have hleast : ∀ other ∈ knownBranches (Schema.ofDecls forumTables) "Author" branches,
      ¬ other.1 < first.1 := by
    obtain ⟨rest, hall⟩ := List.head?_eq_some_iff.mp hfirst
    have hordered := @knownBranches_sorted (Schema.ofDecls forumTables) _ hsorted "Author"
    rw [hall] at hordered ⊢
    obtain ⟨hless, -⟩ := List.pairwise_cons.mp hordered
    exact List.forall_mem_cons.mpr
      ⟨String.lt_irrefl _, fun other hother => String.lt_asymm (hless other hother)⟩
  have hside := fun mode => loading_side_by_side (Schema.ofDecls forumTables) refuseAll mode "Author"
    hsorted owners
  have houtcome := (hside .sequential).2 first hmem _ herror
    fun other hother hless => absurd hless (hleast other hother)
  exact ⟨hsorted, houtcome ▸ (hside (.concurrent 2)).1, houtcome ▸ (hside (.concurrent 0)).1⟩

end NestedQuery
