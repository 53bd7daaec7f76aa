import NestedQuery.Engine.FollowUp
import NestedQuery.Engine.Settings

/-!
# Loading level by level

The fetches of a level do not need each other, so they need not be held one
after the other.  Some of them are under way at a time; each waits for the rows
of its own statement, and these come in any order.  What the fetches find is
handed over in the order of the relations, and the first error to be handed over
ends everything.  Loading goes on below a level when the level has handed over
all that it finds.
-/

namespace NestedQuery

/-- How many fetches may be under way at a time: one at least. -/
def FetchMode.room : FetchMode → Nat
  | .sequential => 1
  | .concurrent limit => max limit 1

/-- The dialogue with the statement answered that it waits for, if it waits. -/
def Load.answered {α : Type} (answer : Select → Except QueryError (List Row)) : Load α → Load α
  | .ask statement next =>
    match answer statement with
    | .ok rows => next rows
    | .error error => .fail error
  | ended => ended

/-- The fetches of a level: what was handed over, then those under way, then those to come. -/
structure Pool where
  handed : List (List Related)
  underWay : List (Load (List Related))
  waiting : List (Load (List Related))

/-- What may happen in a level with limited room for fetches under way. -/
inductive Pool.Step (answer : Select → Except QueryError (List Row)) (room : Nat) :
    Pool → Pool → Prop
  /-- The next fetch sets out if there is room for it. -/
  | setOut {handed : List (List Related)} {underWay waiting : List (Load (List Related))}
      {first : Load (List Related)} (hroom : underWay.length < room) :
      Step answer room ⟨handed, underWay, first :: waiting⟩
        ⟨handed, underWay ++ [first], waiting⟩
  /-- Any fetch under way gets the rows of its statement. -/
  | receive {handed : List (List Related)} {before after waiting : List (Load (List Related))}
      (statement : Select) (next : List Row → Load (List Related)) :
      Step answer room ⟨handed, before ++ .ask statement next :: after, waiting⟩
        ⟨handed, before ++ (Load.ask statement next).answered answer :: after, waiting⟩
  /-- The first fetch under way hands over what it found. -/
  | handOver {handed : List (List Related)} {underWay waiting : List (Load (List Related))}
      (related : List Related) :
      Step answer room ⟨handed, .done related :: underWay, waiting⟩
        ⟨handed ++ [related], underWay, waiting⟩

/-- Loading level by level: a result, or a level and what follows when it has handed over. -/
inductive Stages (α : Type) where
  | done (result : α)
  | level (fetches : List (Load (List Related))) (next : List (List Related) → Stages α)

namespace Stages

variable {α β : Type}

/-- Goes on with the result. -/
def bind : Stages α → (α → Stages β) → Stages β
  | .done result, next => next result
  | .level fetches rest, next => .level fetches fun fetched => (rest fetched).bind next

instance : Monad Stages where
  pure := .done
  bind := bind

/-- The dialogue in which the fetches of each level are held one after the other. -/
def inTurn : Stages α → Load α
  | .done result => return result
  | .level fetches next => do
    let fetched ← Load.sequence fetches
    (next fetched).inTurn

/-- Where loading stands: at its end or within a level. -/
inductive State (α : Type) where
  | ended (outcome : Except QueryError α)
  | within (pool : Pool) (next : List (List Related) → Stages α)

/-- Where loading starts. -/
def start : Stages α → State α
  | .done result => .ended (.ok result)
  | .level fetches next => .within ⟨[], [], fetches⟩ next

/-- What may happen while loading. -/
inductive State.Step (answer : Select → Except QueryError (List Row)) (room : Nat) :
    State α → State α → Prop
  | inLevel {pool after : Pool} {next : List (List Related) → Stages α}
      (hstep : pool.Step answer room after) : Step answer room (.within pool next) (.within after next)
  /-- The first fetch under way has failed, and so has everything. -/
  | fail {handed : List (List Related)} {underWay waiting : List (Load (List Related))}
      {next : List (List Related) → Stages α} (error : QueryError) :
      Step answer room (.within ⟨handed, .fail error :: underWay, waiting⟩ next)
        (.ended (.error error))
  /-- All has been handed over, and loading goes on. -/
  | goOn {handed : List (List Related)} {next : List (List Related) → Stages α} :
      Step answer room (.within ⟨handed, [], []⟩ next) (next handed).start

end Stages

/-! ### Relations by level -/

/-- The related rows of one known relation of a level. -/
def levelFetch (schema : Schema) (owners : List Record) :
    String × Branch × Relation → Load (List Related)
  | (_, branch, relation) =>
    fetch schema relation branch (distinctKeys (owners.map (·.scalar relation.fromColumn)))

/-- The fetches of a level, one for every known relation. -/
def levelFetches (schema : Schema) (table : String) (branches : Branches) (owners : List Record) :
    List (Load (List Related)) :=
  (knownBranches schema table branches).map (levelFetch schema owners)

mutual

/-- Attaches what was fetched for each known relation, its own relations loaded before. -/
def attachByLevel (schema : Schema) (table : String) :
    List (String × BranchOf Shape) → List (List Related) → Stages (Record → Record)
  | [], _ => return id
  | (name, ⟨shape, filter, orderBy, take, skip, distinct, joinKind⟩) :: rest, fetched =>
    match schema.relation? table name, fetched with
    | none, fetched => attachByLevel schema table rest fetched
    | some _, [] => return id
    | some relation, related :: others => do
      let finished ← finishByLevel schema relation.target shape related
      let branch : Branch := ⟨shape, filter, orderBy, take, skip, distinct, joinKind⟩
      let more ← attachByLevel schema table rest others
      return fun record => more (attach name relation branch finished record)

/-- The related records with their own relations loaded and their hidden columns dropped. -/
def finishByLevel (schema : Schema) (table : String) :
    Shape → List Related → Stages (List Related)
  | ⟨fields, _, relations⟩, related =>
    .level (levelFetches schema table relations (related.map (·.record))) fun fetched => do
      let load ← attachByLevel schema table relations fetched
      return related.map fun one =>
        { one with record := (load one.record).shown fields (relations.map (·.1)) }

end

/-- What loading relations of `table` attaches to each of the given owners, level by level. -/
def loadByLevel (schema : Schema) (table : String) (branches : Branches)
    (owners : List Record) : Stages (Record → Record) :=
  .level (levelFetches schema table branches owners) fun fetched =>
    attachByLevel schema table branches fetched

end NestedQuery
