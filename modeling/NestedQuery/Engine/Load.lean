import NestedQuery.QueryError
import NestedQuery.Record
import NestedQuery.Statement.Basic

/-!
# Loading

What the engine does is a dialogue: it asks statements one after the other and
is answered with rows, until it has its result or fails.  A dialogue is a value
of its own; who answers is decided when it is held.  The log of a dialogue is
the list of its statements.
-/

namespace NestedQuery

/-- A dialogue that ends in a result or an error. -/
inductive Load (α : Type) where
  | done (result : α)
  | fail (error : QueryError)
  /-- Ask a statement and go on with its rows. -/
  | ask (statement : Select) (next : List Row → Load α)

namespace Load

variable {α β : Type}

/-- Goes on with the result of a dialogue. -/
def bind : Load α → (α → Load β) → Load β
  | .done result, next => next result
  | .fail error, _ => .fail error
  | .ask statement rest, next => .ask statement fun rows => (rest rows).bind next

instance : Monad Load where
  pure := .done
  bind := bind

/-- Asks one statement. -/
def query (statement : Select) : Load (List Row) :=
  .ask statement .done

/-- The dialogues one after the other, up to the first that fails. -/
def sequence : List (Load α) → Load (List α)
  | [] => .done []
  | first :: rest => do
    let result ← first
    let results ← sequence rest
    return result :: results

end Load

/-- Who answers statements: an answer may depend on a state, which it may change. -/
abbrev Source (σ : Type) := Select → σ → Except QueryError (List Row) × σ

/-- How a dialogue went: its result, its statements in order, and the state of the source. -/
structure Outcome (σ α : Type) where
  result : Except QueryError α
  log : List Select
  state : σ

/-- Holds a dialogue with a source. -/
def Load.hold {σ α : Type} (source : Source σ) : Load α → σ → Outcome σ α
  | .done result, state => ⟨.ok result, [], state⟩
  | .fail error, state => ⟨.error error, [], state⟩
  | .ask statement next, state =>
    match source statement state with
    | (.ok rows, state) =>
      let rest := (next rows).hold source state
      { rest with log := statement :: rest.log }
    | (.error error, state) => ⟨.error error, [statement], state⟩

/-- The result of a dialogue with a source whose answers depend on the statement alone. -/
def Load.resultFrom {α : Type} (answer : Select → Except QueryError (List Row)) :
    Load α → Except QueryError α
  | .done result => .ok result
  | .fail error => .error error
  | .ask statement next =>
    match answer statement with
    | .ok rows => (next rows).resultFrom answer
    | .error error => .error error

end NestedQuery
