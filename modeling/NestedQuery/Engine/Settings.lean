import NestedQuery.Request.Arguments

/-!
# Engine settings

Defaults that apply to every request.
-/

namespace NestedQuery

/-- How the statements for the relations of one level are issued. -/
inductive FetchMode where
  /-- One after the other, in name order. -/
  | sequential
  /-- At most so many at a time; none counts as one. -/
  | concurrent (limit : Nat)
  deriving DecidableEq, Repr

/-- The settings of an engine. -/
structure Settings where
  /-- The strategy of requests that name none. -/
  strategy : LoadStrategy := .join
  fetch : FetchMode := .sequential
  /-- The greatest page. -/
  maxTake : Option Nat := none
  deriving DecidableEq, Repr

namespace Settings

/-- The size of a page for a requested one: its magnitude, at most the greatest page. -/
def pageSize (settings : Settings) (take : Option Int) : Option Nat :=
  match take.map Int.natAbs, settings.maxTake with
  | some asked, some most => some (min asked most)
  | none, most => most
  | asked, none => asked

end Settings

end NestedQuery
