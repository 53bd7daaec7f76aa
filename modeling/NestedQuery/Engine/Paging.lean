import NestedQuery.Plan.Shape
import NestedQuery.Record
import NestedQuery.Statement.Evaluation

/-!
# Pages of related records

Under one owner related records are first made distinct, then cut to the page
that the branch asks for: after the skipped ones so many from the front, or so
many from the end when the number is negative.
-/

namespace NestedQuery

/-- The first record of every combination of values of the columns; all without columns. -/
def distinctBy (columns : List String) (records : List Record) : List Record :=
  if columns.isEmpty then records
  else
    firstOfEach (fun record : Record => Value.jointKey (columns.map record.scalar)) [] records

/-- At most `take` items after `skip`. -/
def pageOf {α : Type} (skip take : Option Nat) (items : List α) : List α :=
  let rest := items.drop (skip.getD 0)
  match take with
  | some count => rest.take count
  | none => rest

/-- The last `count` items. -/
def lastOf {α : Type} (count : Nat) (items : List α) : List α :=
  items.drop (items.length - count)

namespace BranchOf

/-- The related records of one owner that a branch shows. -/
def page (branch : Branch) (records : List Record) : List Record :=
  let records := distinctBy (branch.distinct.getD []) records
  match branch.take with
  | none => pageOf branch.skip none records
  | some take =>
    if take < 0 then lastOf take.natAbs (pageOf branch.skip none records)
    else pageOf branch.skip (some take.natAbs) records

end BranchOf

/-- The entry for related records: all of them, or the first or null for a relation to one. -/
def Node.ofRelated (isToMany : Bool) (records : List Record) : Node :=
  if isToMany then .list records
  else match records with
    | first :: _ => .object first
    | [] => .scalar .null

/-- The record with only the entries of fields and relations that are shown. -/
def Record.shown (record : Record) (fields relations : List String) : Record :=
  record.filter fun pair => fields.contains pair.1 || relations.contains pair.1

end NestedQuery
