/-!
# Sorting items

Sorting is stable: items that an order does not tell apart stay as they stand.
Up to twenty items are inserted one after the other, each behind the last one
that it does not come before; more are merged.  Where the order is transitive on
the items both come to the same (`OrdersOn.exists_sort`).  Where it is not, up to
twenty items stand as inserting leaves them, and how more of them stand, or
whether sorting them ends in a result at all, is nothing to rely on.
-/

namespace NestedQuery

variable {α : Type}

/-- Puts an item among others that stand from the last to the first: behind the last one that it does
not come before. -/
def insertBehind (order : α → α → Ordering) (item : α) : List α → List α
  | [] => [item]
  | last :: before =>
    if order item last = .lt then last :: insertBehind order item before
    else item :: last :: before

/-- The items inserted one after the other, from the first on. -/
def sortByInserting (order : α → α → Ordering) (items : List α) : List α :=
  (items.foldl (fun sorted item => insertBehind order item sorted) []).reverse

/-- How many items are at most sorted by inserting them. -/
def mostInserted : Nat := 20

/-- The items in an order, those that it does not tell apart as they stand. -/
def stableSort (order : α → α → Ordering) (items : List α) : List α :=
  if items.length ≤ mostInserted then sortByInserting order items
  else items.mergeSort fun a b => order a b != .gt

end NestedQuery
