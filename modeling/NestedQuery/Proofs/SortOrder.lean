import Mathlib.Data.List.Basic
import Mathlib.Data.List.Pairwise
import NestedQuery.Proofs.Evaluation

/-!
# Sorting by keys

Comparing two values the other way round turns the result round, whatever their
kinds.  Sorting needs more: the order must also be transitive, and it is not on
all values, since values of different kinds count as equal.  On values of one
kind it is.  Where it is on the values of every key, the keys order the rows one
after the other.
-/

namespace NestedQuery

/-! ### Comparing both ways -/

/-- Two doubles compare the other way round if they are swapped. -/
theorem Binary64.compare_swap (a b : Binary64) :
    Binary64.compare b a = (Binary64.compare a b).map Ordering.swap := by
  unfold Binary64.compare
  cases a.orderKey with
  | none => cases b.orderKey <;> rfl
  | some ka =>
      cases b.orderKey with
      | none => rfl
      | some kb => exact congrArg some Std.OrientedOrd.eq_swap

/-- So do two instants. -/
theorem Instant.compare_swap (a b : Instant) : b.compare a = (a.compare b).swap := by
  unfold Instant.compare
  rw [Ordering.swap_then]
  congr 1
  · exact Std.OrientedOrd.eq_swap
  · exact Std.OrientedOrd.eq_swap

/-- Comparing the other way round turns the result round. -/
theorem Value.compare_swap (a b : Value) : b.compare a = (a.compare b).map Ordering.swap := by
  have hinstants : ∀ s t : Instant, some (t.compare s) = (some (s.compare t)).map Ordering.swap :=
    fun s t => congrArg some (Instant.compare_swap s t)
  cases a with
  | null => cases b <;> rfl
  | boolean x =>
      cases b with
      | boolean y => exact congrArg some Std.OrientedOrd.eq_swap
      | _ => rfl
  | integer x =>
      cases b with
      | integer y => exact congrArg some Std.OrientedOrd.eq_swap
      | float y => exact Binary64.compare_swap _ _
      | _ => rfl
  | float x =>
      cases b with
      | integer y => exact Binary64.compare_swap _ _
      | float y => exact Binary64.compare_swap _ _
      | _ => rfl
  | text x =>
      cases b with
      | text y => exact congrArg some Std.OrientedOrd.eq_swap
      | instant y =>
          simp only [Value.compare]
          cases Instant.parse? x with
          | none => rfl
          | some s => exact hinstants s y
      | _ => rfl
  | instant x =>
      cases b with
      | text y =>
          simp only [Value.compare]
          cases Instant.parse? y with
          | none => rfl
          | some s => exact hinstants x s
      | instant y => exact hinstants x y
      | _ => rfl

/-- Equality in the sense of the statements is symmetric. -/
theorem Value.sqlEq_comm (a b : Value) : a.sqlEq b = b.sqlEq a := by
  unfold Value.sqlEq
  rw [Value.compare_swap a b]
  rcases a.compare b with _ | _ | _ | _ <;> rfl

/-- The order used for sorting is turned round if the values are swapped. -/
theorem Value.sortOrder_swap (a b : Value) : b.sortOrder a = (a.sortOrder b).swap := by
  unfold Value.sortOrder
  rw [Value.compare_swap a b]
  cases a.compare b <;> rfl

/-- Null equals nothing. -/
theorem Value.sqlEq_null (a : Value) : Value.sqlEq .null a = false := by
  cases a <;> rfl

/-- Values that are equal are not null. -/
theorem Value.ne_null_of_sqlEq {a b : Value} (h : a.sqlEq b = true) : a ≠ .null ∧ b ≠ .null := by
  constructor
  · rintro rfl
    rw [Value.sqlEq_null] at h
    cases h
  · rintro rfl
    rw [Value.sqlEq_comm, Value.sqlEq_null] at h
    cases h

/-! ### Orders of values -/

/-- The order of instants is one of all instants. -/
theorem Instant.orders : OrdersOn Instant.compare fun _ => True := by
  have hseconds : OrdersOn (fun a b : Instant => Ord.compare a.seconds b.seconds) fun _ => True :=
    ordersOn_compare Instant.seconds
  exact hseconds.lex (ordersOn_compare Instant.nanos)

/-- On the values that are not null the order used for sorting is transitive. -/
def Value.Ordered (values : List Value) : Prop :=
  ∀ a ∈ values, ∀ b ∈ values, ∀ c ∈ values, a ≠ .null → b ≠ .null → c ≠ .null →
    a.sortOrder b ≠ .gt → b.sortOrder c ≠ .gt → a.sortOrder c ≠ .gt

instance (values : List Value) : Decidable (Value.Ordered values) :=
  inferInstanceAs (Decidable (∀ a ∈ values, ∀ b ∈ values, ∀ c ∈ values,
    a ≠ .null → b ≠ .null → c ≠ .null → a.sortOrder b ≠ .gt → b.sortOrder c ≠ .gt →
      a.sortOrder c ≠ .gt))

/-- The values that are not null are all integers, all texts, all truth values, or all instants. -/
def Value.OneKind (values : List Value) : Prop :=
  (∀ value ∈ values, value ≠ .null → ∃ n, value = .integer n) ∨
  (∀ value ∈ values, value ≠ .null → ∃ s, value = .text s) ∨
  (∀ value ∈ values, value ≠ .null → ∃ b, value = .boolean b) ∨
  (∀ value ∈ values, value ≠ .null → ∃ t, value = .instant t)

/-- Integers are of one kind. -/
theorem Value.OneKind.of_integers {values : List Value}
    (h : ∀ value ∈ values, value.integer?.isSome = true) : Value.OneKind values := by
  refine Or.inl fun value hvalue _ => ?_
  have hinteger := h value hvalue
  cases value with
  | integer n => exact ⟨n, rfl⟩
  | _ => cases hinteger

/-- Values of one kind are ordered. -/
theorem Value.OneKind.ordered {values : List Value} (h : Value.OneKind values) :
    Value.Ordered values := by
  intro a ha b hb c hc hna hnb hnc hab hbc
  rcases h with h | h | h | h
  · obtain ⟨x, rfl⟩ := h a ha hna
    obtain ⟨y, rfl⟩ := h b hb hnb
    obtain ⟨z, rfl⟩ := h c hc hnc
    exact (ordersOn_compare id).trans x y z trivial trivial trivial hab hbc
  · obtain ⟨x, rfl⟩ := h a ha hna
    obtain ⟨y, rfl⟩ := h b hb hnb
    obtain ⟨z, rfl⟩ := h c hc hnc
    exact (ordersOn_compare id).trans x y z trivial trivial trivial hab hbc
  · obtain ⟨x, rfl⟩ := h a ha hna
    obtain ⟨y, rfl⟩ := h b hb hnb
    obtain ⟨z, rfl⟩ := h c hc hnc
    exact (ordersOn_compare id).trans x y z trivial trivial trivial hab hbc
  · obtain ⟨x, rfl⟩ := h a ha hna
    obtain ⟨y, rfl⟩ := h b hb hnb
    obtain ⟨z, rfl⟩ := h c hc hnc
    exact Instant.orders.trans x y z trivial trivial trivial hab hbc

/-- The order of two values that are not null under one key. -/
def SortKey.directed (key : SortKey) (a b : Value) : Ordering :=
  match key.direction with
  | .ascending => a.sortOrder b
  | .descending => (a.sortOrder b).swap

/-- So it is in the direction of a sort key. -/
theorem SortKey.directed_swap (key : SortKey) (a b : Value) :
    key.directed b a = (key.directed a b).swap := by
  unfold SortKey.directed
  cases key.direction with
  | ascending => exact Value.sortOrder_swap a b
  | descending => exact congrArg Ordering.swap (Value.sortOrder_swap a b)

/-- Turned round, an order of some values remains one. -/
theorem SortKey.directed_trans (key : SortKey) {values : List Value} (h : Value.Ordered values)
    {a b c : Value} (ha : a ∈ values) (hb : b ∈ values) (hc : c ∈ values) (hna : a ≠ .null)
    (hnb : b ≠ .null) (hnc : c ≠ .null) (hab : key.directed a b ≠ .gt)
    (hbc : key.directed b c ≠ .gt) : key.directed a c ≠ .gt := by
  unfold SortKey.directed at hab hbc ⊢
  cases hdirection : key.direction with
  | ascending =>
      rw [hdirection] at hab hbc
      exact h a ha b hb c hc hna hnb hnc hab hbc
  | descending =>
      rw [hdirection] at hab hbc
      dsimp only at hab hbc ⊢
      rw [← Value.sortOrder_swap] at hab hbc ⊢
      exact h c hc b hb a ha hnc hnb hna hbc hab

/-- Nulls go to one end, and the other values in their direction. -/
theorem SortKey.order_eq (key : SortKey) (a b : Value) :
    key.order a b =
      if a.isNull then
        if b.isNull then .eq else if key.nullsFirst then .lt else .gt
      else if b.isNull then
        if key.nullsFirst then .gt else .lt
      else key.directed a b := by
  unfold SortKey.order
  cases a.isNull <;> cases b.isNull <;> rfl

/-- Where nulls go does not matter for other values. -/
theorem SortKey.order_of_ne_null {key : SortKey} {a b : Value} (ha : a ≠ .null) (hb : b ≠ .null) :
    key.order a b = key.directed a b := by
  rw [key.order_eq, Value.isNull_eq_false.mpr ha, Value.isNull_eq_false.mpr hb]
  rfl

/-- The order of a sort key is turned round if the values are swapped. -/
theorem SortKey.order_swap (key : SortKey) (a b : Value) :
    key.order b a = (key.order a b).swap := by
  rw [key.order_eq a, key.order_eq b, key.directed_swap a]
  cases a.isNull <;> cases b.isNull <;> cases key.nullsFirst <;> rfl

/-- The order of lists of values, seen from the other side. -/
theorem sortOrder_swap (keys : List SortKey) : ∀ (as bs : List Value),
    sortOrder keys bs as = (sortOrder keys as bs).swap := by
  induction keys with
  | nil => exact fun _ _ => rfl
  | cons key rest ih =>
      intro as bs
      cases as with
      | nil => cases bs <;> rfl
      | cons a as =>
          cases bs with
          | nil => rfl
          | cons b bs =>
              rw [sortOrder, sortOrder, Ordering.swap_then, ← key.order_swap, ih]

/-- Keys behind others decide where these do not. -/
theorem sortOrder_append {first second : List SortKey} : ∀ {as bs : List Value},
    as.length = first.length → bs.length = first.length → ∀ (more others : List Value),
    sortOrder (first ++ second) (as ++ more) (bs ++ others) =
      (sortOrder first as bs).then (sortOrder second more others) := by
  induction first with
  | nil =>
      intro as bs has hbs more others
      rw [List.length_eq_zero_iff.mp has, List.length_eq_zero_iff.mp hbs]
      rfl
  | cons key rest ih =>
      intro as bs has hbs more others
      cases as with
      | nil => cases has
      | cons a as =>
          cases bs with
          | nil => cases hbs
          | cons b bs =>
              rw [List.cons_append, List.cons_append, List.cons_append, sortOrder, sortOrder,
                ih (Nat.succ.inj has) (Nat.succ.inj hbs), Ordering.then_assoc]

/-- A key orders items whose values in its column are ordered, wherever nulls go.  Beside a null
only the end to which nulls go matters. -/
theorem SortKey.orders {α : Type} (key : SortKey) {value : α → Value} {items : List α}
    (h : Value.Ordered (items.map value)) :
    OrdersOn (fun a b => key.order (value a) (value b)) (· ∈ items) := by
  constructor
  · intro a b _ _
    exact key.order_swap (value a) (value b)
  · intro a b c ha hb hc hab hbc
    rw [key.order_eq] at hab hbc ⊢
    cases hna : (value a).isNull <;> cases hnb : (value b).isNull <;>
      cases hnc : (value c).isNull
    case false.false.false =>
      rw [hna, hnb] at hab
      rw [hnb, hnc] at hbc
      exact key.directed_trans h (List.mem_map_of_mem ha) (List.mem_map_of_mem hb)
        (List.mem_map_of_mem hc) (Value.isNull_eq_false.mp hna) (Value.isNull_eq_false.mp hnb)
        (Value.isNull_eq_false.mp hnc) hab hbc
    all_goals
      rw [hna, hnb] at hab
      rw [hnb, hnc] at hbc
      cases hnulls : key.nullsFirst <;> simp [hnulls] at hab hbc ⊢

/-- A list of keys orders items whose values under each key are ordered. -/
theorem ordersOn_sortOrder {α : Type} (keys : List SortKey) (value : α → SortKey → Value)
    {items : List α} (h : ∀ key ∈ keys, Value.Ordered (items.map (value · key))) :
    OrdersOn (fun a b => sortOrder keys (keys.map (value a)) (keys.map (value b))) (· ∈ items) := by
  induction keys with
  | nil => exact ⟨fun _ _ _ _ => rfl, fun _ _ _ _ _ _ h _ => h⟩
  | cons key rest ih =>
      exact (key.orders (h key List.mem_cons_self)).lex
        (ih fun other hother => h other (List.mem_cons_of_mem _ hother))

/-- A list of keys orders rows whose values in the columns of the keys are ordered. -/
theorem sortOrder_orders (keys : List SortKey) {rows : List Row}
    (h : ∀ key ∈ keys, Value.Ordered (rows.map (·.value key.column.name))) :
    OrdersOn (fun a b : Row => sortOrder keys (keys.map fun key => a.value key.column.name)
      (keys.map fun key => b.value key.column.name)) (· ∈ rows) :=
  ordersOn_sortOrder keys (fun (row : Row) key => row.value key.column.name) h

/-- The order of two rows of values under sort keys. -/
def valueOrder (keys : List SortKey) (one other : String → Value) : Ordering :=
  sortOrder keys (keys.map fun key => one key.column.name) (keys.map fun key => other key.column.name)

/-- The order of two rows depends on the columns of the sort keys only. -/
theorem valueOrder_congr {keys : List SortKey} {one other first second : String → Value}
    (hone : ∀ key ∈ keys, one key.column.name = first key.column.name)
    (hother : ∀ key ∈ keys, other key.column.name = second key.column.name) :
    valueOrder keys one other = valueOrder keys first second := by
  unfold valueOrder
  rw [List.map_congr_left hone, List.map_congr_left hother]

/-- It is turned round if the rows are swapped. -/
theorem valueOrder_swap (keys : List SortKey) (one other : String → Value) :
    valueOrder keys other one = (valueOrder keys one other).swap :=
  sortOrder_swap keys _ _

/-- The keys are of the table, their columns hold values in order, and together they tell its rows
apart. -/
structure PutInOrder (keys : List SortKey) (table : String) (rows : List Row) : Prop where
  own : ∀ key ∈ keys, key.column.qualifier = table
  ordered : ∀ key ∈ keys, Value.Ordered (rows.map (·.value key.column.name))
  apart : rows.Pairwise fun one other => valueOrder keys one.value other.value ≠ .eq

/-- A column of integers puts rows in order if no two hold the same. -/
theorem PutInOrder.of_integers {table column : String} {direction : Direction} {rows : List Row}
    (hintegers : ∀ value ∈ rows.map (·.value column), value.integer?.isSome = true)
    (hapart : rows.Pairwise fun one other =>
      valueOrder [⟨⟨table, column⟩, direction, none⟩] one.value other.value ≠ .eq) :
    PutInOrder [⟨⟨table, column⟩, direction, none⟩] table rows :=
  ⟨List.forall_mem_singleton.mpr rfl,
    List.forall_mem_singleton.mpr (Value.OneKind.of_integers hintegers).ordered, hapart⟩

/-- Rows that are told apart are so in either order. -/
theorem valueOrder_ne_eq_symm (keys : List SortKey) :
    Std.Symm fun one other : Row => valueOrder keys one.value other.value ≠ .eq := by
  refine ⟨fun one other hne heq => hne ?_⟩
  rw [valueOrder_swap] at heq
  exact Ordering.swap_eq_eq.mp heq

/-- Rows that the keys do not tell apart are one. -/
theorem PutInOrder.eq_of_order {keys : List SortKey} {table : String} {rows : List Row}
    (h : PutInOrder keys table rows) {one other : Row} (hone : one ∈ rows) (hother : other ∈ rows)
    (heq : valueOrder keys one.value other.value = .eq) : one = other := by
  by_contra hne
  have := valueOrder_ne_eq_symm keys
  exact h.apart.forall hone hother hne heq

/-- Keys that put rows in order put some of them in order. -/
theorem PutInOrder.sublist {keys : List SortKey} {table : String} {rows fewer : List Row}
    (h : PutInOrder keys table rows) (hfewer : fewer.Sublist rows) :
    PutInOrder keys table fewer := by
  refine ⟨h.own, fun key hkey => ?_, h.apart.sublist hfewer⟩
  have hvalues := (hfewer.map (·.value key.column.name)).subset
  exact fun a ha b hb c hc => h.ordered key hkey a (hvalues ha) b (hvalues hb) c (hvalues hc)

/-- Rows that the keys put in order stand, once sorted, in strict order. -/
theorem PutInOrder.pairwise_stableSort {keys : List SortKey} {table : String} {rows : List Row}
    (h : PutInOrder keys table rows) :
    (stableSort (fun one other => valueOrder keys one.value other.value) rows).Pairwise
      fun one other => valueOrder keys one.value other.value = .lt := by
  have hsorted := (sortOrder_orders keys h.ordered).pairwise_stableSort
  have hapart := h.apart.perm (stableSort_perm (fun one other =>
    valueOrder keys one.value other.value) rows).symm ((valueOrder_ne_eq_symm keys).symm _ _)
  refine (hsorted.and hapart).imp ?_
  intro one other ⟨hle, hne⟩
  change valueOrder keys one.value other.value ≠ .gt at hle
  cases hvalue : valueOrder keys one.value other.value with
  | lt => rfl
  | eq => exact absurd hvalue hne
  | gt => exact absurd hvalue hle

end NestedQuery
