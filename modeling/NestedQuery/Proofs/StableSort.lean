import Mathlib.Data.List.Basic
import Mathlib.Data.List.Induction
import Mathlib.Data.List.Pairwise
import NestedQuery.Statement.Sorting

/-!
# Stable sorting

Whatever the order, sorting leaves no item out and takes none twice, and sorting
by what a map shows of the items is sorting what it shows.  Sorting needs more to
put items in order: the order must be transitive on them.  Where it is, inserting
and merging come to the same, and sorting is stable in the strong sense that is
needed of joined rows: items that repeat others are sorted as these are.
-/

namespace NestedQuery

/-! ### Orders on some items -/

/-- On the items described the order can be turned round and is transitive. -/
structure OrdersOn {α : Type} (order : α → α → Ordering) (items : α → Prop) : Prop where
  swap : ∀ a b, items a → items b → order b a = (order a b).swap
  trans : ∀ a b c, items a → items b → items c →
    order a b ≠ .gt → order b c ≠ .gt → order a c ≠ .gt

namespace OrdersOn

variable {α β : Type} {order second : α → α → Ordering} {items : α → Prop}

/-- Items that come together with a third are not apart from each other. -/
theorem lt_of_lt_of_le (h : OrdersOn order items) {a b c : α} (ha : items a) (hb : items b)
    (hc : items c) (hab : order a b = .lt) (hbc : order b c ≠ .gt) : order a c = .lt := by
  cases hac : order a c with
  | lt => rfl
  | eq =>
      have hca : order c a ≠ .gt := by
        rw [h.swap a c ha hc, hac]
        decide
      have hba := h.trans b c a hb hc ha hbc hca
      rw [h.swap a b ha hb, hab] at hba
      exact absurd rfl hba
  | gt => exact absurd hac (h.trans a b c ha hb hc (by rw [hab]; decide) hbc)

theorem lt_of_le_of_lt (h : OrdersOn order items) {a b c : α} (ha : items a) (hb : items b)
    (hc : items c) (hab : order a b ≠ .gt) (hbc : order b c = .lt) : order a c = .lt := by
  cases hac : order a c with
  | lt => rfl
  | eq =>
      have hca : order c a ≠ .gt := by
        rw [h.swap a c ha hc, hac]
        decide
      have hcb := h.trans c a b hc ha hb hca hab
      rw [h.swap b c hb hc, hbc] at hcb
      exact absurd rfl hcb
  | gt => exact absurd hac (h.trans a b c ha hb hc hab (by rw [hbc]; decide))

theorem mono (h : OrdersOn order items) {fewer : α → Prop} (hfewer : ∀ a, fewer a → items a) :
    OrdersOn order fewer :=
  ⟨fun a b ha hb => h.swap a b (hfewer a ha) (hfewer b hb),
    fun a b c ha hb hc => h.trans a b c (hfewer a ha) (hfewer b hb) (hfewer c hc)⟩

/-- A second order that is one among the items that the first does not tell apart. -/
theorem lexWithin (h : OrdersOn order items)
    (hswap : ∀ a b, items a → items b → second b a = (second a b).swap)
    (htrans : ∀ a b c, items a → items b → items c → order a b = .eq → order b c = .eq →
      second a b ≠ .gt → second b c ≠ .gt → second a c ≠ .gt) :
    OrdersOn (fun a b => (order a b).then (second a b)) items := by
  constructor
  · intro a b ha hb
    rw [Ordering.swap_then, h.swap a b ha hb, hswap a b ha hb]
  · intro a b c ha hb hc hab hbc
    have hfirst : ∀ x y : α, (order x y).then (second x y) ≠ .gt → order x y ≠ .gt := by
      intro x y hxy heq
      rw [heq] at hxy
      exact hxy rfl
    have hle := h.trans a b c ha hb hc (hfirst a b hab) (hfirst b c hbc)
    cases hac : order a c with
    | lt => simp [Ordering.then]
    | gt => exact absurd hac hle
    | eq =>
        have heqab : order a b = .eq := by
          cases hcase : order a b with
          | eq => rfl
          | gt => exact absurd hcase (hfirst a b hab)
          | lt =>
              rw [h.lt_of_lt_of_le ha hb hc hcase (hfirst b c hbc)] at hac
              cases hac
        have heqbc : order b c = .eq := by
          cases hcase : order b c with
          | eq => rfl
          | gt => exact absurd hcase (hfirst b c hbc)
          | lt =>
              rw [h.lt_of_le_of_lt ha hb hc (hfirst a b hab) hcase] at hac
              cases hac
        rw [heqab] at hab
        rw [heqbc] at hbc
        exact htrans a b c ha hb hc heqab heqbc hab hbc

/-- Two orders one after the other. -/
theorem lex (h : OrdersOn order items) (hsecond : OrdersOn second items) :
    OrdersOn (fun a b => (order a b).then (second a b)) items :=
  h.lexWithin hsecond.swap fun a b c ha hb hc _ _ => hsecond.trans a b c ha hb hc

end OrdersOn

/-- An order on some items is that of a total order on all. -/
theorem OrdersOn.exists_total {α : Type} {order : α → α → Ordering} {items : α → Prop}
    (h : OrdersOn order items) :
    ∃ le : α → α → Bool, (∀ a b c, le a b = true → le b c = true → le a c = true) ∧
      (∀ a b, (le a b || le b a) = true) ∧
      ∀ a b, items a → items b → le a b = (order a b != .gt) := by
  classical
  refine ⟨fun a b => decide (items b → items a ∧ order a b ≠ .gt), ?_, ?_, ?_⟩
  · intro a b c hab hbc
    rw [decide_eq_true_eq] at hab hbc ⊢
    intro hc
    obtain ⟨hb, hbc⟩ := hbc hc
    obtain ⟨ha, hab⟩ := hab hb
    exact ⟨ha, h.trans a b c ha hb hc hab hbc⟩
  · intro a b
    rw [Bool.or_eq_true, decide_eq_true_eq, decide_eq_true_eq]
    by_cases ha : items a
    · by_cases hb : items b
      · by_cases hab : order a b = .gt
        · right
          intro _
          rw [h.swap a b ha hb, hab]
          exact ⟨hb, by decide⟩
        · exact Or.inl fun _ => ⟨ha, hab⟩
      · exact Or.inl fun hmem => absurd hmem hb
    · exact Or.inr fun hmem => absurd hmem ha
  · intro a b ha hb
    rw [Bool.eq_iff_iff, decide_eq_true_eq, bne_iff_ne]
    exact ⟨fun hle => (hle hb).2, fun hle _ => ⟨ha, hle⟩⟩

/-- Comparing a quantity of theirs orders all items. -/
theorem ordersOn_compare {α β : Type} [Ord β] [Std.TransOrd β]
    (quantity : α → β) : OrdersOn (fun a b => Ord.compare (quantity a) (quantity b)) fun _ => True := by
  constructor
  · intro a b _ _
    exact Std.OrientedOrd.eq_swap
  · intro a b c _ _ _ hab hbc
    exact Ordering.isLE_iff_ne_gt.mp (Std.TransCmp.isLE_trans (Ordering.isLE_iff_ne_gt.mpr hab)
      (Ordering.isLE_iff_ne_gt.mpr hbc))

/-! ### Inserting -/

section Inserting

variable {α β : Type} {order : α → α → Ordering}

/-- Inserting adds the item. -/
theorem insertBehind_perm (order : α → α → Ordering) (item : α) (sorted : List α) :
    (insertBehind order item sorted).Perm (item :: sorted) := by
  induction sorted with
  | nil => exact List.Perm.refl _
  | cons last before ih =>
      rw [insertBehind]
      split
      · exact (ih.cons last).trans (List.Perm.swap item last before)
      · exact List.Perm.refl _

/-- The item is inserted before those that it comes before, up to the first that it does not come
before, seen from the end. -/
theorem insertBehind_split (order : α → α → Ordering) (item : α) (sorted : List α) :
    ∃ after before, sorted = after ++ before ∧
      insertBehind order item sorted = after ++ item :: before ∧
      (∀ other ∈ after, order item other = .lt) ∧
      ∀ last ∈ before.head?, order item last ≠ .lt := by
  induction sorted with
  | nil => exact ⟨[], [], rfl, rfl, List.forall_mem_nil _, nofun⟩
  | cons last before ih =>
      rw [insertBehind]
      split
      · next hless =>
          obtain ⟨after, rest, rfl, hinserted, hafter, hrest⟩ := ih
          refine ⟨last :: after, rest, rfl, ?_, List.forall_mem_cons.mpr ⟨hless, hafter⟩, hrest⟩
          rw [hinserted]
          rfl
      · next hless =>
          refine ⟨[], last :: before, rfl, rfl, List.forall_mem_nil _, ?_⟩
          rintro _ ⟨⟩
          exact hless

/-- What a map shows of the items is inserted as they are. -/
theorem map_insertBehind {other : β → β → Ordering} {f : α → β} {item : α} {sorted : List α}
    (h : ∀ a ∈ sorted, order item a = other (f item) (f a)) :
    (insertBehind order item sorted).map f = insertBehind other (f item) (sorted.map f) := by
  induction sorted with
  | nil => rfl
  | cons last before ih =>
      obtain ⟨hlast, hbefore⟩ := List.forall_mem_cons.mp h
      rw [insertBehind, List.map_cons, insertBehind, ← hlast]
      split
      · rw [List.map_cons, ih hbefore]
      · rfl

/-- The last item is inserted among the others. -/
theorem sortByInserting_concat (order : α → α → Ordering) (items : List α) (item : α) :
    sortByInserting order (items ++ [item]) =
      (insertBehind order item (sortByInserting order items).reverse).reverse := by
  rw [sortByInserting, List.foldl_append, sortByInserting, List.reverse_reverse]
  rfl

/-- Inserting items one after the other keeps them all. -/
theorem sortByInserting_perm (order : α → α → Ordering) (items : List α) :
    (sortByInserting order items).Perm items := by
  induction items using List.reverseRecOn with
  | nil => exact List.Perm.refl _
  | append_singleton items item ih =>
      rw [sortByInserting_concat]
      have hinserted := insertBehind_perm order item (sortByInserting order items).reverse
      have hothers := (List.reverse_perm (sortByInserting order items)).trans ih
      exact (List.reverse_perm _).trans
        (hinserted.trans ((hothers.cons item).trans (List.perm_append_singleton item items).symm))

/-- What a map shows of the items is sorted as they are. -/
theorem map_sortByInserting {other : β → β → Ordering} {f : α → β} {items : List α}
    (h : ∀ a ∈ items, ∀ b ∈ items, order a b = other (f a) (f b)) :
    (sortByInserting order items).map f = sortByInserting other (items.map f) := by
  induction items using List.reverseRecOn with
  | nil => rfl
  | append_singleton items item ih =>
      have hitem : item ∈ items ++ [item] := List.mem_append_right _ List.mem_cons_self
      have hothers : ∀ a ∈ (sortByInserting order items).reverse,
          order item a = other (f item) (f a) := fun a ha =>
        h item hitem a (List.mem_append_left _
          ((sortByInserting_perm order items).subset (List.mem_reverse.mp ha)))
      rw [sortByInserting_concat, List.map_append, List.map_singleton, sortByInserting_concat,
        List.map_reverse, map_insertBehind hothers, List.map_reverse, ih fun a ha b hb =>
          h a (List.mem_append_left _ ha) b (List.mem_append_left _ hb)]

end Inserting

/-! ### Merging -/

section Merging

variable {α β : Type} {le : α → α → Bool}

/-- A list has one place where the items that satisfy a test begin. -/
theorem append_eq_of_test {test : α → Bool} {left right before after : List α}
    (h : left ++ right = before ++ after) (hleft : ∀ a ∈ left, test a = false)
    (hright : ∀ a ∈ right, test a = true) (hbefore : ∀ a ∈ before, test a = false)
    (hafter : ∀ a ∈ after, test a = true) : left = before ∧ right = after := by
  rcases List.append_eq_append_iff.mp h with ⟨middle, rfl, rfl⟩ | ⟨middle, rfl, rfl⟩
  · cases middle with
    | nil => exact ⟨(List.append_nil _).symm, rfl⟩
    | cons a rest =>
        have hfalse := hbefore a (List.mem_append_right _ List.mem_cons_self)
        have htrue := hright a List.mem_cons_self
        rw [hfalse] at htrue
        cases htrue
  · cases middle with
    | nil => exact ⟨List.append_nil _, rfl⟩
    | cons a rest =>
        have hfalse := hleft a (List.mem_append_right _ List.mem_cons_self)
        have htrue := hafter a List.mem_cons_self
        rw [hfalse] at htrue
        cases htrue

variable (htrans : ∀ a b c, le a b = true → le b c = true → le a c = true)
  (htotal : ∀ a b, (le a b || le b a) = true)

include htrans htotal

/-- Where an item goes when it is sorted in front of others: before the first that is not
smaller. -/
theorem mergeSort_cons_eq {item : α} {rest before after : List α}
    (h : rest.mergeSort le = before ++ after) (hbefore : ∀ b ∈ before, le item b = false)
    (hafter : ∀ b ∈ after, le item b = true) :
    (item :: rest).mergeSort le = before ++ item :: after := by
  obtain ⟨left, right, hsorted, hrest, hleft⟩ := List.mergeSort_cons htrans htotal item rest
  have hpairwise := List.pairwise_mergeSort htrans htotal (item :: rest)
  rw [hsorted] at hpairwise ⊢
  have hright := (List.pairwise_cons.mp (List.pairwise_append.mp hpairwise).2.1).1
  obtain ⟨rfl, rfl⟩ := append_eq_of_test (hrest.symm.trans h)
    (fun b hb => by simpa using hleft b hb) hright hbefore hafter
  rfl

/-- Where items go that are not told apart. -/
theorem mergeSort_append_eq {block rest before after : List α}
    (h : rest.mergeSort le = before ++ after)
    (hblock : ∀ a ∈ block, ∀ b ∈ block, le a b = true)
    (hbefore : ∀ a ∈ block, ∀ b ∈ before, le a b = false)
    (hafter : ∀ a ∈ block, ∀ b ∈ after, le a b = true) :
    (block ++ rest).mergeSort le = before ++ (block ++ after) := by
  induction block with
  | nil => exact h
  | cons item block ih =>
      have hrest := ih
        (fun a ha b hb => hblock a (List.mem_cons_of_mem _ ha) b (List.mem_cons_of_mem _ hb))
        (fun a ha => hbefore a (List.mem_cons_of_mem _ ha))
        (fun a ha => hafter a (List.mem_cons_of_mem _ ha))
      refine mergeSort_cons_eq htrans htotal hrest (hbefore item List.mem_cons_self) ?_
      intro b hb
      rcases List.mem_append.mp hb with hblockMem | hafterMem
      · exact hblock item List.mem_cons_self b (List.mem_cons_of_mem _ hblockMem)
      · exact hafter item List.mem_cons_self b hafterMem

/-- Pairs sorted by their first components are sorted as these are. -/
theorem mergeSort_pairs (f : α → List β) (items : List α) :
    (items.flatMap fun a => (f a).map (a, ·)).mergeSort (fun x y => le x.1 y.1) =
      (items.mergeSort le).flatMap fun a => (f a).map (a, ·) := by
  induction items with
  | nil => simp
  | cons item rest ih =>
      obtain ⟨left, right, hsorted, hrest, hleft⟩ := List.mergeSort_cons htrans htotal item rest
      have hpairwise := List.pairwise_mergeSort htrans htotal (item :: rest)
      rw [hsorted] at hpairwise
      have hright := (List.pairwise_cons.mp (List.pairwise_append.mp hpairwise).2.1).1
      have hself : le item item = true := by simpa using htotal item item
      rw [hrest, List.flatMap_append] at ih
      rw [hsorted, List.flatMap_append, List.flatMap_cons, List.flatMap_cons]
      refine mergeSort_append_eq (fun x y z => htrans x.1 y.1 z.1) (fun x y => htotal x.1 y.1) ih
        ?_ ?_ ?_
      · intro x hx y hy
        obtain ⟨_, -, rfl⟩ := List.mem_map.mp hx
        obtain ⟨_, -, rfl⟩ := List.mem_map.mp hy
        exact hself
      · intro x hx y hy
        obtain ⟨_, -, rfl⟩ := List.mem_map.mp hx
        obtain ⟨b, hb, hmem⟩ := List.mem_flatMap.mp hy
        obtain ⟨_, -, rfl⟩ := List.mem_map.mp hmem
        simpa using hleft b hb
      · intro x hx y hy
        obtain ⟨_, -, rfl⟩ := List.mem_map.mp hx
        obtain ⟨b, hb, hmem⟩ := List.mem_flatMap.mp hy
        obtain ⟨_, -, rfl⟩ := List.mem_map.mp hmem
        exact hright b hb

/-- Where an item goes when it is sorted behind others: behind the last that is not greater. -/
theorem mergeSort_concat_eq {item : α} : ∀ {rest before after : List α},
    rest.mergeSort le = before ++ after → (∀ b ∈ before, le b item = true) →
      (∀ b ∈ after, le b item = false) →
        (rest ++ [item]).mergeSort le = before ++ item :: after
  | [], before, after, h, _, _ => by
      obtain ⟨rfl, rfl⟩ := List.append_eq_nil_iff.mp (List.mergeSort_nil.symm.trans h).symm
      exact List.mergeSort_singleton item
  | first :: rest, before, after, h, hbefore, hafter => by
      obtain ⟨left, right, hsorted, hrest, hleft⟩ := List.mergeSort_cons htrans htotal first rest
      have hpairwise := List.pairwise_mergeSort htrans htotal (first :: rest)
      rw [hsorted] at hpairwise
      have hright := (List.pairwise_cons.mp (List.pairwise_append.mp hpairwise).2.1).1
      have hless : ∀ b ∈ left, le first b = false := fun b hb => by simpa using hleft b hb
      have hbehind : ∀ middle, left = before ++ middle → after = middle ++ first :: right →
          (first :: rest ++ [item]).mergeSort le = before ++ item :: after := by
        rintro middle rfl rfl
        have hothers : ∀ b ∈ middle ++ right, le b item = false := fun b hb =>
          hafter b (List.mem_append.mpr ((List.mem_append.mp hb).imp_right (List.mem_cons_of_mem _)))
        have hshorter := mergeSort_concat_eq (hrest.trans (List.append_assoc ..)) hbefore hothers
        rw [← List.cons_append, ← List.append_assoc] at hshorter
        refine (mergeSort_cons_eq htrans htotal hshorter ?_ hright).trans (by simp)
        intro b hb
        rcases List.mem_append.mp hb with hb | hb
        · exact hless b (List.mem_append_left _ hb)
        · rcases List.mem_cons.mp hb with rfl | hb
          · exact hafter first (List.mem_append_right _ List.mem_cons_self)
          · exact hless b (List.mem_append_right _ hb)
      rcases List.append_eq_append_iff.mp (hsorted.symm.trans h) with
        ⟨_ | ⟨_, middle⟩, rfl, hmiddle⟩ | ⟨middle, rfl, rfl⟩
      · exact hbehind [] (by simp) hmiddle.symm
      · obtain ⟨rfl, rfl⟩ := List.cons.inj hmiddle
        have hothers : ∀ b ∈ left ++ middle, le b item = true := fun b hb =>
          hbefore b (List.mem_append.mpr ((List.mem_append.mp hb).imp_right (List.mem_cons_of_mem _)))
        have hshorter := mergeSort_concat_eq (hrest.trans (List.append_assoc ..).symm) hothers hafter
        rw [List.append_assoc] at hshorter
        refine (mergeSort_cons_eq htrans htotal hshorter hless ?_).trans (by simp)
        intro b hb
        rcases List.mem_append.mp hb with hb | hb
        · exact hright b (List.mem_append_left _ hb)
        · rcases List.mem_cons.mp hb with rfl | hb
          · exact hbefore first (List.mem_append_right _ List.mem_cons_self)
          · exact hright b (List.mem_append_right _ hb)
      · exact hbehind middle rfl rfl

/-- Inserting one after the other comes to the same. -/
theorem sortByInserting_eq {order : α → α → Ordering} {items : List α}
    (h : ∀ a ∈ items, ∀ b ∈ items, order a b = .lt ↔ le b a = false) :
    sortByInserting order items = items.mergeSort le := by
  induction items using List.reverseRecOn with
  | nil => exact List.mergeSort_nil.symm
  | append_singleton items item ih =>
      have hmem : ∀ a ∈ items, a ∈ items ++ [item] := fun a ha => List.mem_append_left _ ha
      have hitem : item ∈ items ++ [item] := List.mem_append_right _ List.mem_cons_self
      have hsorted := ih fun a ha b hb => h a (hmem a ha) b (hmem b hb)
      obtain ⟨after, before, hsplit, hinserted, hafter, hlast⟩ :=
        insertBehind_split order item (sortByInserting order items).reverse
      have hmerged : items.mergeSort le = before.reverse ++ after.reverse := by
        rw [← hsorted, ← List.reverse_append, ← hsplit, List.reverse_reverse]
      have hless : ∀ b ∈ before ++ after, order item b = .lt ↔ le b item = false := by
        intro b hb
        refine h item hitem b (hmem b ((List.mergeSort_perm items le).subset ?_))
        rw [hmerged]
        simpa [or_comm] using hb
      rw [sortByInserting_concat, hinserted, List.reverse_append, List.reverse_cons,
        List.append_assoc, List.singleton_append]
      refine (mergeSort_concat_eq htrans htotal hmerged ?_ ?_).symm
      · have hpairwise := List.pairwise_mergeSort htrans htotal items
        rw [hmerged, List.pairwise_append, List.pairwise_reverse] at hpairwise
        intro b hb
        cases before with
        | nil => cases hb
        | cons last rest =>
            have hle : le last item = true := by
              have hnot := (hless last List.mem_cons_self).not.mp (hlast last rfl)
              rwa [Bool.not_eq_false] at hnot
            rcases List.mem_cons.mp (List.mem_reverse.mp hb) with rfl | hrest
            · exact hle
            · exact htrans b last item ((List.pairwise_cons.mp hpairwise.1).1 b hrest) hle
      · intro b hb
        have hmemAfter := List.mem_reverse.mp hb
        exact (hless b (List.mem_append_right _ hmemAfter)).mp (hafter b hmemAfter)

end Merging

/-! ### Sorting -/

section Sorting

variable {α β : Type} {order : α → α → Ordering}

@[simp]
theorem stableSort_nil (order : α → α → Ordering) : stableSort order [] = [] := rfl

@[simp]
theorem stableSort_singleton (order : α → α → Ordering) (item : α) :
    stableSort order [item] = [item] := rfl

/-- Sorting keeps all items, whatever the order. -/
theorem stableSort_perm (order : α → α → Ordering) (items : List α) :
    (stableSort order items).Perm items := by
  unfold stableSort
  split
  · exact sortByInserting_perm order items
  · exact List.mergeSort_perm _ _

/-- What a map shows of the items is sorted as they are, whatever the order. -/
theorem map_stableSort {other : β → β → Ordering} {f : α → β} {items : List α}
    (h : ∀ a ∈ items, ∀ b ∈ items, order a b = other (f a) (f b)) :
    (stableSort order items).map f = stableSort other (items.map f) := by
  unfold stableSort
  rw [List.length_map]
  split
  · exact map_sortByInserting h
  · exact List.map_mergeSort fun a ha b hb => congrArg (· != .gt) (h a ha b hb)

/-- Sorting by an order on the items is sorting by a total order. -/
theorem OrdersOn.exists_sort {items : List α} (h : OrdersOn order (· ∈ items)) :
    ∃ le : α → α → Bool, (∀ a b c, le a b = true → le b c = true → le a c = true) ∧
      (∀ a b, (le a b || le b a) = true) ∧
      (∀ a ∈ items, ∀ b ∈ items, le a b = (order a b != .gt)) ∧
      stableSort order items = items.mergeSort le := by
  obtain ⟨le, htrans, htotal, hagree⟩ := h.exists_total
  refine ⟨le, htrans, htotal, fun a ha b hb => hagree a b ha hb, ?_⟩
  unfold stableSort
  split
  · refine sortByInserting_eq htrans htotal fun a ha b hb => ?_
    rw [hagree b a hb ha, h.swap a b ha hb]
    cases order a b <;> decide
  · have hmap := @List.map_mergeSort _ _ le (fun a b => order a b != .gt) id items
      fun a ha b hb => hagree a b ha hb
    simpa using hmap.symm

/-- What is sorted by an order on the items is in order. -/
theorem OrdersOn.pairwise_stableSort {items : List α} (h : OrdersOn order (· ∈ items)) :
    (stableSort order items).Pairwise fun a b => order a b ≠ .gt := by
  obtain ⟨le, htrans, htotal, hagree, hitems⟩ := h.exists_sort
  rw [hitems]
  refine (List.pairwise_mergeSort htrans htotal items).imp_of_mem ?_
  intro a b ha hb hle
  rw [hagree a (List.mem_mergeSort.mp ha) b (List.mem_mergeSort.mp hb)] at hle
  exact bne_iff_ne.mp hle

/-- Items that are in order stay as they stand. -/
theorem OrdersOn.stableSort_of_pairwise {items : List α} (h : OrdersOn order (· ∈ items))
    (hpairwise : items.Pairwise fun a b => order a b ≠ .gt) : stableSort order items = items := by
  obtain ⟨le, -, -, hagree, hitems⟩ := h.exists_sort
  rw [hitems]
  refine List.mergeSort_of_pairwise (hpairwise.imp_of_mem fun ha hb hle => ?_)
  rw [hagree _ ha _ hb]
  exact bne_iff_ne.mpr hle

/-- So do items that the order does not tell apart. -/
theorem stableSort_of_same {items : List α} (h : ∀ a ∈ items, ∀ b ∈ items, order a b = .eq) :
    stableSort order items = items := by
  have horders : OrdersOn order (· ∈ items) := by
    constructor
    · intro a b ha hb
      rw [h a ha b hb, h b hb a ha]
      rfl
    · intro a b c ha _ hc _ _
      rw [h a ha c hc]
      decide
  refine horders.stableSort_of_pairwise (List.Pairwise.imp_of_mem ?_ (List.pairwise_of_forall
    fun _ _ => trivial))
  intro a b ha hb _
  rw [h a ha b hb]
  decide

/-- Items that repeat others are sorted as these are, if they are ordered as these are. -/
theorem OrdersOn.stableSort_flatMap {items : List α} (h : OrdersOn order (· ∈ items))
    (f : α → List β) {orderRow : β → β → Ordering}
    (hrow : ∀ a ∈ items, ∀ b ∈ items, ∀ x ∈ f a, ∀ y ∈ f b, orderRow x y = order a b) :
    stableSort orderRow (items.flatMap f) = (stableSort order items).flatMap f := by
  have hrows : OrdersOn orderRow (· ∈ items.flatMap f) := by
    constructor
    · intro x y hx hy
      obtain ⟨a, ha, hxa⟩ := List.mem_flatMap.mp hx
      obtain ⟨b, hb, hyb⟩ := List.mem_flatMap.mp hy
      rw [hrow a ha b hb x hxa y hyb, hrow b hb a ha y hyb x hxa]
      exact h.swap a b ha hb
    · intro x y z hx hy hz
      obtain ⟨a, ha, hxa⟩ := List.mem_flatMap.mp hx
      obtain ⟨b, hb, hyb⟩ := List.mem_flatMap.mp hy
      obtain ⟨c, hc, hzc⟩ := List.mem_flatMap.mp hz
      rw [hrow a ha b hb x hxa y hyb, hrow b hb c hc y hyb z hzc, hrow a ha c hc x hxa z hzc]
      exact h.trans a b c ha hb hc
  obtain ⟨le, htrans, htotal, hagree, hitems⟩ := h.exists_sort
  obtain ⟨leRow, -, -, hagreeRow, hsorted⟩ := hrows.exists_sort
  have hsecond : ∀ some : List α, (some.flatMap fun a => (f a).map (a, ·)).map (·.2) =
      some.flatMap f := by
    intro some
    rw [List.map_flatMap]
    refine List.flatMap_congr ?_
    intro a _
    rw [List.map_map]
    exact List.map_id _
  rw [hsorted, hitems, ← hsecond items, ← hsecond (items.mergeSort le),
    ← mergeSort_pairs htrans htotal f items]
  refine (List.map_mergeSort ?_).symm
  intro x hx y hy
  obtain ⟨a, ha, hmemx⟩ := List.mem_flatMap.mp hx
  obtain ⟨_, hfx, rfl⟩ := List.mem_map.mp hmemx
  obtain ⟨b, hb, hmemy⟩ := List.mem_flatMap.mp hy
  obtain ⟨_, hfy, rfl⟩ := List.mem_map.mp hmemy
  rw [hagree a ha b hb, hagreeRow _ (List.mem_flatMap.mpr ⟨a, ha, hfx⟩) _
    (List.mem_flatMap.mpr ⟨b, hb, hfy⟩), hrow a ha b hb _ hfx _ hfy]

/-- Sorting and then keeping some of the items is keeping them and then sorting. -/
theorem OrdersOn.stableSort_filter {items : List α} (h : OrdersOn order (· ∈ items))
    (keep : α → Bool) :
    stableSort order (items.filter keep) = (stableSort order items).filter keep := by
  have hfilter : ∀ items : List α,
      items.filter keep = items.flatMap fun a => if keep a then [a] else [] := by
    intro items
    induction items with
    | nil => rfl
    | cons a rest ih =>
        rw [List.flatMap_cons, ← ih, List.filter_cons]
        split <;> rfl
  rw [hfilter items, hfilter (stableSort order items)]
  refine h.stableSort_flatMap _ ?_
  intro a _ b _ x hx y hy
  split at hx
  · split at hy
    · rw [List.mem_singleton.mp hx, List.mem_singleton.mp hy]
    · cases hy
  · cases hx

end Sorting

end NestedQuery
