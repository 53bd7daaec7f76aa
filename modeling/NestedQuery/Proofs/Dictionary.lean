import NestedQuery.Dict
import Mathlib.Data.List.Nodup
import Mathlib.Data.String.Basic

/-!
# Laws of dictionaries

Looking up after each operation on dictionaries says what the operation does,
and holds of any list of pairs.  In a dictionary whose names increase strictly
the lookups also determine the list: two such dictionaries that answer every
name alike are equal.  That is how nested records built along different ways
are shown to be the same records.
-/

namespace NestedQuery.Dict

variable {α β : Type}

/-- The names increase strictly. -/
def Sorted (dict : Dict α) : Prop :=
  dict.Pairwise fun a b => a.1 < b.1

/-! ### Looking up -/

/-- Looking up compares with the first name and goes on behind it. -/
theorem lookup_cons (name known : String) (kept : α) (rest : Dict α) :
    List.lookup name ((known, kept) :: rest) =
      if name = known then some kept else rest.lookup name := by
  rw [List.lookup_cons]
  by_cases h : name = known
  · simp [h]
  · simp [h, beq_eq_false_iff_ne.mpr h]

/-- After a binding its name has the new value, and every other name what it had. -/
theorem lookup_put (name other : String) (value : α) (dict : Dict α) :
    (put name value dict).lookup other = if other = name then some value else dict.lookup other := by
  induction dict with
  | nil => simp [put, lookup_cons]
  | cons pair rest ih =>
      obtain ⟨known, kept⟩ := pair
      rw [put]
      split
      · rw [lookup_cons]
      · split
        · next heq =>
            subst heq
            by_cases h : other = name <;> simp [lookup_cons, h]
        · next hne =>
            rw [lookup_cons, lookup_cons, ih]
            by_cases h : other = known
            · simp [h, Ne.symm hne]
            · simp [h]

@[simp]
theorem lookup_put_self (name : String) (value : α) (dict : Dict α) :
    (put name value dict).lookup name = some value := by
  simp [lookup_put]

/-- A binding leaves other names alone. -/
theorem lookup_put_of_ne {name other : String} (h : other ≠ name) (value : α) (dict : Dict α) :
    (put name value dict).lookup other = dict.lookup other := by
  simp [lookup_put, h]

/-- Of the added pairs with one name the last holds; other names keep what they had. -/
theorem lookup_putAll (name : String) (dict : Dict α) (more : List (String × α)) :
    (putAll dict more).lookup name = (more.reverse.lookup name).or (dict.lookup name) := by
  unfold putAll
  induction more generalizing dict with
  | nil => simp
  | cons pair rest ih =>
      obtain ⟨added, value⟩ := pair
      rw [List.foldl_cons, ih, lookup_put, List.reverse_cons, List.lookup_append, lookup_cons]
      by_cases h : name = added <;> simp [h]

/-- In the dictionary of a list of pairs the last pair of a name holds. -/
theorem lookup_ofPairs (name : String) (pairs : List (String × α)) :
    (ofPairs pairs).lookup name = pairs.reverse.lookup name := by
  simpa [ofPairs, putAll] using lookup_putAll name [] pairs

/-- A dictionary that binds each of some names to what a function gives. -/
theorem lookup_ofPairs_map (names : List String) (value : String → α) (name : String) :
    (ofPairs (names.map fun known => (known, value known))).lookup name =
      if name ∈ names then some (value name) else none := by
  have hlookup : ∀ names : List String, (names.map fun known => (known, value known)).lookup name =
      if name ∈ names then some (value name) else none := by
    intro names
    induction names with
    | nil => rfl
    | cons first rest ih =>
        rw [List.map_cons, lookup_cons, ih]
        by_cases hname : name = first
        · simp [hname]
        · simp [hname]
  rw [lookup_ofPairs, ← List.map_reverse, hlookup]
  simp only [List.mem_reverse]

/-- Changing one binding changes that lookup and no other. -/
theorem lookup_adjust (name other : String) (change : α → α) (dict : Dict α) :
    (adjust name change dict).lookup other =
      (dict.lookup other).map fun value => if other = name then change value else value := by
  unfold adjust
  induction dict with
  | nil => simp
  | cons pair rest ih =>
      obtain ⟨known, kept⟩ := pair
      rw [List.map_cons, lookup_cons]
      by_cases hk : known = name
      · rw [if_pos hk, lookup_cons, ih]
        by_cases ho : other = known
        · simp [ho, hk]
        · simp [ho]
      · rw [if_neg hk, lookup_cons, ih]
        by_cases ho : other = known
        · simp [ho, hk]
        · simp [ho]

theorem lookup_adjust_self (name : String) (change : α → α) (dict : Dict α) :
    (adjust name change dict).lookup name = (dict.lookup name).map change := by
  rw [lookup_adjust]
  simp only [if_true]

theorem lookup_adjust_of_ne {name other : String} (h : other ≠ name) (change : α → α)
    (dict : Dict α) : (adjust name change dict).lookup other = dict.lookup other := by
  rw [lookup_adjust]
  simp only [if_neg h, Option.map_id']

theorem names_append (left right : Dict α) :
    names (left ++ right) = left.names ++ right.names :=
  List.map_append

theorem names_adjust (name : String) (change : α → α) (dict : Dict α) :
    (adjust name change dict).names = dict.names := by
  unfold adjust names
  rw [List.map_map]
  refine List.map_congr_left ?_
  intro pair _
  rw [Function.comp_apply]
  split <;> rfl

/-- Keeping the pairs of some names keeps the lookups of those names. -/
theorem lookup_filter (keep : String → Bool) (name : String) (dict : Dict α) :
    (dict.filter fun pair => keep pair.1).lookup name =
      if keep name then dict.lookup name else none := by
  induction dict with
  | nil => simp
  | cons pair rest ih =>
      obtain ⟨known, kept⟩ := pair
      rw [List.filter_cons, lookup_cons]
      by_cases hk : keep known
      · rw [if_pos hk, lookup_cons, ih]
        by_cases hn : name = known <;> simp_all
      · rw [if_neg hk, ih]
        by_cases hn : name = known <;> simp_all

/-- Changing every value changes every lookup. -/
theorem lookup_mapValues (change : α → β) (name : String) (dict : Dict α) :
    (dict.map fun pair => (pair.1, change pair.2)).lookup name =
      (dict.lookup name).map change := by
  induction dict with
  | nil => simp
  | cons pair rest ih =>
      obtain ⟨known, kept⟩ := pair
      rw [List.map_cons, lookup_cons, lookup_cons, ih]
      split <;> rfl

/-- A name is bound exactly if it is found. -/
theorem binds_eq (dict : Dict α) (name : String) :
    dict.binds name = (dict.lookup name).isSome := by
  induction dict with
  | nil => rfl
  | cons pair rest ih =>
      obtain ⟨known, kept⟩ := pair
      rw [binds, List.any_cons, lookup_cons]
      by_cases h : name = known
      · simp [h]
      · have hne : (known == name) = false := beq_eq_false_iff_ne.mpr (Ne.symm h)
        rw [if_neg h, ← ih, hne, Bool.false_or, binds]

/-- What is found is one of the pairs. -/
theorem mem_of_lookup {dict : Dict α} {name : String} {value : α}
    (h : dict.lookup name = some value) : (name, value) ∈ dict := by
  obtain ⟨before, after, rfl, -⟩ := List.lookup_eq_some_iff.mp h
  simp

/-- A name is found exactly if it is one of the names. -/
theorem lookup_isSome_iff {dict : Dict α} {name : String} :
    (dict.lookup name).isSome ↔ name ∈ dict.names := by
  rw [← binds_eq, binds, List.any_eq_true, names, List.mem_map]
  constructor
  · rintro ⟨pair, hpair, hname⟩
    exact ⟨pair, hpair, by simpa using hname⟩
  · rintro ⟨pair, hpair, hname⟩
    exact ⟨pair, hpair, by simpa using hname⟩

/-- A name that is none of the names is not found. -/
theorem lookup_eq_none_iff {dict : Dict α} {name : String} :
    dict.lookup name = none ↔ name ∉ dict.names := by
  rw [← lookup_isSome_iff, Option.not_isSome_iff_eq_none]

/-- The dictionary of a list of pairs binds their names, each to a value paired with it. -/
theorem exists_lookup_ofPairs {pairs : List (String × α)} {name : String}
    (h : name ∈ names pairs) :
    ∃ value, (ofPairs pairs).lookup name = some value ∧ (name, value) ∈ pairs := by
  have hmem : name ∈ names pairs.reverse := by
    rw [names, List.map_reverse]
    exact List.mem_reverse.mpr h
  obtain ⟨value, hvalue⟩ := Option.isSome_iff_exists.mp (lookup_isSome_iff.mpr hmem)
  rw [← lookup_ofPairs] at hvalue
  refine ⟨value, hvalue, ?_⟩
  rw [lookup_ofPairs] at hvalue
  exact List.mem_reverse.mp (mem_of_lookup hvalue)

/-- What the dictionary in front binds hides what stands behind it. -/
theorem lookup_append_of_mem {left : Dict α} {name : String} (h : name ∈ left.names)
    (right : Dict α) : (left ++ right).lookup name = left.lookup name := by
  obtain ⟨value, hvalue⟩ := Option.isSome_iff_exists.mp (lookup_isSome_iff.mpr h)
  rw [List.lookup_append, hvalue]
  rfl

theorem lookup_append_of_notMem {left : Dict α} {name : String} (h : name ∉ left.names)
    (right : Dict α) : (left ++ right).lookup name = right.lookup name := by
  rw [List.lookup_append, lookup_eq_none_iff.mpr h, Option.none_or]

/-- Where names are distinct, every pair is found under its name. -/
theorem lookup_of_mem {dict : Dict α} (hnodup : dict.names.Nodup) {name : String} {value : α}
    (h : (name, value) ∈ dict) : dict.lookup name = some value := by
  induction dict with
  | nil => cases h
  | cons pair rest ih =>
      obtain ⟨known, kept⟩ := pair
      rw [names, List.map_cons, List.nodup_cons] at hnodup
      rcases List.mem_cons.mp h with heq | hrest
      · cases heq
        simp
      · have hne : name ≠ known := by
          rintro rfl
          exact hnodup.1 (List.mem_map.mpr ⟨_, hrest, rfl⟩)
        rw [lookup_cons, if_neg hne]
        exact ih hnodup.2 hrest

/-- Where names are distinct, it does not matter from which end they are looked up. -/
theorem lookup_reverse {dict : Dict α} (hnodup : dict.names.Nodup) (name : String) :
    dict.reverse.lookup name = dict.lookup name := by
  have hreverse : (names dict.reverse).Nodup := by
    rw [names, List.map_reverse]
    exact List.nodup_reverse.mpr hnodup
  cases h : dict.lookup name with
  | none =>
      rw [lookup_eq_none_iff] at h ⊢
      rw [names, List.map_reverse, List.mem_reverse]
      exact h
  | some value => exact lookup_of_mem hreverse (List.mem_reverse.mpr (mem_of_lookup h))

/-! ### Order -/

/-- Of distinct names added to a dictionary the new values are found. -/
theorem lookup_putAll_of_nodup {dict : Dict α} {more : List (String × α)}
    (hnodup : (more.map (·.1)).Nodup) (name : String) :
    (putAll dict more).lookup name = (more.lookup name).or (dict.lookup name) := by
  rw [lookup_putAll, lookup_reverse hnodup]

/-- The names of a sorted dictionary are distinct. -/
theorem Sorted.names_nodup {dict : Dict α} (h : Sorted dict) : dict.names.Nodup := by
  refine List.pairwise_map.mpr (h.imp ?_)
  intro a b hlt heq
  rw [heq] at hlt
  exact String.lt_irrefl _ hlt

/-- A new binding is one of the pairs or was there before. -/
theorem mem_put {name : String} {value : α} {dict : Dict α} {pair : String × α}
    (h : pair ∈ put name value dict) : pair = (name, value) ∨ pair ∈ dict := by
  induction dict with
  | nil => simpa [put] using h
  | cons known rest ih =>
      rw [put] at h
      split at h
      · simpa using h
      · split at h
        · exact (List.mem_cons.mp h).imp_right (List.mem_cons_of_mem _)
        · rcases List.mem_cons.mp h with heq | hrest
          · exact Or.inr (heq ▸ List.mem_cons_self)
          · exact (ih hrest).imp_right (List.mem_cons_of_mem _)

/-- Binding a new name adds a pair. -/
theorem put_perm {name : String} {dict : Dict α} (h : name ∉ dict.names) (value : α) :
    (put name value dict).Perm ((name, value) :: dict) := by
  induction dict with
  | nil => exact List.Perm.refl _
  | cons pair rest ih =>
      obtain ⟨known, kept⟩ := pair
      rw [names, List.map_cons, List.mem_cons, not_or] at h
      rw [put]
      split
      · exact List.Perm.refl _
      · rw [if_neg h.1]
        exact ((ih h.2).cons _).trans (List.Perm.swap _ _ _)

/-- Pairs under new and distinct names are all added. -/
theorem putAll_perm {dict : Dict α} {more : List (String × α)}
    (h : (dict.names ++ more.map (·.1)).Nodup) : (putAll dict more).Perm (dict ++ more) := by
  induction more generalizing dict with
  | nil => exact List.Perm.of_eq (List.append_nil dict).symm
  | cons pair rest ih =>
      have hnew : pair.1 ∉ dict.names := by
        intro hmem
        exact (List.nodup_append.mp h).2.2 _ hmem _ List.mem_cons_self rfl
      have hput := put_perm hnew pair.2
      have hnames : ((put pair.1 pair.2 dict).names ++ rest.map (·.1)).Perm
          (dict.names ++ (pair :: rest).map (·.1)) :=
        ((hput.map (·.1)).append_right _).trans List.perm_middle.symm
      have hrest := ih (hnames.nodup_iff.mpr h)
      exact hrest.trans ((hput.append_right rest).trans List.perm_middle.symm)

/-- The dictionary of pairs under distinct names holds these pairs and no more. -/
theorem ofPairs_perm {pairs : List (String × α)} (h : (pairs.map (·.1)).Nodup) :
    (ofPairs pairs).Perm pairs :=
  @putAll_perm α [] pairs h

/-- Binding a name keeps a dictionary sorted. -/
theorem Sorted.put {dict : Dict α} (h : Sorted dict) (name : String) (value : α) :
    Sorted (put name value dict) := by
  induction dict with
  | nil => simp [Dict.put, Sorted]
  | cons pair rest ih =>
      obtain ⟨known, kept⟩ := pair
      obtain ⟨hfirst, hrest⟩ := List.pairwise_cons.mp h
      rw [Dict.put]
      split
      · next hlt =>
          refine List.pairwise_cons.mpr ⟨?_, h⟩
          intro other hother
          rcases List.mem_cons.mp hother with rfl | hmem
          · exact hlt
          · exact String.lt_trans hlt (hfirst other hmem)
      · split
        · next heq => exact List.pairwise_cons.mpr ⟨fun other hother => heq ▸ hfirst other hother, hrest⟩
        · next hnot hne =>
            have hlt : known < name := lt_of_le_of_ne (not_lt.mp hnot) (Ne.symm hne)
            refine List.pairwise_cons.mpr ⟨?_, ih hrest⟩
            intro other hother
            rcases mem_put hother with rfl | hmem
            · exact hlt
            · exact hfirst other hmem

/-- Binding several names keeps a dictionary sorted. -/
theorem Sorted.putAll {dict : Dict α} (h : Sorted dict) (more : List (String × α)) :
    Sorted (putAll dict more) := by
  unfold Dict.putAll
  induction more generalizing dict with
  | nil => exact h
  | cons pair rest ih => exact ih (h.put pair.1 pair.2)

/-- The dictionary of a list of pairs is sorted. -/
theorem sorted_ofPairs (pairs : List (String × α)) : Sorted (ofPairs pairs) := by
  have hempty : Sorted ([] : Dict α) := List.Pairwise.nil
  exact hempty.putAll pairs

/-- Being sorted is a matter of the names. -/
theorem sorted_of_names {dict : Dict α} {other : Dict β} (hnames : dict.names = other.names)
    (h : Sorted dict) : Sorted other := by
  unfold Sorted at h ⊢
  have hpairs : dict.names.Pairwise (· < ·) := List.pairwise_map.mpr h
  rw [hnames] at hpairs
  exact List.pairwise_map.mp hpairs

/-- Changing a value keeps a dictionary sorted. -/
theorem Sorted.adjust {dict : Dict α} (h : Sorted dict) (name : String) (change : α → α) :
    Sorted (adjust name change dict) := by
  refine List.pairwise_map.mpr (h.imp ?_)
  intro a b hlt
  split <;> split <;> exact hlt

/-- Leaving pairs out keeps a dictionary sorted. -/
theorem Sorted.filter {dict : Dict α} (h : Sorted dict) (keep : String × α → Bool) :
    Sorted (dict.filter keep) :=
  List.Pairwise.filter keep h

/-- Two sorted dictionaries that answer every name alike are equal. -/
theorem Sorted.ext {left right : Dict α} (hl : Sorted left) (hr : Sorted right)
    (h : ∀ name, left.lookup name = right.lookup name) : left = right := by
  have mem_iff : ∀ pair, pair ∈ left ↔ pair ∈ right := by
    rintro ⟨name, value⟩
    constructor
    · intro hmem
      exact mem_of_lookup ((h name).symm.trans (lookup_of_mem hl.names_nodup hmem))
    · intro hmem
      exact mem_of_lookup ((h name).trans (lookup_of_mem hr.names_nodup hmem))
  have hperm : left.Perm right :=
    (List.perm_ext_iff_of_nodup (List.Nodup.of_map _ hl.names_nodup)
      (List.Nodup.of_map _ hr.names_nodup)).mpr mem_iff
  refine hperm.eq_of_pairwise ?_ hl hr
  intro a b _ _ hab hba
  exact absurd (String.lt_trans hab hba) (String.lt_irrefl _)

theorem Sorted.adjust_put {dict : Dict α} (h : Sorted dict) (name : String) (change : α → α)
    (value : α) : Dict.adjust name change (Dict.put name value dict) =
      Dict.put name (change value) dict := by
  refine Sorted.ext (Sorted.adjust (Sorted.put h _ _) _ _) (Sorted.put h _ _) fun other => ?_
  rw [lookup_adjust, lookup_put, lookup_put]
  by_cases hother : other = name <;> simp [hother]

/-- Two changes of a bound value that agree on it adjust a dictionary alike. -/
theorem Sorted.adjust_congr {dict : Dict α} (h : Sorted dict) {name : String} {one other : α → α}
    (hagree : ∀ value, dict.lookup name = some value → one value = other value) :
    Dict.adjust name one dict = Dict.adjust name other dict := by
  refine Sorted.ext (Sorted.adjust h name one) (Sorted.adjust h name other) ?_
  intro key
  rw [lookup_adjust, lookup_adjust]
  refine Option.map_congr ?_
  intro value hvalue
  split
  · next heq => exact hagree value (heq ▸ hvalue)
  · rfl

end NestedQuery.Dict
