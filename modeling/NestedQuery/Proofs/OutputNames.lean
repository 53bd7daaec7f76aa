import Mathlib.Data.List.Nodup
import Mathlib.Data.List.Perm.Subperm
import NestedQuery.Proofs.Labels
import NestedQuery.Proofs.Planning

/-!
# Output names

No two columns of a joined statement share an output name.  A name that is taken
gets a number, and among one more candidates than there are taken names one is
free; every name that is given out is taken from then on, through the whole
layout.
-/

namespace NestedQuery

/-! ### Fresh names -/

/-- Different numbers make different candidates. -/
theorem candidateName_injective (wanted : String) {n m : Nat}
    (h : candidateName wanted n = candidateName wanted m) : n = m := by
  have hnumbered : ∀ k, k ≠ 0 → (candidateName wanted k).toList =
      wanted.toList ++ ['_'] ++ (toString k).toList := by
    intro k hk
    rw [candidateName, if_neg hk, String.toList_append, String.toList_append]
    rfl
  have hlonger : ∀ k, k ≠ 0 → candidateName wanted k ≠ candidateName wanted 0 := by
    intro k hk heq
    have hlength := congrArg (fun text : String => text.toList.length) heq
    rw [hnumbered k hk, candidateName, if_pos rfl, List.length_append, List.length_append,
      List.length_singleton] at hlength
    omega
  by_cases hn : n = 0
  · by_cases hm : m = 0
    · rw [hn, hm]
    · rw [hn] at h
      exact absurd h.symm (hlonger m hm)
  · by_cases hm : m = 0
    · rw [hm] at h
      exact absurd h (hlonger n hn)
    · have hchars := congrArg String.toList h
      rw [hnumbered n hn, hnumbered m hm] at hchars
      exact (number_injective (by decide) (by decide) hchars).1

/-- Among one more candidates than there are taken names one is free; the first of these is the fresh
name. -/
theorem freshName_first (taken : List String) (wanted : String) :
    ∃ n ≤ taken.length, freshName taken wanted = candidateName wanted n ∧
      candidateName wanted n ∉ taken ∧ ∀ m < n, candidateName wanted m ∈ taken := by
  have hfree : ∃ name ∈ (List.range (taken.length + 1)).map (candidateName wanted),
      name ∉ taken := by
    by_contra hall
    push Not at hall
    have hnodup : ((List.range (taken.length + 1)).map (candidateName wanted)).Nodup :=
      List.Nodup.map (fun n m h => candidateName_injective wanted h) List.nodup_range
    have hlength := (hnodup.subperm hall).length_le
    rw [List.length_map, List.length_range] at hlength
    omega
  cases hfind : (List.range (taken.length + 1)).find?
      fun n => !taken.contains (candidateName wanted n) with
  | none =>
      obtain ⟨name, hname, hnew⟩ := hfree
      obtain ⟨n, hn, rfl⟩ := List.mem_map.mp hname
      have htaken := List.find?_eq_none.mp hfind n hn
      simp at htaken
      exact absurd htaken hnew
  | some n =>
      obtain ⟨hnew, hmem, hfirst⟩ := List.find?_range_eq_some.mp hfind
      refine ⟨n, Nat.le_of_lt_succ (List.mem_range.mp hmem), ?_, by simpa using hnew, ?_⟩
      · rw [freshName, List.find?_map]
        exact congrArg (fun found => (found.map (candidateName wanted)).getD wanted) hfind
      · intro m hm
        simpa using hfirst m hm

/-- A fresh name is not taken. -/
theorem freshName_not_mem (taken : List String) (wanted : String) :
    freshName taken wanted ∉ taken := by
  obtain ⟨n, -, heq, hnew, -⟩ := freshName_first taken wanted
  exact heq ▸ hnew

/-- Names made fresh one after the other are apart from each other and from those taken before,
and are taken then. -/
theorem freshNames_apart (taken wanted : List String) :
    (freshNames taken wanted).1.Nodup ∧ (∀ name ∈ (freshNames taken wanted).1, name ∉ taken) ∧
      ∀ name, name ∈ (freshNames taken wanted).2 ↔
        name ∈ taken ∨ name ∈ (freshNames taken wanted).1 := by
  induction wanted generalizing taken with
  | nil => simp [freshNames]
  | cons first rest ih =>
      rw [freshNames]
      obtain ⟨hnodup, hapart, htaken⟩ := ih (freshName taken first :: taken)
      refine ⟨List.nodup_cons.mpr ⟨fun hmem => ?_, hnodup⟩, ?_, ?_⟩
      · exact hapart _ hmem List.mem_cons_self
      · intro name hname
        rcases List.mem_cons.mp hname with rfl | hmem
        · exact freshName_not_mem taken first
        · exact fun htakenName => hapart name hmem (List.mem_cons_of_mem _ htakenName)
      · intro name
        rw [htaken, List.mem_cons, List.mem_cons]
        tauto

/-! ### Names of a layout -/

mutual

/-- The output names of all columns of a layout. -/
def Layout.outputNames : Layout → List String
  | ⟨_, _, _, _, _, outputs, _, _, relations, _⟩ => outputs ++ branchOutputNames relations

def branchOutputNames : List (JoinedBranchOf Layout) → List String
  | [] => []
  | ⟨_, _, _, layout⟩ :: rest => layout.outputNames ++ branchOutputNames rest

end

/-- The names are apart from each other and from those taken before, and are taken then. -/
structure Apart (taken names after : List String) : Prop where
  nodup : names.Nodup
  fresh : ∀ name ∈ names, name ∉ taken
  taken : ∀ name, name ∈ after ↔ name ∈ taken ∨ name ∈ names

/-- Names given out after others. -/
theorem Apart.append {taken first middle second after : List String} (h : Apart taken first middle)
    (hsecond : Apart middle second after) : Apart taken (first ++ second) after := by
  refine ⟨List.nodup_append.mpr ⟨h.nodup, hsecond.nodup, ?_⟩, ?_, ?_⟩
  · rintro name hname other hother rfl
    exact hsecond.fresh name hother ((h.taken name).mpr (Or.inr hname))
  · intro name hname
    rcases List.mem_append.mp hname with hfirst | hlater
    · exact h.fresh name hfirst
    · exact fun htaken => hsecond.fresh name hlater ((h.taken name).mpr (Or.inl htaken))
  · intro name
    rw [hsecond.taken, h.taken, List.mem_append, or_assoc]

mutual

/-- The output names of a layout are apart. -/
theorem Layout.nameOutputs_apart : ∀ (layout : Layout) (taken : List String),
    Apart taken (layout.nameOutputs taken).1.outputNames (layout.nameOutputs taken).2
  | ⟨_, _, lead, _, columns, _, _, _, relations, _⟩, taken => by
      rw [Layout.nameOutputs]
      dsimp only
      rw [Layout.outputNames]
      obtain ⟨hnodup, hfresh, htaken⟩ := freshNames_apart taken (columns.map (lead ++ ·))
      exact Apart.append ⟨hnodup, hfresh, htaken⟩ (nameBranchOutputs_apart relations _)

theorem nameBranchOutputs_apart : ∀ (branches : List (JoinedBranchOf Layout))
    (taken : List String),
    Apart taken (branchOutputNames (nameBranchOutputs branches taken).1)
      (nameBranchOutputs branches taken).2
  | [], taken => by
      rw [nameBranchOutputs, branchOutputNames]
      refine ⟨List.nodup_nil, ?_, fun name => by simp⟩
      intro name hname
      cases hname
  | ⟨_, _, _, layout⟩ :: rest, taken => by
      rw [nameBranchOutputs]
      dsimp only
      rw [branchOutputNames]
      exact (layout.nameOutputs_apart taken).append (nameBranchOutputs_apart rest _)

end

/-- The output names of a planned layout are distinct. -/
theorem Shape.layout_outputNames_nodup (schema : Schema) (shape : Shape) (table : String)
    (extra : List String) : (shape.layout schema table extra).1.outputNames.Nodup :=
  (Layout.nameOutputs_apart _ []).nodup

end NestedQuery
