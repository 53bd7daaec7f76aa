import NestedQuery.Proofs.JoinedRecords
import NestedQuery.Proofs.Selection

/-!
# The columns of a joined statement and their names

Naming walks the tables of a statement depth first, and for every column it
searches a name that is still free: the wanted name, then the wanted name with
the numbers 1, 2 and so on.  A numbered name may be the wanted name of a later
column, so what is taken is kept for the whole walk.  Every search ends, as
different numbers make different names and only finitely many are taken; the
walk gives all columns names apart, and leaves the columns of the first table
the names that they have.  A result row is then nothing but the values of the
columns, each under the name of its own.
-/

namespace NestedQuery

variable {schema : Schema}

/-! ### The search for a free name -/

/-- The search for a free name from the `n`th candidate on ends with a name: with the candidate if
it is free, else with what the search from the next candidate on ends with. -/
inductive SearchEnds (taken : List String) (wanted : String) : Nat → String → Prop
  | free {n : Nat} (hfree : candidateName wanted n ∉ taken) :
      SearchEnds taken wanted n (candidateName wanted n)
  | next {n : Nat} {name : String} (htaken : candidateName wanted n ∈ taken)
      (hnext : SearchEnds taken wanted (n + 1) name) : SearchEnds taken wanted n name

/-- The search from the wanted name on ends with the fresh name.  Downward from the last candidate,
each search goes on with the one after it. -/
theorem searchEnds_freshName (taken : List String) (wanted : String) :
    SearchEnds taken wanted 0 (freshName taken wanted) := by
  obtain ⟨last, -, heq, hfree, hbefore⟩ := freshName_first taken wanted
  rw [heq]
  have hfrom : ∀ back ≤ last,
      SearchEnds taken wanted (last - back) (candidateName wanted last) := by
    intro back
    induction back with
    | zero => exact fun _ => .free hfree
    | succ back ih =>
        intro hback
        refine .next (hbefore _ (by omega)) ?_
        rw [show last - (back + 1) + 1 = last - back by omega]
        exact ih (by omega)
  simpa using hfrom last (Nat.le_refl last)

/-- Names are searched for one wanted name after the other, each of them taken from then on. -/
inductive NamedInTurn : List String → List String → List String → Prop
  | nil {taken : List String} : NamedInTurn taken [] []
  | cons {taken wanted names : List String} {first name : String}
      (hname : SearchEnds taken first 0 name) (hrest : NamedInTurn (name :: taken) wanted names) :
      NamedInTurn taken (first :: wanted) (name :: names)

/-- Fresh names are found in turn, each behind those before it. -/
theorem namedInTurn_freshNames (taken wanted : List String) :
    NamedInTurn taken wanted (freshNames taken wanted).1 := by
  induction wanted generalizing taken with
  | nil => exact .nil
  | cons first rest ih => exact .cons (searchEnds_freshName taken first) (ih _)

/-- The names wanted later are found with those before them taken. -/
theorem freshNames_append (taken first second : List String) :
    freshNames taken (first ++ second) =
      ((freshNames taken first).1 ++ (freshNames (freshNames taken first).2 second).1,
        (freshNames (freshNames taken first).2 second).2) := by
  induction first generalizing taken with
  | nil => rfl
  | cons name rest ih =>
      rw [List.cons_append, freshNames, ih, freshNames]
      rfl

/-- A name that is not taken is fresh itself. -/
theorem freshName_of_notMem {taken : List String} {wanted : String} (h : wanted ∉ taken) :
    freshName taken wanted = wanted := by
  obtain ⟨n, -, heq, -, hbefore⟩ := freshName_first taken wanted
  cases n with
  | zero => exact heq
  | succ n => exact absurd (hbefore 0 (Nat.succ_pos n)) h

/-- Names that are apart and not taken are kept. -/
theorem freshNames_of_apart {taken wanted : List String} (hnodup : wanted.Nodup)
    (hnew : ∀ name ∈ wanted, name ∉ taken) : (freshNames taken wanted).1 = wanted := by
  induction wanted generalizing taken with
  | nil => rfl
  | cons first rest ih =>
      obtain ⟨hfirst, hrest⟩ := List.nodup_cons.mp hnodup
      have hkept := freshName_of_notMem (hnew first List.mem_cons_self)
      rw [freshNames, hkept]
      refine congrArg (first :: ·) (ih hrest fun name hname htaken => ?_)
      rcases List.mem_cons.mp htaken with rfl | hold
      · exact hfirst hname
      · exact hnew name (List.mem_cons_of_mem _ hname) hold

/-- A numbered name was wanted by a column before it, so the last search goes on to the next
number. -/
example : (freshNames [] ["id", "mentor_id", "mentor_id_1", "mentor_id"]).1 =
    ["id", "mentor_id", "mentor_id_1", "mentor_id_2"] := by decide

/-! ### The walk over the tables -/

mutual

/-- The names wanted for the columns of a table and of those joined beneath it, depth first. -/
def Layout.wantedNames : Layout → List String
  | ⟨_, _, lead, _, columns, _, _, _, relations, _⟩ =>
    columns.map (lead ++ ·) ++ branchWantedNames relations

def branchWantedNames : List (JoinedBranchOf Layout) → List String
  | [] => []
  | ⟨_, _, _, layout⟩ :: rest => layout.wantedNames ++ branchWantedNames rest

end

mutual

/-- Naming the tables of a layout is naming their columns in one list. -/
theorem Layout.nameOutputs_freshNames : ∀ (layout : Layout) (taken : List String),
    freshNames taken layout.wantedNames =
      ((layout.nameOutputs taken).1.outputNames, (layout.nameOutputs taken).2)
  | ⟨_, _, lead, _, columns, _, _, _, relations, _⟩, taken => by
      rw [Layout.wantedNames, freshNames_append, nameBranchOutputs_freshNames relations,
        Layout.nameOutputs, Layout.outputNames]

/-- Beneath joined relations the outputs are the fresh names for what is wanted there. -/
theorem nameBranchOutputs_freshNames : ∀ (branches : List (JoinedBranchOf Layout))
    (taken : List String), freshNames taken (branchWantedNames branches) =
      (branchOutputNames (nameBranchOutputs branches taken).1, (nameBranchOutputs branches taken).2)
  | [], taken => by
      rw [branchWantedNames, nameBranchOutputs, branchOutputNames]
      rfl
  | ⟨_, _, _, layout⟩ :: rest, taken => by
      rw [branchWantedNames, freshNames_append, layout.nameOutputs_freshNames,
        nameBranchOutputs_freshNames rest, nameBranchOutputs, branchOutputNames]

end

mutual

/-- Naming changes no wanted name. -/
theorem Layout.wantedNames_nameOutputs : ∀ (layout : Layout) (taken : List String),
    (layout.nameOutputs taken).1.wantedNames = layout.wantedNames
  | ⟨_, _, lead, _, columns, _, _, _, relations, _⟩, taken => by
      rw [Layout.nameOutputs, Layout.wantedNames, Layout.wantedNames,
        wantedNames_nameBranchOutputs relations]

/-- Naming outputs does not change what is wanted beneath. -/
theorem wantedNames_nameBranchOutputs : ∀ (branches : List (JoinedBranchOf Layout))
    (taken : List String),
    branchWantedNames (nameBranchOutputs branches taken).1 = branchWantedNames branches
  | [], _ => by rw [nameBranchOutputs]
  | ⟨_, _, _, layout⟩ :: rest, taken => by
      rw [nameBranchOutputs, branchWantedNames, branchWantedNames, layout.wantedNames_nameOutputs,
        wantedNames_nameBranchOutputs rest]

end

/-- Without a lead, columns that are apart keep their names. -/
theorem Layout.outputs_nameOutputs {layout : Layout} (hlead : layout.lead = "")
    (hnodup : layout.columns.Nodup) :
    (layout.nameOutputs []).1.outputs = (layout.nameOutputs []).1.columns := by
  obtain ⟨_, _, lead, _, columns, _, _, _, _, _⟩ := layout
  obtain rfl : lead = "" := hlead
  have hwanted : columns.map ("" ++ ·) = columns := by simp
  rw [Layout.nameOutputs, hwanted]
  exact freshNames_of_apart hnodup fun _ _ => List.not_mem_nil

/-! ### The columns of the first table -/

/-- Hidden columns are added only if they are not there. -/
theorem nodup_withHidden {columns : List String} (h : columns.Nodup) (extra : List String) :
    (withHidden columns extra).Nodup := by
  unfold withHidden
  induction extra generalizing columns with
  | nil => exact h
  | cons hidden rest ih =>
      rw [List.foldl_cons]
      split
      · exact ih h
      · next hnew =>
          refine ih (List.nodup_append.mpr ⟨h, List.nodup_singleton _, ?_⟩)
          rintro column hcolumn other hother rfl
          rw [List.mem_singleton.mp hother] at hcolumn
          exact hnew (List.contains_iff_mem.mpr hcolumn)

/-- A table whose columns are apart is shown with fields that are apart, whatever is chosen. -/
theorem Schema.shape_fields_nodup {table : String}
    (h : ∀ known, schema.table? table = some known → known.columnNames.Nodup)
    (selected included : Option Choices) (omitted : Option Omissions) :
    (schema.shape table selected included omitted).fields.Nodup := by
  unfold Schema.shape
  split
  · next known hknown =>
      rw [Shape.ofTable]
      dsimp only
      rw [omitFields_eq_diff]
      exact ((h known hknown).filter _).diff
  · exact List.nodup_nil

/-- So a planned layout carries along each column once. -/
theorem Shape.plan_columns_nodup {shape : Shape} (h : shape.fields.Nodup)
    (table qualifier lead : String) (extra : List String) (planner : Planner) :
    (shape.plan schema table qualifier lead extra planner).1.columns.Nodup := by
  obtain ⟨fields, _, relations⟩ := shape
  rw [Shape.plan]
  exact nodup_withHidden h _

/-- **Names of columns.**  For every schema, shape and joins planned before, naming the columns of
the planned layout comes to its end, search by search, and no two columns of any of its tables get
the same output name; columns of the first table keep their names if they are apart, as they are in
every shape that choices give to a table whose columns are apart; and if the layout has an output at
all, a row of the statement is made of one value for each column of each table, under the name of
that column.  A layout without outputs selects all columns as they are named in their tables. -/
theorem columns_named_apart (schema : Schema) (planner : Planner) (shape : Shape) (table : String)
    (extra : List String) :
    let layout := ((shape.plan schema table table "" extra planner).1.nameOutputs []).1
    NamedInTurn [] layout.wantedNames (layout.projection.map Output.name) ∧
      (layout.projection.map Output.name).Nodup ∧
      (shape.fields.Nodup → layout.outputs = layout.columns) ∧
      (∀ known, schema.table? table = some known → known.columnNames.Nodup →
        ∀ selected included omitted, (schema.shape table selected included omitted).fields.Nodup) ∧
      ∀ tuple row, layout.projection ≠ [] → project layout.projection tuple = .ok row →
        row.Perm (cells layout.projection tuple) := by
  extract_lets layout
  have hnames : layout.projection.map Output.name = layout.outputNames :=
    Layout.names_projection (Layout.nameOutputs_named _ [])
  have hnodup : (layout.projection.map Output.name).Nodup :=
    hnames ▸ (Layout.nameOutputs_apart _ []).nodup
  refine ⟨?_, hnodup, ?_, ?_, ?_⟩
  · rw [hnames, Layout.wantedNames_nameOutputs]
    have hrun := namedInTurn_freshNames []
      (shape.plan schema table table "" extra planner).1.wantedNames
    rwa [Layout.nameOutputs_freshNames] at hrun
  · intro hfields
    exact Layout.outputs_nameOutputs (lead_plan shape _ _ _ _ _)
      (Shape.plan_columns_nodup hfields _ _ _ _ _)
  · intro known hknown hcolumns
    exact Schema.shape_fields_nodup fun other hother =>
      Option.some.inj (hknown.symm.trans hother) ▸ hcolumns
  · intro tuple row hsome hproject
    have hcolumns : ∀ output ∈ layout.projection, ∃ ref label, output = .column ref label := by
      intro output houtput
      obtain ⟨ref, label, heq, -⟩ := layout.within_labels.projection output houtput
      exact ⟨ref, label, heq⟩
    rw [project_cells hsome hcolumns hproject]
    refine Dict.ofPairs_perm ?_
    rw [cells, List.map_map]
    exact hnodup

end NestedQuery
