import NestedQuery.Proofs.JoinedRows
import NestedQuery.Proofs.OutputNames
import NestedQuery.Proofs.RowwiseJoins

/-!
# Folding rows by base row

The first table of a layout groups the rows of a join by the base row that they
begin with, when base rows are told apart by their key.  A test of base rows
then leaves out whole records, and where no base row is repeated a window of
rows is a window of records.
-/

namespace NestedQuery

variable {schema : Schema} {db : Database}

/-! ### Groups -/

section Groups

variable {α β : Type} {key : α → String}

theorem firstOfEach_filter {keep : α → Bool} {items : List α} {seen known : List String}
    (h : ∀ one ∈ items, ∀ other ∈ items, key one = key other → keep one = keep other)
    (hseen : ∀ item ∈ items, keep item = true → (key item ∈ seen ↔ key item ∈ known)) :
    firstOfEach key seen (items.filter keep) = (firstOfEach key known items).filter keep := by
  induction items generalizing seen known with
  | nil => rfl
  | cons item rest ih =>
      have hrest : ∀ one ∈ rest, ∀ other ∈ rest, key one = key other → keep one = keep other :=
        fun one hone other hother =>
          h one (List.mem_cons_of_mem _ hone) other (List.mem_cons_of_mem _ hother)
      have hseenRest := fun other hother => hseen other (List.mem_cons_of_mem item hother)
      cases hkeep : keep item with
      | true =>
          have hsame := hseen item List.mem_cons_self hkeep
          rw [List.filter_cons_of_pos hkeep, firstOfEach, firstOfEach]
          by_cases hmem : key item ∈ known
          · rw [if_pos (List.contains_iff_mem.mpr (hsame.mpr hmem)),
              if_pos (List.contains_iff_mem.mpr hmem)]
            exact ih hrest hseenRest
          · rw [if_neg (fun hin => hmem (hsame.mp (List.contains_iff_mem.mp hin))),
              if_neg (fun hin => hmem (List.contains_iff_mem.mp hin)),
              List.filter_cons_of_pos hkeep]
            refine congrArg _ (ih hrest ?_)
            intro other hother hkept
            rw [List.mem_cons, List.mem_cons, hseenRest other hother hkept]
      | false =>
          rw [List.filter_cons_of_neg (by simp [hkeep]), firstOfEach]
          split
          · exact ih hrest hseenRest
          · rw [List.filter_cons_of_neg (by simp [hkeep])]
            refine ih hrest ?_
            intro other hother hkept
            rw [List.mem_cons, hseenRest other hother hkept]
            have hother : key other ≠ key item := by
              intro heq
              have := h other (List.mem_cons_of_mem _ hother) item List.mem_cons_self heq
              rw [hkept, hkeep] at this
              cases this
            exact ⟨Or.inr, fun hin => hin.resolve_left hother⟩

/-- No two first items have the same key. -/
theorem firstOfEach_keys (seen : List String) (items : List α) :
    ((firstOfEach key seen items).map key).Nodup ∧
      ∀ first ∈ firstOfEach key seen items, key first ∉ seen := by
  induction items generalizing seen with
  | nil => exact ⟨List.nodup_nil, fun first hfirst => nomatch hfirst⟩
  | cons item rest ih =>
      rw [firstOfEach]
      split
      · exact ih seen
      · next hnew =>
          obtain ⟨hnodup, hunseen⟩ := ih (key item :: seen)
          refine ⟨List.nodup_cons.mpr ⟨?_, hnodup⟩, ?_⟩
          · intro hmem
            obtain ⟨first, hfirst, heq⟩ := List.mem_map.mp hmem
            exact hunseen first hfirst (heq ▸ List.mem_cons_self)
          · intro first hfirst hin
            rcases List.mem_cons.mp hfirst with rfl | hrest
            · exact hnew (List.contains_iff_mem.mpr hin)
            · exact hunseen first hrest (List.mem_cons_of_mem _ hin)

/-- Leaving out all items of some keys leaves out their groups. -/
theorem groupsOf_filter {keep : α → Bool} {items : List α}
    (h : ∀ one ∈ items, ∀ other ∈ items, key one = key other → keep one = keep other) :
    groupsOf key (items.filter keep) =
      (groupsOf key items).filter fun group => group.head?.any keep := by
  have hmem : ∀ first ∈ firstOfEach key [] items, first ∈ items :=
    fun first hfirst => (firstOfEach_sublist key [] items).subset hfirst
  have hhead : ∀ first ∈ firstOfEach key [] items,
      ((items.filter fun item => key item == key first).head?.any keep) = keep first := by
    intro first hfirst
    have hin : first ∈ items.filter fun item => key item == key first :=
      List.mem_filter.mpr ⟨hmem first hfirst, by simp⟩
    cases hgroup : items.filter fun item => key item == key first with
    | nil =>
        rw [hgroup] at hin
        cases hin
    | cons head rest =>
        have hkept : head ∈ items.filter fun item => key item == key first := by
          rw [hgroup]
          exact List.mem_cons_self
        obtain ⟨hitem, hkey⟩ := List.mem_filter.mp hkept
        exact h head hitem first (hmem first hfirst) (beq_iff_eq.mp hkey)
  unfold groupsOf
  rw [firstOfEach_filter h fun _ _ _ => Iff.rfl, List.filter_map]
  have hfilter : (firstOfEach key [] items).filter
      ((fun group => group.head?.any keep) ∘ fun first =>
        items.filter fun item => key item == key first) =
      (firstOfEach key [] items).filter keep := List.filter_congr hhead
  rw [hfilter]
  refine List.map_congr_left ?_
  intro first hfirst
  obtain ⟨hfirst, hkept⟩ := List.mem_filter.mp hfirst
  rw [List.filter_filter]
  refine List.filter_congr ?_
  intro item hitem
  rw [Bool.eq_iff_iff, Bool.and_eq_true, beq_iff_eq]
  exact ⟨And.left, fun heq => ⟨heq, (h item hitem first (hmem first hfirst) heq).trans hkept⟩⟩

/-- The groups of changed items. -/
theorem groupsOf_map {key : β → String} (change : α → β) (items : List α) :
    groupsOf key (items.map change) =
      (groupsOf (fun item => key (change item)) items).map (List.map change) := by
  unfold groupsOf
  rw [firstOfEach_map, List.map_map, List.map_map]
  refine List.map_congr_left ?_
  intro first _
  rw [Function.comp_apply, Function.comp_apply, List.filter_map]
  rfl

/-- Items with keys of their own are groups of their own. -/
theorem groupsOf_nodup {items : List α} (h : (items.map key).Nodup) :
    groupsOf key items = items.map ([·]) := by
  have hgroups := @groupsOf_blocks _ _ _ key [()] (List.cons_ne_nil _ _) items key
    (fun _ item => [item]) (fun _ _ _ _ => List.cons_ne_nil _ _)
    (fun _ _ _ _ row hrow => congrArg key (List.mem_singleton.mp hrow)) h
  simpa using hgroups

end Groups

/-! ### The tables of a layout -/

/-- The record that a layout makes of a group of rows. -/
def Layout.fold (layout : Layout) (group : List Row) : Record :=
  Dict.putAll (layout.columnValues group) (assembleBranches layout.relations group)

theorem assembleBranches_eq (relations : List (JoinedBranchOf Layout)) (rows : List Row) :
    assembleBranches relations rows = relations.map fun joined =>
      (joined.name, .ofRelated joined.isToMany (joined.branch.page (joined.layout.assemble rows))) := by
  induction relations with
  | nil => rfl
  | cons joined rest ih => rw [assembleBranches, ih, List.map_cons]

theorem names_assembleBranches (relations : List (JoinedBranchOf Layout)) (rows : List Row) :
    (assembleBranches relations rows).map (·.1) = relations.map (·.name) := by
  rw [assembleBranches_eq, List.map_map]
  rfl

theorem Layout.assemble_eq (layout : Layout) (rows : List Row) :
    layout.assemble rows = (layout.groups rows).map layout.fold := by
  obtain ⟨_, _, _, _, _, _, _, _, _, _⟩ := layout
  rw [Layout.assemble]
  rfl

/-- The result row that the outputs of a layout make of a row of a join. -/
def Layout.yield (layout : Layout) (tuple : Bindings) : Row :=
  Dict.ofPairs (cells layout.projection tuple)

/-- The columns that tell the records of a table apart: those of the key, or all if it has no
usable key. -/
def Layout.identityColumns (layout : Layout) : List String :=
  if layout.key.isEmpty then layout.columns else layout.key

/-- Whether a row makes a record of the table: of a joined table it holds one of the columns that
tell records apart. -/
def Layout.isPresent (layout : Layout) (row : Row) : Bool :=
  layout.isBase || layout.identityColumns.any fun column => !(row.value column).isNull

/-- The text that tells the record of a row of the table apart. -/
def Layout.rowKey (layout : Layout) (row : Row) : String :=
  Value.jointKey (layout.identityColumns.map row.value)

/-- The own columns of a layout are among its outputs. -/
theorem Layout.labelled_mem (layout : Layout) {pair : String × String}
    (hpair : pair ∈ layout.columns.zip layout.outputs) :
    labelled layout.qualifier pair.1 pair.2 ∈ layout.projection := by
  obtain ⟨_, _, _, _, _, _, _, _, _, _⟩ := layout
  rw [Layout.projection]
  exact List.mem_append_left _ (List.mem_map_of_mem hpair)

/-- An output has the value of its column in the row under its qualifier. -/
theorem Layout.lookup_yield {layout : Layout} (hnamed : layout.Named)
    (hnodup : layout.outputNames.Nodup) {qualifier column output : String}
    (hmem : labelled qualifier column output ∈ layout.projection) (tuple : Bindings) :
    (layout.yield tuple).lookup output = some ((tuple.rowOf qualifier).value column) := by
  have hnames : Dict.names (cells layout.projection tuple) = layout.outputNames := by
    rw [← Layout.names_projection hnamed, Dict.names, cells, List.map_map]
    rfl
  have hcell : (output, (tuple.rowOf qualifier).value column) ∈ cells layout.projection tuple := by
    refine List.mem_map.mpr ⟨_, hmem, ?_⟩
    rw [labelled_name]
    exact congrArg (output, ·) (tuple.cell_eq qualifier column)
  rw [Layout.yield, Dict.lookup_ofPairs, Dict.lookup_reverse (hnames ▸ hnodup)]
  exact Dict.lookup_of_mem (hnames ▸ hnodup) hcell

/-- A table of a layout: its columns are among the outputs of the layout. -/
structure Layout.Shows (layout part : Layout) : Prop where
  named : part.Named
  key : part.key ⊆ part.columns
  lookup : ∀ pair ∈ part.columns.zip part.outputs, ∀ tuple : Bindings,
    (layout.yield tuple).lookup pair.2 = some ((tuple.rowOf part.qualifier).value pair.1)

theorem Layout.shows_self {layout : Layout} (hnamed : layout.Named)
    (hkey : layout.key ⊆ layout.columns) (hnodup : layout.outputNames.Nodup) :
    layout.Shows layout :=
  ⟨hnamed, hkey, fun _ hpair => Layout.lookup_yield hnamed hnodup (layout.labelled_mem hpair)⟩

/-- What is said of all joined relations of a named layout. -/
theorem branchesNamed_mem : ∀ {relations : List (JoinedBranchOf Layout)},
    branchesNamed relations → ∀ joined ∈ relations, joined.layout.Named ∧
      joined.layout.projection ⊆ branchProjections relations
  | [], _, _, hmem => nomatch hmem
  | ⟨_, _, _, _⟩ :: _, h, joined, hmem => by
      rw [branchesNamed] at h
      rw [branchProjections]
      rcases List.mem_cons.mp hmem with rfl | hrest
      · exact ⟨h.1, List.subset_append_left _ _⟩
      · exact (branchesNamed_mem h.2 joined hrest).imp_right fun hsubset =>
          List.Subset.trans hsubset (List.subset_append_right _ _)

/-- A joined relation is one of its tables. -/
theorem Layout.shows_joined {layout : Layout} (hnamed : layout.Named)
    (hnodup : layout.outputNames.Nodup) {joined : JoinedBranch} (hjoined : joined ∈ layout.relations)
    (hkey : joined.layout.key ⊆ joined.layout.columns) : layout.Shows joined.layout := by
  obtain ⟨hlayout, hsubset⟩ : joined.layout.Named ∧ joined.layout.projection ⊆ layout.projection := by
    obtain ⟨_, _, _, _, _, _, _, _, _, _⟩ := layout
    rw [Layout.Named] at hnamed
    rw [Layout.projection]
    exact (branchesNamed_mem hnamed.2.2 joined hjoined).imp_right fun hsubset =>
      List.Subset.trans hsubset (List.subset_append_right _ _)
  exact ⟨hlayout, hkey, fun _ hpair =>
    Layout.lookup_yield hnamed hnodup (hsubset (joined.layout.labelled_mem hpair))⟩

namespace Layout.Shows

variable {layout part : Layout} (h : layout.Shows part)

include h

/-- The identity of a row is that of the row under the qualifier of the table. -/
theorem valuesOf_identity (tuple : Bindings) :
    (layout.yield tuple).valuesOf part.identity =
      part.identityColumns.map (tuple.rowOf part.qualifier).value := by
  obtain ⟨hlength, hidentity⟩ := h.named.level
  have hnames : Dict.names (part.columns.zip part.outputs) = part.columns :=
    List.map_fst_zip (Nat.le_of_eq hlength.symm)
  rw [hidentity, Layout.identityColumns, Row.valuesOf]
  split
  · have houtputs : (part.columns.zip part.outputs).map (·.2) = part.outputs :=
      List.map_snd_zip (Nat.le_of_eq hlength)
    calc part.outputs.map (fun output => ((layout.yield tuple).lookup output).getD .null)
        = (part.columns.zip part.outputs).map fun pair =>
            ((layout.yield tuple).lookup pair.2).getD .null := by
          conv_lhs => rw [← houtputs, List.map_map]
          rfl
      _ = (part.columns.zip part.outputs).map fun pair =>
            (tuple.rowOf part.qualifier).value pair.1 :=
          List.map_congr_left fun pair hpair => by rw [h.lookup pair hpair]; rfl
      _ = part.columns.map (tuple.rowOf part.qualifier).value := by
          conv_rhs => rw [← hnames, Dict.names, List.map_map]
          rfl
  · rw [outputsOf, List.map_filterMap, ← List.filterMap_eq_map]
    refine List.filterMap_congr fun column hcolumn => ?_
    obtain ⟨output, hfound⟩ := Option.isSome_iff_exists.mp (Dict.lookup_isSome_iff.mpr
      (hnames ▸ h.key hcolumn))
    rw [hfound, Option.map_some, h.lookup _ (Dict.mem_of_lookup hfound)]
    rfl

theorem isMatched_yield (tuple : Bindings) :
    part.isMatched (layout.yield tuple) = part.isPresent (tuple.rowOf part.qualifier) := by
  rw [Layout.isMatched, Layout.isPresent, h.valuesOf_identity, List.all_map, List.any_eq_not_all_not]
  simp only [Bool.not_not]
  rfl

/-- The records of the table in joined rows, one for each group of rows. -/
theorem assemble_yield (tuples : List Bindings) :
    part.assemble (tuples.map layout.yield) =
      (groupsOf (fun tuple => part.rowKey (tuple.rowOf part.qualifier))
        (tuples.filter fun tuple => part.isPresent (tuple.rowOf part.qualifier))).map
          fun group => part.fold (group.map layout.yield) := by
  have hfilter : (tuples.map layout.yield).filter part.isMatched =
      (tuples.filter fun tuple => part.isPresent (tuple.rowOf part.qualifier)).map layout.yield := by
    rw [List.filter_map]
    exact congrArg _ (List.filter_congr fun tuple _ => h.isMatched_yield tuple)
  rw [Layout.assemble_eq, Layout.groups, hfilter, groupsOf_map, List.map_map]
  simp only [h.valuesOf_identity]
  rfl

/-- The columns of a group are those of the first row in it. -/
theorem columnValues_yield (tuple : Bindings) (rest : List Bindings) :
    part.columnValues ((tuple :: rest).map layout.yield) =
      (tuple.rowOf part.qualifier).recordOf part.columns := by
  have hnames : (part.columns.zip part.outputs).map (·.1) = part.columns :=
    List.map_fst_zip (Nat.le_of_eq h.named.level.1.symm)
  calc part.columnValues ((tuple :: rest).map layout.yield)
      = Dict.ofPairs ((part.columns.zip part.outputs).map fun pair =>
          (pair.1, .scalar ((tuple.rowOf part.qualifier).value pair.1))) := by
        refine congrArg Dict.ofPairs (List.map_congr_left fun pair hpair => ?_)
        obtain ⟨column, output⟩ := pair
        simp only [List.map_cons, List.head?_cons, Option.bind_some, h.lookup _ hpair,
          Option.getD_some]
    _ = (tuple.rowOf part.qualifier).recordOf part.columns := by
        rw [Row.recordOf]
        conv_rhs => rw [← hnames, List.map_map]
        rfl

end Layout.Shows

/-! ### The first table of a layout -/

/-- A layout that a statement over a base table begins with. -/
structure Layout.Begins (schema : Schema) (layout : Layout) (table : String) : Prop where
  isBase : layout.isBase = true
  qualifier_eq : layout.qualifier = table
  key_eq : layout.key = schema.usableKey table
  named : layout.Named
  outputNames : layout.outputNames.Nodup
  carried : layout.fields ++ layout.key ⊆ layout.columns
  apart : ∀ field ∈ layout.fields, field ∉ layout.relations.map (·.name)

/-- The layout of a shape for a base table is one. -/
theorem Shape.layout_begins (hschema : schema.Consistent) {shape : Shape} {table : String}
    (h : shape.Proper schema table) (extra : List String) :
    (shape.layout schema table extra).1.Begins schema table := by
  have hplanned := Shape.layout_planned hschema h extra
  have hqualifier : (shape.layout schema table extra).1.qualifier = table :=
    (Layout.qualifier_nameOutputs _ _).trans (qualifier_plan _ _ _ _ _ _)
  have hlead : (shape.layout schema table extra).1.lead = "" :=
    (Layout.lead_nameOutputs _ _).trans (lead_plan _ _ _ _ _ _)
  have hnamed : (shape.layout schema table extra).1.Named := Layout.nameOutputs_named _ _
  have hnames := Shape.layout_outputNames_nodup schema shape table extra
  generalize (shape.layout schema table extra).1 = layout at *
  refine ⟨?_, hqualifier, hplanned.key_eq, hnamed, hnames, ?_, ?_⟩
  · rw [Layout.isBase, hlead]
    rfl
  · cases hplanned with
    | intro _ hfields _ hcarried _ _ _ => exact hfields ▸ hcarried
  · intro field hfield hmem
    obtain ⟨hcolumns, -, hbranches⟩ := Shape.proper_iff.mp h
    refine fields_disjoint hcolumns hbranches field ?_ (hplanned.names_subset hmem)
    cases hplanned with
    | intro _ hfields _ _ _ _ _ => exact hfields ▸ hfield

/-- What planning a shape for a base table gives: a layout that a statement over the table begins
with, and its joins, with labels of their own. -/
structure Shape.PlannedAs (schema : Schema) (shape : Shape) (table : String) (layout : Layout)
    (planner : Planner) : Prop where
  planned : shape.Planned schema table layout
  begins : layout.Begins schema table
  linked : planner.Linked table
  within : layout.Within (planner.scope table)
  joins_eq : planner.joins = layout.joins schema
  labels : (planner.joins.map (·.label)).Nodup

theorem Shape.planned_as (hschema : schema.Consistent) {shape : Shape} {table : String}
    (h : shape.Proper schema table) {extra : List String} {layout : Layout} {planner : Planner}
    (hplan : shape.layout schema table extra = (layout, planner)) :
    shape.PlannedAs schema table layout planner := by
  have hplanned := Shape.layout_planned hschema h extra
  have hbegins := Shape.layout_begins hschema h extra
  obtain ⟨hlinked, hwithin⟩ := @Shape.layout_within schema shape table extra
  obtain ⟨hjoins, hlabels⟩ := @Shape.layout_joins schema shape table extra
  rw [hplan] at hplanned hbegins hlinked hwithin hjoins hlabels
  exact ⟨hplanned, hbegins, hlinked, hwithin, hjoins, hlabels⟩

section First

variable {layout : Layout} {table : String} (h : layout.Begins schema table)

include h

theorem Layout.Begins.shows : layout.Shows layout :=
  Layout.shows_self h.named (fun _ hmem => h.carried (List.mem_append_right _ hmem)) h.outputNames

/-- The outputs of the base columns have the values of the base row. -/
theorem Layout.Begins.lookup_yield {column output : String}
    (hmem : (column, output) ∈ layout.columns.zip layout.outputs) (tuple : Bindings) :
    (layout.yield tuple).lookup output = some ((tuple.rowOf table).value column) := by
  rw [h.shows.lookup _ hmem, h.qualifier_eq]

/-- The identity of a row is the key of its base row. -/
theorem Layout.Begins.identity_yield (hkey : layout.key ≠ []) (tuple : Bindings) :
    (layout.yield tuple).valuesOf layout.identity = layout.key.map (tuple.rowOf table).value := by
  rw [h.shows.valuesOf_identity, h.qualifier_eq, Layout.identityColumns,
    if_neg (by simpa using hkey)]

/-- In its columns a folded record has the values of the base row that its group begins with. -/
theorem Layout.Begins.lookup_fold {tuple : Bindings} {group : List Row}
    (hhead : group.head? = some (layout.yield tuple)) {column : String}
    (hcolumn : column ∈ layout.columns) (hnew : column ∉ layout.relations.map (·.name)) :
    (layout.fold group).lookup column = some (.scalar ((tuple.rowOf table).value column)) := by
  have hnone : (assembleBranches layout.relations group).reverse.lookup column = none := by
    refine Dict.lookup_eq_none_iff.mpr ?_
    rw [Dict.names, List.map_reverse, List.mem_reverse, names_assembleBranches]
    exact hnew
  obtain ⟨value, hvalue⟩ :=
    (columnValues_carries layout h.named.level.1 group).bound column hcolumn
  rw [Layout.fold, Dict.lookup_putAll, hnone, Option.none_or, hvalue]
  rw [Layout.columnValues, Dict.lookup_ofPairs] at hvalue
  obtain ⟨⟨known, output⟩, hnamed, hpair⟩ :=
    List.mem_map.mp (List.mem_reverse.mp (Dict.mem_of_lookup hvalue))
  dsimp only at hpair
  rw [hhead, Option.bind_some, Prod.mk.injEq] at hpair
  obtain ⟨rfl, hscalar⟩ := hpair
  rw [h.lookup_yield hnamed] at hscalar
  rw [← hscalar]
  rfl

/-- So it has in its fields. -/
theorem Layout.Begins.scalar_fold {row : Row} {more : Bindings} {group : List Row}
    (hhead : group.head? = some (layout.yield ((table, some row) :: more))) {field : String}
    (hfield : field ∈ layout.fields) : (layout.fold group).scalar field = row.value field := by
  rw [Record.scalar, h.lookup_fold hhead (h.carried (List.mem_append_left _ hfield))
    (h.apart field hfield), Bindings.rowOf_cons_self]
  rfl

/-- So has the record of a block of rows that all begin with a base row. -/
theorem Layout.Begins.scalar_block {row : Row} {block : List Bindings} (hsome : block ≠ [])
    (hblock : ∀ tuple ∈ block, ∃ more, tuple = (table, some row) :: more) {field : String}
    (hfield : field ∈ layout.fields) :
    (layout.fold (block.map layout.yield)).scalar field = row.value field := by
  cases block with
  | nil => exact absurd rfl hsome
  | cons first rest =>
      obtain ⟨more, rfl⟩ := hblock first List.mem_cons_self
      exact h.scalar_fold rfl hfield

end First

/-! ### Rows over base rows -/

/-- Every row of a join begins with one of the given rows. -/
def TuplesOver (table : String) (rows : List Row) (tuples : List Bindings) : Prop :=
  ∀ tuple ∈ tuples, ∃ row ∈ rows, ∃ more, tuple = (table, some row) :: more

/-- The text by which a layout groups the rows of a join. -/
def Layout.groupKey (layout : Layout) (tuple : Bindings) : String :=
  Value.jointKey ((layout.yield tuple).valuesOf layout.identity)

section Over

variable {layout : Layout} {table : String} (h : layout.Begins schema table) {rows : List Row}
  (hapart : ApartBy layout.key rows)

include h

/-- The records of the rows of a join, one for each group. -/
theorem Layout.Begins.assemble_yield (tuples : List Bindings) :
    layout.assemble (tuples.map layout.yield) =
      (groupsOf layout.groupKey tuples).map fun group => layout.fold (group.map layout.yield) := by
  have hmatched : (tuples.map layout.yield).filter layout.isMatched = tuples.map layout.yield := by
    refine List.filter_eq_self.mpr fun row _ => ?_
    rw [Layout.isMatched, h.isBase, Bool.true_or]
  rw [Layout.assemble_eq, Layout.groups, hmatched, groupsOf_map, List.map_map]
  rfl

/-- Where base rows are not repeated, a number of rows makes as many records. -/
theorem Layout.Begins.assemble_take {tuples : List Bindings}
    (hnodup : (tuples.map layout.groupKey).Nodup) (count : Nat) :
    layout.assemble ((tuples.take count).map layout.yield) =
      (layout.assemble (tuples.map layout.yield)).take count := by
  have htake : ((tuples.take count).map layout.groupKey).Nodup :=
    hnodup.sublist ((List.take_sublist count tuples).map _)
  rw [h.assemble_yield, h.assemble_yield, groupsOf_nodup htake, groupsOf_nodup hnodup,
    List.map_map, List.map_map, List.map_take]

include hapart

theorem Layout.Begins.groupKey_eq {row : Row} (hrow : row ∈ rows) (more : Bindings) :
    layout.groupKey ((table, some row) :: more) = Value.jointKey (layout.key.map row.value) := by
  obtain ⟨column, hcolumn, -⟩ := hapart.present row hrow
  rw [Layout.groupKey, h.identity_yield (List.ne_nil_of_mem hcolumn), Bindings.rowOf_cons_self,
    Option.getD_some]

/-- Rows of one group begin with the same base row. -/
theorem Layout.Begins.row_eq {one other : Row} (hone : one ∈ rows) (hother : other ∈ rows)
    {more others : Bindings} (heq : layout.groupKey ((table, some one) :: more) =
      layout.groupKey ((table, some other) :: others)) : one = other := by
  rw [h.groupKey_eq hapart hone, h.groupKey_eq hapart hother] at heq
  exact List.inj_on_of_nodup_map hapart.apart hone hother heq

/-- Rows that come in blocks, one for each of several base rows, make a record of each block. -/
theorem Layout.Begins.assemble_blocks {items : List Row} (hitems : items.Sublist rows)
    {block : Row → List Bindings} (hsome : ∀ row ∈ items, block row ≠ [])
    (hblock : ∀ row ∈ items, ∀ tuple ∈ block row, ∃ more, tuple = (table, some row) :: more) :
    layout.assemble ((items.flatMap block).map layout.yield) =
      items.map fun row => layout.fold ((block row).map layout.yield) := by
  have hkey : ∀ row ∈ items, ∀ tuple ∈ block row,
      layout.groupKey tuple = Value.jointKey (layout.key.map row.value) := by
    intro row hrow tuple htuple
    obtain ⟨more, rfl⟩ := hblock row hrow tuple htuple
    exact h.groupKey_eq hapart (hitems.subset hrow) more
  have hgroups := @groupsOf_blocks _ _ _ layout.groupKey [()] (List.cons_ne_nil _ _) items
    (fun row => Value.jointKey (layout.key.map row.value)) (fun _ row => block row)
    (fun _ _ row hrow => hsome row hrow) (fun _ _ row hrow => hkey row hrow)
    (hapart.apart.sublist (hitems.map _))
  simp only [List.flatMap_cons, List.flatMap_nil, List.append_nil] at hgroups
  rw [h.assemble_yield, hgroups, List.map_map]
  rfl

/-- Where no base row has several extensions, every row of the join has a key of its own. -/
theorem Layout.Begins.groupKeys_nodup {extend : Row → List Bindings}
    (hextend : ∀ row ∈ rows, ∀ tuple ∈ extend row, ∃ more, tuple = (table, some row) :: more)
    (hsingle : ∀ row ∈ rows, (extend row).length ≤ 1) :
    ((rows.flatMap extend).map layout.groupKey).Nodup := by
  have hsublist : ∀ some : List Row, some ⊆ rows →
      ((some.flatMap extend).map layout.groupKey).Sublist
        (some.map fun row => Value.jointKey (layout.key.map row.value)) := by
    intro some hsome
    induction some with
    | nil => exact List.Sublist.refl _
    | cons row rest ih =>
        have hrow : row ∈ rows := hsome List.mem_cons_self
        rw [List.flatMap_cons, List.map_append, List.map_cons]
        have hrest := ih fun other hother => hsome (List.mem_cons_of_mem _ hother)
        cases hext : extend row with
        | nil => exact hrest.cons _
        | cons tuple others =>
            have hothers : others = [] := by
              have hlength := hsingle row hrow
              rw [hext, List.length_cons] at hlength
              exact List.length_eq_zero_iff.mp (by omega)
            obtain ⟨more, rfl⟩ := hextend row hrow tuple (by rw [hext]; exact List.mem_cons_self)
            rw [hothers, List.map_cons, h.groupKey_eq hapart hrow]
            exact hrest.cons_cons _
  exact hapart.apart.sublist (hsublist rows (List.Subset.refl _))

variable {tuples : List Bindings} (htuples : TuplesOver table rows tuples)

include htuples

/-- A group of rows begins with the base row of the row that it is the group of. -/
theorem Layout.Begins.head_of_group {row : Row} (hrow : row ∈ rows) {more : Bindings}
    (hmem : (table, some row) :: more ∈ tuples) : ∃ others,
      (tuples.filter fun tuple => layout.groupKey tuple ==
        layout.groupKey ((table, some row) :: more)).head? = some ((table, some row) :: others) := by
  have hin : (table, some row) :: more ∈ tuples.filter fun tuple =>
      layout.groupKey tuple == layout.groupKey ((table, some row) :: more) :=
    List.mem_filter.mpr ⟨hmem, by simp⟩
  obtain ⟨head, hhead⟩ := Option.ne_none_iff_exists'.mp
    (fun hnone => List.ne_nil_of_mem hin (List.head?_eq_none_iff.mp hnone))
  obtain ⟨htuple, hkey⟩ := List.mem_filter.mp (List.mem_of_mem_head? hhead)
  obtain ⟨same, hsame, others, rfl⟩ := htuples head htuple
  cases h.row_eq hapart hsame hrow (beq_iff_eq.mp hkey)
  exact ⟨others, hhead⟩

/-- Every record shows the fields of a base row. -/
theorem Layout.Begins.row_of_record {record : Record}
    (hrecord : record ∈ layout.assemble (tuples.map layout.yield)) :
    ∃ row ∈ rows, ∀ field ∈ layout.fields, record.scalar field = row.value field := by
  rw [h.assemble_yield] at hrecord
  obtain ⟨group, hgroup, rfl⟩ := List.mem_map.mp hrecord
  obtain ⟨first, hfirst, rfl⟩ := List.mem_map.mp hgroup
  have hmem : first ∈ tuples := (firstOfEach_sublist _ _ _).subset hfirst
  obtain ⟨row, hrow, more, rfl⟩ := htuples first hmem
  obtain ⟨others, hhead⟩ := h.head_of_group hapart htuples hrow hmem
  exact ⟨row, hrow, fun field hfield =>
    h.scalar_fold (by rw [List.head?_map, hhead, Option.map_some]) hfield⟩

/-- A test of base rows leaves out records. -/
theorem Layout.Begins.assemble_filter {keep : Bindings → Bool} {test : Row → Bool}
    {fits : Record → Bool} (hkeep : ∀ row ∈ rows, ∀ more, keep ((table, some row) :: more) = test row)
    (hfits : ∀ row ∈ rows, ∀ record : Record,
      (∀ field ∈ layout.fields, record.scalar field = row.value field) → fits record = test row) :
    layout.assemble ((tuples.filter keep).map layout.yield) =
      (layout.assemble (tuples.map layout.yield)).filter fits := by
  have hsame : ∀ one ∈ tuples, ∀ other ∈ tuples,
      layout.groupKey one = layout.groupKey other → keep one = keep other := by
    intro one hone other hother heq
    obtain ⟨row, hrow, more, rfl⟩ := htuples one hone
    obtain ⟨same, hmem, others, rfl⟩ := htuples other hother
    rw [hkeep row hrow, hkeep same hmem, h.row_eq hapart hrow hmem heq]
  rw [h.assemble_yield, h.assemble_yield, groupsOf_filter hsame, List.filter_map]
  refine congrArg _ (List.filter_congr ?_)
  intro group hgroup
  obtain ⟨first, hfirst, rfl⟩ := List.mem_map.mp hgroup
  have hmem : first ∈ tuples := (firstOfEach_sublist _ _ _).subset hfirst
  obtain ⟨row, hrow, more, rfl⟩ := htuples first hmem
  obtain ⟨others, hhead⟩ := h.head_of_group hapart htuples hrow hmem
  rw [Function.comp_apply, hhead, Option.any_some, hkeep row hrow]
  refine (hfits row hrow _ fun field hfield => ?_).symm
  exact h.scalar_fold (by rw [List.head?_map, hhead, Option.map_some]) hfield

/-- Records stand in the order of their base rows. -/
theorem Layout.Begins.assemble_pairwise {order : Bindings → Bindings → Prop}
    {related : Record → Record → Prop} (hsorted : tuples.Pairwise order)
    (hrelated : ∀ one ∈ rows, ∀ other ∈ rows, one ≠ other → ∀ more others,
      order ((table, some one) :: more) ((table, some other) :: others) →
      ∀ before after : Record, (∀ field ∈ layout.fields, before.scalar field = one.value field) →
        (∀ field ∈ layout.fields, after.scalar field = other.value field) → related before after) :
    (layout.assemble (tuples.map layout.yield)).Pairwise related := by
  rw [h.assemble_yield, groupsOf, List.map_map, List.pairwise_map]
  have hfirsts := hsorted.sublist (firstOfEach_sublist layout.groupKey [] tuples)
  have hkeys := List.pairwise_map.mp (@firstOfEach_keys _ layout.groupKey [] tuples).1
  refine (hfirsts.and hkeys).imp_of_mem ?_
  intro first second hfirst hsecond hpair
  have hmem := (firstOfEach_sublist layout.groupKey [] tuples).subset
  obtain ⟨one, hone, more, rfl⟩ := htuples first (hmem hfirst)
  obtain ⟨other, hother, others, rfl⟩ := htuples second (hmem hsecond)
  have hne : one ≠ other := by
    rintro rfl
    exact hpair.2 ((h.groupKey_eq hapart hone more).trans (h.groupKey_eq hapart hone others).symm)
  obtain ⟨_, hhead⟩ := h.head_of_group hapart htuples hone (hmem hfirst)
  obtain ⟨_, hnext⟩ := h.head_of_group hapart htuples hother (hmem hsecond)
  refine hrelated one hone other hother hne more others hpair.1 _ _ ?_ ?_
  · exact fun field hfield => h.scalar_fold (by rw [List.head?_map, hhead, Option.map_some]) hfield
  · exact fun field hfield => h.scalar_fold (by rw [List.head?_map, hnext, Option.map_some]) hfield

end Over

end NestedQuery
