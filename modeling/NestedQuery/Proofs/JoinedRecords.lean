import NestedQuery.Proofs.JoinedRows

/-!
# Records of joined rows

The record that a row makes under a layout holds its columns and the records of
the rows that joined relations link it to.  Flattened, it gives the cells of the
joined rows that begin with the row, so folding these rows gives the record
back.  What was put off is then loaded and hidden columns are dropped, and what
remains is the nested record of the row.
-/

namespace NestedQuery

variable {schema : Schema} {db : Database}

/-! ### Records of rows -/

mutual

/-- The record that a row makes under a layout. -/
def Layout.nest (schema : Schema) (db : Database) : Layout → Row → Record
  | ⟨table, _, _, _, columns, _, _, _, relations, _⟩, row =>
    Dict.putAll (row.recordOf columns) (joinedEntries schema db table relations row)

/-- The entries of the joined relations of a row. -/
def joinedEntries (schema : Schema) (db : Database) (table : String) :
    List (JoinedBranchOf Layout) → Row → List (String × Node)
  | [], _ => []
  | ⟨name, isToMany, _, layout⟩ :: rest, row =>
    (name, .ofRelated isToMany
      ((schema.linked db table name row).map (layout.nest schema db))) ::
      joinedEntries schema db table rest row

end

/-- The entry of a joined relation of a row. -/
def JoinedBranchOf.entry (schema : Schema) (db : Database) (table : String) (joined : JoinedBranch)
    (row : Row) : Node :=
  .ofRelated joined.isToMany
    ((schema.linked db table joined.name row).map (joined.layout.nest schema db))

/-- Under each joined relation stands its entry for the row. -/
theorem joinedEntries_eq (table : String) (relations : List (JoinedBranchOf Layout)) (row : Row) :
    joinedEntries schema db table relations row =
      relations.map fun joined => (joined.name, joined.entry schema db table row) := by
  induction relations with
  | nil =>
      rw [joinedEntries]
      rfl
  | cons joined rest ih =>
      obtain ⟨name, isToMany, branch, layout⟩ := joined
      rw [joinedEntries, ih]
      rfl

/-- What the record of a row holds: its columns, and the entries of the joined relations. -/
structure Layout.NestOf (schema : Schema) (db : Database) (layout : Layout) (row : Row)
    (record : Record) : Prop where
  mirrors : record.Mirrors row layout.columns
  names : ∀ name ∈ Dict.names record,
    name ∈ layout.columns ∨ name ∈ layout.relations.map (·.name)
  entries : ∀ joined ∈ layout.relations,
    record.lookup joined.name = some (joined.entry schema db layout.table row)

/-- A regular layout is one at its own level: each column has an output, the identity is read off
the key, and the relations have names of their own. -/
theorem Layout.Regular.level {layout : Layout} (h : layout.Regular schema db) :
    layout.outputs.length = layout.columns.length ∧
      layout.identity = (if layout.key.isEmpty then layout.outputs
        else outputsOf layout.columns layout.outputs layout.key) ∧
      layout.key ⊆ layout.columns ∧ (layout.relations.map (·.name)).Nodup ∧
      ∀ joined ∈ layout.relations, joined.name ∉ layout.columns := by
  obtain ⟨_, _, _, _, _, _, _, _, _, _⟩ := layout
  rw [Layout.Regular] at h
  exact h.1

/-- Then the nested record of a row has the fields and entries that it should. -/
theorem Layout.nest_of {layout : Layout} (h : layout.Regular schema db) (row : Row) :
    layout.NestOf schema db row (layout.nest schema db row) := by
  obtain ⟨-, -, -, hnodup, hdisjoint⟩ := h.level
  have hnames : ((joinedEntries schema db layout.table layout.relations row).map (·.1)) =
      layout.relations.map (·.name) := by
    rw [joinedEntries_eq, List.map_map]
    rfl
  have hnest : layout.nest schema db row = Dict.putAll (row.recordOf layout.columns)
      (joinedEntries schema db layout.table layout.relations row) := by
    obtain ⟨_, _, _, _, _, _, _, _, _, _⟩ := layout
    rw [Layout.nest]
  have hlookup : ∀ name, (layout.nest schema db row).lookup name =
      ((joinedEntries schema db layout.table layout.relations row).lookup name).or
        ((row.recordOf layout.columns).lookup name) := by
    intro name
    rw [hnest, Dict.lookup_putAll_of_nodup (hnames ▸ hnodup)]
  have hnone : ∀ name, name ∉ layout.relations.map (·.name) →
      (joinedEntries schema db layout.table layout.relations row).lookup name = none := by
    intro name hname
    refine Dict.lookup_eq_none_iff.mpr ?_
    rw [Dict.names, hnames]
    exact hname
  refine ⟨⟨?_, ?_⟩, ?_, ?_⟩
  · rw [hnest]
    exact (Dict.sorted_ofPairs _).putAll _
  · intro column hcolumn
    have hnew : column ∉ layout.relations.map (·.name) := by
      intro hmem
      obtain ⟨joined, hjoined, rfl⟩ := List.mem_map.mp hmem
      exact hdisjoint joined hjoined hcolumn
    rw [hlookup, hnone column hnew, Option.none_or, Row.lookup_recordOf, if_pos hcolumn]
  · intro name hname
    by_cases hrelation : name ∈ layout.relations.map (·.name)
    · exact Or.inr hrelation
    · rw [← Dict.lookup_isSome_iff, hlookup, hnone name hrelation, Option.none_or,
        Row.lookup_recordOf] at hname
      by_cases hcolumn : name ∈ layout.columns
      · exact Or.inl hcolumn
      · rw [if_neg hcolumn] at hname
        cases hname
  · intro joined hjoined
    have hmem : (joined.name, joined.entry schema db layout.table row) ∈
        joinedEntries schema db layout.table layout.relations row := by
      rw [joinedEntries_eq]
      exact List.mem_map.mpr ⟨joined, hjoined, rfl⟩
    rw [hlookup, Dict.lookup_of_mem (by rw [Dict.names, hnames]; exact hnodup) hmem]
    rfl

/-- A node holds the records that it was made of, if these are one at most for a relation to one. -/
theorem Node.records_ofRelated {isToMany : Bool} {records : List Record}
    (h : isToMany = false → records.length ≤ 1) :
    (Node.ofRelated isToMany records).records = records := by
  cases isToMany with
  | true => rfl
  | false =>
      have hlength := h rfl
      match records with
      | [] => rfl
      | [record] => rfl
      | first :: second :: rest =>
          simp only [List.length_cons] at hlength
          omega

/-- Under a joined relation of a row stand the records of all rows that it links to. -/
theorem JoinedBranchOf.Links.records {table : String} {joined : JoinedBranch}
    (h : joined.Links schema db table) {row : Row} (hrow : row ∈ db.rows table) :
    (joined.entry schema db table row).records =
      (schema.linked db table joined.name row).map (joined.layout.nest schema db) := by
  refine Node.records_ofRelated ?_
  intro hsingle
  rw [List.length_map]
  exact h.single hsingle row hrow

/-! ### Told apart -/

/-- The identity of the record of a row is the key of the row. -/
theorem Layout.identityOf_nest {layout : Layout} (h : layout.Regular schema db)
    (hnodup : layout.outputs.Nodup) (hkey : layout.key ≠ []) (row : Row) :
    layout.identityOf (layout.nest schema db row) = layout.key.map row.value := by
  obtain ⟨hlength, hidentity, hcolumns, -⟩ := h.level
  have hmirrors := (Layout.nest_of h row).mirrors
  have hempty : layout.key.isEmpty = false := by
    simpa using hkey
  have houtput : ∀ column ∈ layout.columns, ∃ output,
      (layout.columns.zip layout.outputs).lookup column = some output ∧
      (layout.own (layout.nest schema db row)).lookup output = some (row.value column) := by
    intro column hcolumn
    have hnames : Dict.names (layout.columns.zip layout.outputs) = layout.columns :=
      List.map_fst_zip (Nat.le_of_eq hlength.symm)
    obtain ⟨output, hfound⟩ := Option.isSome_iff_exists.mp
      (Dict.lookup_isSome_iff.mpr (hnames ▸ hcolumn))
    refine ⟨output, hfound, ?_⟩
    rw [← hmirrors.scalar hcolumn]
    refine Dict.lookup_of_mem (by rw [names_own layout hlength]; exact hnodup) ?_
    exact List.mem_map.mpr ⟨(column, output), Dict.mem_of_lookup hfound, rfl⟩
  unfold Layout.identityOf Row.valuesOf
  rw [hidentity, hempty]
  unfold outputsOf
  rw [if_neg Bool.false_ne_true, List.map_filterMap, ← List.filterMap_eq_map]
  refine List.filterMap_congr ?_
  intro column hcolumn
  obtain ⟨output, hfound, hown⟩ := houtput column (hcolumns hcolumn)
  rw [hfound, Option.map_some, hown]
  rfl

/-- Records of rows that are told apart by the key are told apart. -/
theorem Layout.toldApart_nest {layout : Layout} (h : layout.Regular schema db)
    (hnodup : layout.outputs.Nodup) {rows : List Row} (hrows : ApartBy layout.key rows) :
    layout.ToldApart (rows.map (layout.nest schema db)) := by
  have hidentity : ∀ row ∈ rows,
      layout.identityOf (layout.nest schema db row) = layout.key.map row.value := by
    intro row hrow
    obtain ⟨column, hcolumn, -⟩ := hrows.present row hrow
    exact Layout.identityOf_nest h hnodup (List.ne_nil_of_mem hcolumn) row
  constructor
  · have hkeys : (rows.map (layout.nest schema db)).map
        (fun record => Value.jointKey (layout.identityOf record)) =
          rows.map fun row => Value.jointKey (layout.key.map row.value) := by
      rw [List.map_map]
      exact List.map_congr_left fun row hrow => congrArg Value.jointKey (hidentity row hrow)
    rw [hkeys]
    exact hrows.apart
  · intro record hrecord
    obtain ⟨row, hrow, rfl⟩ := List.mem_map.mp hrecord
    obtain ⟨column, hcolumn, hvalue⟩ := hrows.present row hrow
    rw [hidentity row hrow]
    exact Or.inr ⟨row.value column, List.mem_map_of_mem hcolumn, hvalue⟩

/-- The outputs of a layout come before those beneath it, in their order. -/
theorem outputs_subset (layout : Layout) : layout.outputs.Sublist layout.outputNames := by
  obtain ⟨_, _, _, _, _, _, _, _, _, _⟩ := layout
  rw [Layout.outputNames]
  exact List.sublist_append_left _ _

mutual

/-- The record of a row is such as folding makes. -/
theorem Layout.nest_folded : ∀ {layout : Layout}, layout.Regular schema db →
    layout.outputNames.Nodup → ∀ {row : Row}, row ∈ db.rows layout.table →
    layout.Folded (layout.nest schema db row)
  | ⟨table, qualifier, lead, fields, columns, outputs, key, identity, relations, deferred⟩, h,
      hnodup, row, hrow => by
      have hnest := Layout.nest_of h row
      rw [Layout.Regular] at h
      rw [Layout.outputNames] at hnodup
      rw [Layout.Folded]
      refine ⟨⟨hnest.mirrors.sorted, ?_⟩, hnest.names, ?_⟩
      · exact fun column hcolumn => ⟨row.value column, hnest.mirrors.bound column hcolumn⟩
      · exact branches_folded h.2 (List.nodup_append.mp hnodup).2.1 hrow hnest.entries

/-- A record with the entries of a row is folded beneath the joined relations. -/
theorem branches_folded {table : String} : ∀ {relations : List (JoinedBranchOf Layout)},
    branchesRegular schema db table relations → (branchOutputNames relations).Nodup →
    ∀ {row : Row}, row ∈ db.rows table → ∀ {record : Record},
    (∀ joined ∈ relations, record.lookup joined.name = some (joined.entry schema db table row)) →
    branchesFolded relations record
  | [], h, hnodup, row, hrow, record, hentries => by
      rw [branchesFolded]
      trivial
  | ⟨name, isToMany, branch, layout⟩ :: rest, h, hnodup, row, hrow, record, hentries => by
      rw [branchesRegular] at h
      obtain ⟨⟨hlinks, hlayout⟩, hrest⟩ := h
      rw [branchOutputNames] at hnodup
      obtain ⟨hnodupFirst, hnodupRest, -⟩ := List.nodup_append.mp hnodup
      rw [branchesFolded]
      refine ⟨⟨_, hentries _ List.mem_cons_self, Node.ofRelated_ofKind _ _,
        hlinks.clauses.page _, ?_, ?_⟩, ?_⟩
      · rw [hlinks.records hrow]
        exact Layout.toldApart_nest hlayout (hnodupFirst.sublist (outputs_subset layout))
          (hlinks.keyed.sublist (hlinks.sublist row))
      · intro child hchild
        rw [hlinks.records hrow] at hchild
        obtain ⟨other, hother, rfl⟩ := List.mem_map.mp hchild
        exact Layout.nest_folded hlayout hnodupFirst ((hlinks.sublist row).subset hother)
      · exact branches_folded hrest hnodupRest hrow fun joined hjoined =>
          hentries joined (List.mem_cons_of_mem _ hjoined)

end

/-! ### Cells -/

/-- Cells of columns that a row binds are read off this row, whatever stands around it. -/
theorem cells_append_left {outputs : List Output} {left : Bindings}
    (h : ∀ output ∈ outputs, ∃ ref label, output = .column ref label ∧
      ref.qualifier ∈ Dict.names left) (right : Bindings) :
    cells outputs (left ++ right) = cells outputs left := by
  refine List.map_congr_left ?_
  intro output houtput
  obtain ⟨ref, label, rfl, hbound⟩ := h output houtput
  rw [Output.cell, Output.cell, Dict.lookup_append_of_mem hbound]

/-- Outputs that read nothing of the left side of a row read its right side. -/
theorem cells_append_right {outputs : List Output} {left : Bindings}
    (h : ∀ output ∈ outputs, ∃ ref label, output = .column ref label ∧
      ref.qualifier ∉ Dict.names left) (right : Bindings) :
    cells outputs (left ++ right) = cells outputs right := by
  refine List.map_congr_left ?_
  intro output houtput
  obtain ⟨ref, label, rfl, hnew⟩ := h output houtput
  rw [Output.cell, Output.cell, Dict.lookup_append_of_notMem hnew]

mutual

/-- The tables of a layout are known under its labels. -/
theorem Layout.within_labels : ∀ (layout : Layout), layout.Within layout.labels
  | ⟨_, _, _, _, _, _, _, _, relations, _⟩ => by
      rw [Layout.Within, Layout.labels]
      exact ⟨List.mem_cons_self,
        branchesWithin_mono (branches_within_labels relations) (List.subset_cons_self _ _)⟩

/-- What is beneath joined relations reads their labels only. -/
theorem branches_within_labels : ∀ (relations : List (JoinedBranchOf Layout)),
    branchesWithin relations (branchLabels relations)
  | [] => by
      rw [branchesWithin]
      trivial
  | ⟨_, _, _, layout⟩ :: rest => by
      rw [branchesWithin, branchLabels]
      exact ⟨(Layout.within_labels layout).mono (List.subset_append_left _ _),
        branchesWithin_mono (branches_within_labels rest) (List.subset_append_right _ _)⟩

end

mutual

/-- Without a row there is one combination, of no rows. -/
theorem Layout.expand_none : ∀ (layout : Layout),
    layout.expand schema db none = [layout.labels.map (·, none)]
  | ⟨_, _, _, _, _, _, _, _, relations, _⟩ => by
      rw [Layout.expand, Layout.labels, expandBranches_none relations]
      rfl

/-- Beneath no row stands one combination, which binds all labels to no row. -/
theorem expandBranches_none {table : String} : ∀ (relations : List (JoinedBranchOf Layout)),
    expandBranches schema db table relations none = [(branchLabels relations).map (·, none)]
  | [] => by
      rw [expandBranches, branchLabels]
      rfl
  | ⟨_, _, _, layout⟩ :: rest => by
      rw [expandBranches, branchLabels, expandBranches_none rest]
      simp [orNone, Layout.expand_none layout]

end

/-- Where no table has a row, all cells are null. -/
theorem cells_none (outputs : List Output) (labels : List String) :
    cells outputs (labels.map (·, none)) = (outputs.map Output.name).map (·, .null) := by
  unfold cells
  rw [List.map_map]
  refine List.map_congr_left ?_
  intro output _
  have hjoin : ∀ label : String, (List.lookup label
      (labels.map fun known => (known, (none : Option Row)))).join = none := by
    intro label
    cases hlookup : List.lookup label (labels.map fun known => (known, (none : Option Row))) with
    | none => rfl
    | some found =>
        obtain ⟨known, -, heq⟩ := List.mem_map.mp (Dict.mem_of_lookup hlookup)
        cases heq
        rfl
  cases output with
  | column ref label =>
      rw [Function.comp_apply, Output.cell, hjoin]
      rfl
  | count label => rfl

/-- The cells of a combination of a layout and of one of other relations are those of each.  Labels
are all different, so that cells of either are read off its own part of the combination. -/
theorem cells_append {layout : Layout} {rest : List (JoinedBranchOf Layout)}
    (hdisjoint : ∀ label ∈ layout.labels, label ∉ branchLabels rest) {found : Option Row}
    {beneath : Bindings} (hbeneath : beneath ∈ layout.expand schema db found) (others : Bindings) :
    cells (layout.projection ++ branchProjections rest) (beneath ++ others) =
      cells layout.projection beneath ++ cells (branchProjections rest) others := by
  have hnames := layout.names_expand found beneath hbeneath
  rw [cells, List.map_append]
  refine congrArg₂ (· ++ ·) (cells_append_left ?_ others) (cells_append_right ?_ others)
  · intro output houtput
    rw [hnames]
    exact layout.within_labels.projection output houtput
  · intro output houtput
    obtain ⟨ref, label, heq, hmem⟩ :=
      branchProjections_within (branches_within_labels rest) output houtput
    refine ⟨ref, label, heq, ?_⟩
    rw [hnames]
    exact fun hold => hdisjoint _ hold hmem

/-- Where no row is linked the cells are nulls, as in the flattened records. -/
theorem orNone_cells {layout : Layout} (h : layout.Regular schema db) {rows : List Row}
    (hrows : ∀ row ∈ rows, (layout.expand schema db (some row)).map (cells layout.projection) =
      layout.flatten (layout.nest schema db row)) :
    ((orNone rows).flatMap fun found =>
        (layout.expand schema db found).map (cells layout.projection)) =
      orNulls layout.outputNames
        ((rows.map (layout.nest schema db)).flatMap layout.flatten) := by
  by_cases hnone : rows = []
  · subst hnone
    simp only [orNone, orNulls, List.isEmpty_nil, if_true, List.flatMap_singleton, List.map_nil,
      List.flatMap_nil, Layout.expand_none, List.map_singleton, cells_none,
      Layout.names_projection h.named]
  · rw [orNulls_flatten layout (by simpa using hnone), orNone, if_neg (by simpa using hnone),
      List.flatMap_map, List.flatMap_map]
    exact List.flatMap_congr hrows

mutual

/-- The cells of the joined rows that begin with a row are the rows of its record, flattened. -/
theorem Layout.expand_cells : ∀ {layout : Layout}, layout.Regular schema db →
    layout.labels.Nodup → ∀ {row : Row}, row ∈ db.rows layout.table →
    (layout.expand schema db (some row)).map (cells layout.projection) =
      layout.flatten (layout.nest schema db row)
  | ⟨table, qualifier, lead, fields, columns, outputs, key, identity, relations, deferred⟩, h,
      hnodup, row, hrow => by
      have hnest := Layout.nest_of h row
      rw [Layout.Regular] at h
      rw [Layout.labels, List.nodup_cons] at hnodup
      rw [Layout.flatten, ← expandBranches_cells h.2 hnodup.2 hrow hnest.entries, Layout.expand,
        List.map_map, List.map_map]
      refine List.map_congr_left ?_
      intro beneath hbeneath
      have hown : cells ((columns.zip outputs).map fun (column, output) =>
          labelled qualifier column output) ((qualifier, some row) :: beneath) =
          (columns.zip outputs).map fun (column, output) =>
            (output, (Layout.nest schema db ⟨table, qualifier, lead, fields, columns, outputs, key,
              identity, relations, deferred⟩ row).scalar column) := by
        unfold cells
        rw [List.map_map]
        refine List.map_congr_left ?_
        rintro ⟨column, output⟩ hpair
        dsimp only [Function.comp_apply]
        rw [hnest.mirrors.scalar (List.of_mem_zip hpair).1]
        refine Prod.ext (labelled_name qualifier column output) ?_
        simp [labelled, Output.cell, Row.value]
      have hothers : cells (branchProjections relations) ((qualifier, some row) :: beneath) =
          cells (branchProjections relations) beneath := by
        refine @cells_append_right _ [(qualifier, some row)] ?_ beneath
        intro output houtput
        obtain ⟨ref, label, heq, hmem⟩ :=
          branchProjections_within (branches_within_labels relations) output houtput
        refine ⟨ref, label, heq, ?_⟩
        intro hsame
        rw [List.mem_singleton.mp hsame] at hmem
        exact hnodup.1 hmem
      rw [Function.comp_apply, Function.comp_apply, Layout.projection, cells, List.map_append]
      exact congrArg₂ (· ++ ·) hown hothers

/-- Read off by the outputs, the combinations of rows beneath a row are the flattened entries of its
record. -/
theorem expandBranches_cells {table : String} : ∀ {relations : List (JoinedBranchOf Layout)},
    branchesRegular schema db table relations → (branchLabels relations).Nodup →
    ∀ {row : Row}, row ∈ db.rows table → ∀ {record : Record}, (∀ joined ∈ relations,
      record.lookup joined.name = some (joined.entry schema db table row)) →
    (expandBranches schema db table relations (some row)).map
        (cells (branchProjections relations)) = flattenBranches relations record
  | [], h, hnodup, row, hrow, record, hentries => by
      rw [expandBranches, branchProjections, flattenBranches]
      rfl
  | ⟨name, isToMany, branch, layout⟩ :: rest, h, hnodup, row, hrow, record, hentries => by
      rw [branchesRegular] at h
      obtain ⟨⟨hlinks, hlayout⟩, hrest⟩ := h
      rw [branchLabels] at hnodup
      obtain ⟨hnodupFirst, hnodupRest, hdisjoint⟩ := List.nodup_append.mp hnodup
      have hchildren : record.children name =
          (schema.linked db table name row).map (layout.nest schema db) := by
        rw [Record.children, hentries _ List.mem_cons_self]
        exact hlinks.records hrow
      have hothers := expandBranches_cells hrest hnodupRest hrow fun joined hjoined =>
        hentries joined (List.mem_cons_of_mem _ hjoined)
      have hfirst := orNone_cells hlayout fun other hother =>
        Layout.expand_cells hlayout hnodupFirst ((hlinks.sublist row).subset hother)
      rw [← hchildren] at hfirst
      rw [expandBranches, branchProjections, flattenBranches, ← hfirst, ← hothers,
        Option.elim_some, List.flatMap_assoc, List.map_flatMap]
      refine List.flatMap_congr ?_
      intro other _
      rw [List.flatMap_map, List.map_flatMap]
      refine List.flatMap_congr ?_
      intro beneath hbeneath
      rw [List.map_map, List.map_map]
      exact List.map_congr_left fun others _ =>
        cells_append (fun label hold hmem => hdisjoint label hold label hmem rfl) hbeneath others

end

/-! ### Folding joined rows -/

mutual

/-- A regular layout is sound. -/
theorem Layout.Regular.sound : ∀ {layout : Layout}, layout.Regular schema db → layout.Sound
  | ⟨_, _, _, _, columns, outputs, key, identity, relations, _⟩, h => by
      rw [Layout.Regular] at h
      obtain ⟨⟨hlength, hidentity, -, hnodup, -⟩, hbranches⟩ := h
      rw [Layout.Sound]
      refine ⟨hlength, ?_, hnodup, branchesRegular_sound hbranches⟩
      exact hidentity ▸ identity_subset columns outputs key

/-- So are its joined relations. -/
theorem branchesRegular_sound {table : String} : ∀ {relations : List (JoinedBranchOf Layout)},
    branchesRegular schema db table relations → branchesSound relations
  | [], h => by
      rw [branchesSound]
      trivial
  | ⟨_, _, _, _⟩ :: _, h => by
      rw [branchesRegular] at h
      rw [branchesSound]
      exact ⟨⟨h.1.1.notBase, h.1.2.sound⟩, branchesRegular_sound h.2⟩

end

/-- Folding the joined rows that begin with some rows gives the records of these. -/
theorem Layout.assemble_joined {layout : Layout} (h : layout.Regular schema db)
    (hlabels : layout.labels.Nodup) (hnames : layout.outputNames.Nodup) {rows : List Row}
    (hrows : rows ⊆ db.rows layout.table) (hapart : ApartBy layout.key rows) :
    layout.assemble ((rows.flatMap fun row => layout.expand schema db (some row)).map
        fun bindings => Dict.ofPairs (cells layout.projection bindings)) =
      rows.map (layout.nest schema db) := by
  have hflat : (rows.flatMap fun row => layout.expand schema db (some row)).map
      (fun bindings => Dict.ofPairs (cells layout.projection bindings)) =
        ((rows.map (layout.nest schema db)).flatMap layout.flatten).map Dict.ofPairs := by
    rw [List.map_flatMap, List.flatMap_map, List.map_flatMap]
    refine List.flatMap_congr ?_
    intro row hrow
    rw [← Layout.expand_cells h hlabels (hrows hrow), List.map_map]
    rfl
  rw [hflat]
  refine Layout.assemble_flatten h.sound hnames (Layout.toldApart_nest h
    (hnames.sublist (outputs_subset layout)) hapart) ?_
  intro record hrecord
  obtain ⟨row, hrow, rfl⟩ := List.mem_map.mp hrecord
  exact Layout.nest_folded h hnames (hrows hrow)

/-! ### Loading what was put off -/

/-- The entry of a relation of a row under a shape. -/
def Relation.entry (schema : Schema) (db : Database) (relation : Relation) (shape : Shape)
    (row : Row) : Node :=
  .ofRelated relation.kind.isToMany
    ((relation.linked db row).map (shape.nest schema db relation.target))

/-- Under a relation of a shape its entry is found. -/
theorem lookup_nestBranches {table : String} {relations : List (String × Branch)}
    (hproper : branchesProper schema relations table) (hnodup : (relations.map (·.1)).Nodup)
    {entry : String × Branch} (hentry : entry ∈ relations) {relation : Relation}
    (hrelation : schema.relation? table entry.1 = some relation) (row : Row) :
    (nestBranches schema db relations table row).lookup entry.1 =
      some (relation.entry schema db entry.2.shape row) := by
  have hnames : (nestBranches schema db relations table row).map (·.1) = relations.map (·.1) :=
    names_nestBranches hproper
  refine Dict.lookup_of_mem (by rw [Dict.names, hnames]; exact hnodup) ?_
  clear hnodup hnames
  induction relations with
  | nil => cases hentry
  | cons first rest ih =>
      obtain ⟨name, ⟨shape, filter, orderBy, take, skip, distinct, joinKind⟩⟩ := first
      rw [branchesProper] at hproper
      obtain ⟨⟨-, known, hknown, -⟩, hrest⟩ := hproper
      rw [nestBranches, hknown]
      rcases List.mem_cons.mp hentry with rfl | hmem
      · rw [hknown] at hrelation
        cases hrelation
        exact List.mem_cons_self
      · exact List.mem_cons_of_mem _ (ih hrest hmem)

/-- What is done with the records of a node is done with those that it is made of. -/
theorem Node.mapRecords_ofRelated (isToMany : Bool) (records : List Record)
    (change : Record → Record) :
    (Node.ofRelated isToMany records).mapRecords change =
      Node.ofRelated isToMany (records.map change) := by
  cases isToMany with
  | true => rfl
  | false => cases records <;> rfl

/-- The function loads what was put off beneath joined relations of rows: stripped, the entries are
those of the shape; and it changes nothing else. -/
structure NestsIn (schema : Schema) (db : Database) (table : String)
    (relations : List (String × Branch)) (joined : List JoinedBranch) (rows : List Row)
    (load : Record → Record) : Prop where
  sorted : ∀ record, Dict.Sorted record → Dict.Sorted (load record)
  others : ∀ record name, name ∉ joined.map (·.name) →
    (load record).lookup name = record.lookup name
  nests : ∀ row ∈ rows, ∀ record : Record,
    (∀ branch ∈ joined, record.lookup branch.name = some (branch.entry schema db table row)) →
    ∀ branch ∈ joined, ∃ entry ∈ relations, entry.1 = branch.name ∧
      ∃ relation, schema.relation? table entry.1 = some relation ∧
        ((load record).lookup branch.name).map (Node.mapRecords branch.layout.strip) =
          some (relation.entry schema db entry.2.shape row)

/-- Loading beneath the first joined relation and then beneath the others. -/
theorem NestsIn.cons {table name : String} {branch : Branch} {layout : Layout}
    {relation : Relation} {rest : List (String × Branch)} {others : List JoinedBranch}
    {rows : List Row} {change more : Record → Record}
    (hmore : NestsIn schema db table rest others rows more)
    (hrelation : schema.relation? table name = some relation)
    (hnew : name ∉ others.map (·.name))
    (hchange : ∀ row ∈ rows, ∀ other ∈ relation.linked db row,
      layout.strip (change (layout.nest schema db other)) =
        branch.shape.nest schema db relation.target other) :
    NestsIn schema db table ((name, branch) :: rest)
      (⟨name, relation.kind.isToMany, branch, layout⟩ :: others) rows (fun record => more (Dict.adjust name (Node.mapRecords change) record)) := by
  constructor
  case sorted =>
    intro record hsorted
    exact hmore.sorted _ (hsorted.adjust _ _)
  case others =>
    intro record other hother
    rw [List.map_cons, List.mem_cons, not_or] at hother
    rw [hmore.others _ _ hother.2, Dict.lookup_adjust_of_ne hother.1]
  case nests =>
    intro row hrow before hbefore joined hjoined
    obtain ⟨hentry, hentries⟩ := List.forall_mem_cons.mp hbefore
    rcases List.mem_cons.mp hjoined with rfl | hmem
    · refine ⟨(name, branch), List.mem_cons_self, rfl, relation, hrelation, ?_⟩
      rw [hmore.others _ _ hnew, Dict.lookup_adjust_self, hentry, Option.map_some,
        Option.map_some, JoinedBranchOf.entry, Node.mapRecords_ofRelated,
        Node.mapRecords_ofRelated, Relation.entry, List.map_map, List.map_map,
        Schema.linked_of_relation hrelation]
      congr 2
      exact List.map_congr_left (hchange row hrow)
    · have hkept : ∀ branch ∈ others, (Dict.adjust name (Node.mapRecords change) before).lookup
          branch.name = some (branch.entry schema db table row) := by
        intro other hother
        rw [Dict.lookup_adjust_of_ne]
        · exact hentries other hother
        · intro heq
          exact hnew (List.mem_map.mpr ⟨other, hother, heq⟩)
      obtain ⟨entry, hentryMem, hfound⟩ := hmore.nests row hrow _ hkept joined hmem
      exact ⟨entry, List.mem_cons_of_mem _ hentryMem, hfound⟩

/-- The record of a row under a layout with everything loaded: its fields, its joined relations,
still to be stripped, and its deferred ones. -/
structure Layout.Loaded (schema : Schema) (db : Database) (layout : Layout)
    (relations : List (String × Branch)) (row : Row) (record : Record) : Prop where
  sorted : Dict.Sorted record
  fields : ∀ field ∈ layout.fields, record.lookup field = some (.scalar (row.value field))
  joined : ∀ branch ∈ layout.relations, ∃ entry ∈ relations, entry.1 = branch.name ∧
    ∃ relation, schema.relation? layout.table entry.1 = some relation ∧
      (record.lookup branch.name).map (Node.mapRecords branch.layout.strip) =
        some (relation.entry schema db entry.2.shape row)
  deferred : ∀ entry ∈ layout.deferred, ∀ relation,
    schema.relation? layout.table entry.1 = some relation →
      record.lookup entry.1 = some (relation.entry schema db entry.2.shape row)

/-- Stripped of what is hidden, a record with everything loaded is the nested record of its row. -/
theorem strip_loaded {shape : Shape} {table : String} {layout : Layout}
    (hplanned : shape.Planned schema table layout) (hproper : shape.Proper schema table)
    {row : Row} {record : Record} (h : layout.Loaded schema db shape.relations row record) :
    layout.strip record = shape.nest schema db table row := by
  obtain ⟨fields, excluded, relations⟩ := shape
  obtain ⟨layoutTable, qualifier, lead, layoutFields, columns, outputs, key, identity, joined,
    deferred⟩ := layout
  obtain ⟨hsorted, hbound, hbeneath, hlater⟩ := h
  cases hplanned with
  | intro htable hfields hkey hcarried hlinked hknown hrelations =>
      have hshape := hproper
      rw [Shape.Proper] at hshape
      obtain ⟨hcolumns, hnodup, hbranches⟩ := hshape
      obtain ⟨hjoined, hdeferred, hdisjoint⟩ := hrelations.nodup hnodup
      cases htable
      cases hfields
      have hapart : ∀ name ∈ joined.map (·.name) ++ deferred.map (·.1),
          name ∈ relations.map (·.1) := fun name hname => hrelations.names_perm.subset hname
      rw [Layout.strip]
      obtain ⟨hstripped, hothers⟩ := stripBranches_others joined
        (Record.shown record layoutFields (joined.map (·.name) ++ deferred.map (·.1)))
      refine eq_nest hproper (Dict.sorted_of_names hstripped.symm (hsorted.filter _)) ?_ ?_ ?_
      · intro name hname
        rcases List.mem_append.mp (hrelations.names_perm.symm.subset hname) with hmem | hmem
        · obtain ⟨branch, hbranch, rfl⟩ := List.mem_map.mp hmem
          obtain ⟨entry, hentry, hsame, relation, hrelation, hfound⟩ := hbeneath branch hbranch
          rw [stripBranches_lookup hjoined hbranch, Record.lookup_shown, if_pos (by simp [hmem]),
            hfound, ← hsame, lookup_nestBranches hbranches hnodup hentry hrelation]
        · obtain ⟨entry, hentry, rfl⟩ := List.mem_map.mp hmem
          obtain ⟨-, relation, hrelation, -⟩ :=
            branchesProper_iff.mp hbranches entry (hrelations.deferred_subset hentry)
          rw [hothers _ fun hold => hdisjoint _ hold hmem, Record.lookup_shown,
            if_pos (by simp [hmem]), hlater entry hentry relation hrelation,
            lookup_nestBranches hbranches hnodup (hrelations.deferred_subset hentry) hrelation]
      · intro field hfield
        have hnew : field ∉ joined.map (·.name) := fun hmem =>
          fields_disjoint hcolumns hbranches field hfield
            (hapart field (List.mem_append_left _ hmem))
        rw [hothers field hnew, Record.lookup_shown, if_pos (by simp [hfield])]
        exact hbound field hfield
      · intro name hfield hrelation
        have hnew : name ∉ joined.map (·.name) ++ deferred.map (·.1) :=
          fun hmem => hrelation (hapart name hmem)
        rw [hothers name fun hmem => hnew (List.mem_append_left _ hmem), Record.lookup_shown,
          if_neg]
        rw [Bool.or_eq_true, List.contains_iff_mem, List.contains_iff_mem]
        exact fun hshown => hshown.elim hfield hnew

mutual

/-- Loading what was put off and stripping what is hidden makes the nested records of rows of
their records under the layout. -/
theorem loadDeferred_nest (hschema : schema.Consistent) : ∀ {shape : Shape} {table : String}
    {layout : Layout}, shape.Planned schema table layout → shape.Proper schema table →
    shape.Throughout schema (FollowsKeys db) table → layout.Regular schema db →
    ∀ {rows : List Row}, rows ⊆ db.rows table →
    (layout.loadDeferred schema (rows.map (layout.nest schema db))).Gives db.run fun load =>
      ∀ row ∈ rows, layout.strip (load (layout.nest schema db row)) =
        shape.nest schema db table row
  | ⟨fields, excluded, relations⟩, table,
      ⟨layoutTable, qualifier, lead, layoutFields, columns, outputs, key, identity, joined, deferred⟩,
      .intro htable hfields hkey hcarried hlinked hknown hrelations, hproper, hthroughout, hregular,
      rows, hrows => by
      have hnest := fun row => Layout.nest_of hregular row
      have hstrip := fun row record => @strip_loaded schema db _ _ _
        (.intro htable hfields hkey hcarried hlinked hknown hrelations) hproper row record
      rw [Shape.Proper] at hproper
      rw [Shape.Throughout] at hthroughout
      rw [Layout.Regular] at hregular
      obtain ⟨hcolumns, hnodup, hbranches⟩ := hproper
      obtain ⟨hjoined, hdeferred, hdisjoint⟩ := hrelations.nodup hnodup
      cases htable
      cases hfields
      have hput := hrelations.deferred_proper hbranches
      have hlater : branchesThroughout schema (FollowsKeys db) deferred layoutTable :=
        branchesThroughout_iff.mpr fun entry hentry =>
          branchesThroughout_iff.mp hthroughout entry (hrelations.deferred_subset hentry)
      have hscalars : ∀ row : Row, ∀ entry ∈ deferred, ∀ relation,
          schema.relation? layoutTable entry.1 = some relation →
          (Layout.nest schema db ⟨layoutTable, qualifier, lead, layoutFields, columns, outputs, key,
            identity, joined, deferred⟩ row).scalar relation.fromColumn =
              row.value relation.fromColumn :=
        fun row entry hentry relation hrelation =>
          (hnest row).mirrors.scalar (hlinked entry hentry relation hrelation)
      generalize Layout.nest schema db ⟨layoutTable, qualifier, lead, layoutFields, columns, outputs,
        key, identity, joined, deferred⟩ = nest at hnest hscalars
      rw [Layout.loadDeferred]
      refine Load.Gives.bind (loadBranches_nest hschema hput hlater hrows ?_) ?_
      · intro entry hentry relation hrelation
        rw [List.map_map]
        exact List.map_congr_left fun row _ => hscalars row entry hentry relation hrelation
      intro here hhere
      have hfound : ∀ row ∈ rows, ∀ name, (here (nest row)).lookup name =
          ((nestBranches schema db deferred layoutTable row).lookup name).or
            ((nest row).lookup name) := by
        intro row hrow name
        rw [hhere row hrow _ (hscalars row),
          Dict.lookup_putAll_of_nodup (by rw [names_nestBranches hput]; exact hdeferred)]
      have hkept : ∀ row ∈ rows, ∀ name, name ∉ deferred.map (·.1) →
          (here (nest row)).lookup name = (nest row).lookup name := by
        intro row hrow name hname
        have hnone : (nestBranches schema db deferred layoutTable row).lookup name = none := by
          refine Dict.lookup_eq_none_iff.mpr ?_
          rw [Dict.names, names_nestBranches hput]
          exact hname
        rw [hfound row hrow, hnone, Option.none_or]
      have hentries : ∀ row ∈ rows, ∀ branch ∈ joined, (here (nest row)).lookup branch.name =
          some (branch.entry schema db layoutTable row) := by
        intro row hrow branch hbranch
        rw [hkept row hrow _ (hdisjoint _ (List.mem_map_of_mem hbranch))]
        exact (hnest row).entries branch hbranch
      rw [List.map_map]
      refine Load.Gives.bind (loadDeferredBranches_nest hschema hrelations hbranches hthroughout
        hjoined hregular.2 hrows hentries) ?_
      intro beneath hbeneath
      refine Load.gives_pure ?_
      intro row hrow
      have hsorted : Dict.Sorted (here (nest row)) := by
        rw [hhere row hrow _ (hscalars row)]
        exact (hnest row).mirrors.sorted.putAll _
      refine hstrip row _ ⟨hbeneath.sorted _ hsorted, ?_,
        hbeneath.nests row hrow _ (hentries row hrow), ?_⟩
      · intro field hfield
        have hother := fields_disjoint hcolumns hbranches field hfield
        have hnew : ∀ name ∈ joined.map (·.name) ++ deferred.map (·.1), field ≠ name := by
          rintro name hname rfl
          exact hother (hrelations.names_perm.subset hname)
        rw [hbeneath.others _ _ fun hmem => hnew _ (List.mem_append_left _ hmem) rfl,
          hkept row hrow field fun hmem => hnew _ (List.mem_append_right _ hmem) rfl]
        exact (hnest row).mirrors.bound field (hcarried (List.mem_append_left _ hfield))
      · intro entry hentry relation hrelation
        rw [hbeneath.others _ _ fun hold => hdisjoint _ hold (List.mem_map_of_mem hentry),
          hfound row hrow, lookup_nestBranches hput hdeferred hentry hrelation]
        rfl

/-- What was put off beneath joined relations is loaded into the entries of the rows, so that these
become the nested records. -/
theorem loadDeferredBranches_nest (hschema : schema.Consistent) :
    ∀ {relations : List (String × BranchOf Shape)} {table : String} {joined : List JoinedBranch}
      {deferred : List (String × Branch)}, BranchesPlanned schema relations table joined deferred →
    branchesProper schema relations table →
    branchesThroughout schema (FollowsKeys db) relations table →
    (joined.map (·.name)).Nodup → branchesRegular schema db table joined →
    ∀ {rows : List Row}, rows ⊆ db.rows table → ∀ {record : Row → Record},
    (∀ row ∈ rows, ∀ branch ∈ joined,
      (record row).lookup branch.name = some (branch.entry schema db table row)) →
    (loadDeferredBranches schema joined (rows.map record)).Gives db.run
      (NestsIn schema db table relations joined rows)
  | _, _, _, _, .nil, hproper, hthroughout, hnodup, hregular, rows, hrows, record, hrecord => by
      rw [loadDeferredBranches]
      refine Load.gives_pure ⟨fun record h => h, fun record name _ => rfl, ?_⟩
      intro row _ record _ branch hbranch
      cases hbranch
  | _, table, _, _, @BranchesPlanned.joined _ name branch rest _ relation layout others deferred
      hjoinable hlayout hlead hrest, hproper, hthroughout, hnodup, hregular, rows, hrows, record,
      hrecord => by
      have hrelation := (joinable?_eq_some hjoinable).1
      obtain ⟨⟨-, known, hknown, hshape⟩, hothersProper⟩ :=
        List.forall_mem_cons.mp (branchesProper_iff.mp hproper)
      obtain ⟨hfirst, hothersThroughout⟩ :=
        List.forall_mem_cons.mp (branchesThroughout_iff.mp hthroughout)
      obtain ⟨-, hbeneath⟩ := hfirst relation hrelation
      rw [hrelation] at hknown
      cases hknown
      rw [List.map_cons, List.nodup_cons] at hnodup
      rw [branchesRegular] at hregular
      obtain ⟨⟨hlinks, hlayoutRegular⟩, hothersRegular⟩ := hregular
      have htable : layout.table = relation.target := hlayout.table_eq
      have hchildren : ((rows.map record).flatMap fun record =>
          ((record.lookup name).map Node.records).getD []) =
            (rows.flatMap (schema.linked db table name)).map (layout.nest schema db) := by
        rw [List.flatMap_map, List.map_flatMap]
        refine List.flatMap_congr ?_
        intro row hrow
        rw [hrecord row hrow _ List.mem_cons_self]
        exact hlinks.records (hrows hrow)
      have hsubset : rows.flatMap (schema.linked db table name) ⊆ db.rows relation.target := by
        intro other hother
        obtain ⟨row, -, hmem⟩ := List.mem_flatMap.mp hother
        exact htable ▸ (hlinks.sublist row).subset hmem
      rw [loadDeferredBranches, hchildren]
      refine Load.Gives.bind
        (loadDeferred_nest hschema hlayout hshape hbeneath hlayoutRegular hsubset) ?_
      intro change hchange
      refine Load.Gives.bind (loadDeferredBranches_nest hschema hrest
        (branchesProper_iff.mpr hothersProper) (branchesThroughout_iff.mpr hothersThroughout)
        hnodup.2 hothersRegular hrows fun row hrow other hother =>
          hrecord row hrow other (List.mem_cons_of_mem _ hother)) ?_
      intro more hmore
      refine Load.gives_pure (hmore.cons hrelation hnodup.1 ?_)
      intro row hrow other hother
      refine hchange other (List.mem_flatMap.mpr ⟨row, hrow, ?_⟩)
      rw [Schema.linked_of_relation hrelation]
      exact hother
  | _, _, _, _, .deferred hjoinable hrelation hrest, hproper, hthroughout, hnodup, hregular, rows,
      hrows, record, hrecord => by
      obtain ⟨-, hothersProper⟩ := List.forall_mem_cons.mp (branchesProper_iff.mp hproper)
      obtain ⟨-, hothersThroughout⟩ :=
        List.forall_mem_cons.mp (branchesThroughout_iff.mp hthroughout)
      intro load hload
      obtain ⟨hsorted, hothers, hnests⟩ := loadDeferredBranches_nest hschema hrest
        (branchesProper_iff.mpr hothersProper) (branchesThroughout_iff.mpr hothersThroughout)
        hnodup hregular hrows hrecord load hload
      refine ⟨hsorted, hothers, ?_⟩
      intro row hrow before hbefore branch hbranch
      obtain ⟨entry, hentry, hfound⟩ := hnests row hrow before hbefore branch hbranch
      exact ⟨entry, List.mem_cons_of_mem _ hentry, hfound⟩

end

end NestedQuery
