import NestedQuery.Proofs.SortableRequests

/-!
# Records show what was chosen

What a record should show can be read off the arguments directly: a column is
shown if it was chosen, or none was, and it was not omitted; a relation is shown
if it was asked for, and the records under it show what its own arguments
choose.  The shape that the engine works with says the same, and records fit
their shape under both strategies; so they show what was chosen and nothing
else.
-/

namespace NestedQuery

/-! ### What arguments choose -/

/-- The arguments under which a choice asks for a relation, if it does. -/
def Choice.args? : Choice RelationArgs → Option RelationArgs
  | .flag false => none
  | .flag true => some {}
  | .relation args => some args

/-- The relations that choices ask for by name. -/
def askedFor (choices : List (String × Choice RelationArgs)) : List (String × RelationArgs) :=
  choices.filterMap fun (name, choice) => choice.args?.map (name, ·)

namespace RelationArgs

/-- Whether a column is chosen by a flag. -/
def Chooses (args : RelationArgs) (column : String) : Prop :=
  (column, .flag true) ∈ args.selected.getD []

/-- Whether records of the table show the column: it is chosen, or no column is, and it is not
omitted. -/
def ShowsColumn (args : RelationArgs) (table : Table) (column : String) : Prop :=
  table.hasColumn column ∧
    (args.Chooses column ∨ ∀ other, table.hasColumn other → ¬ args.Chooses other) ∧
    (column, true) ∉ args.omitted.getD []

/-- The relation that is shown under a name, with its own arguments; the last request for it
counts, and what is included comes after what is selected. -/
def shown? (args : RelationArgs) (table : Table) (name : String) :
    Option (Relation × RelationArgs) :=
  if table.hasColumn name then none
  else do
    let relation ← table.relation? name
    let inner ← (askedFor (args.selected.getD [] ++ args.included.getD [])).reverse.lookup name
    return (relation, inner)

end RelationArgs

/-- The record shows what the arguments choose of a table: its names, each once, are those of the
shown columns and the shown relations; the columns are scalars, and under each relation is an entry
of its kind whose records show what the arguments of the relation choose of its target. -/
inductive Shows (schema : Schema) : Table → RelationArgs → Record → Prop
  | intro {table : Table} {args : RelationArgs} {record : Record} (hsorted : Dict.Sorted record)
      (hnames : ∀ name, name ∈ Dict.names record ↔
        args.ShowsColumn table name ∨ (args.shown? table name).isSome)
      (hcolumns : ∀ column, args.ShowsColumn table column →
        ∃ value, record.lookup column = some (.scalar value))
      (hrelations : ∀ name relation inner, args.shown? table name = some (relation, inner) →
        ∃ target node, schema.table? relation.target = some target ∧
          record.lookup name = some node ∧ node.OfKind relation.kind.isToMany)
      (hbeneath : ∀ name relation inner target node, args.shown? table name = some (relation, inner) →
        schema.table? relation.target = some target → record.lookup name = some node →
        ∀ child ∈ node.records, Shows schema target inner child) :
      Shows schema table args record

/-! ### What shapes choose -/

variable {schema : Schema}

/-- A choice loads a relation with its arguments. -/
theorem Choice.branch?_eq (choice : Choice RelationArgs) (target : String) :
    choice.branch? schema target = choice.args?.map (·.branch schema target) := by
  cases choice with
  | flag chosen => cases chosen <;> rfl
  | relation args => rfl

/-- What is shown as a relation is known and no column. -/
theorem RelationArgs.of_shown? {args inner : RelationArgs} {table : Table} {name : String}
    {relation : Relation} (h : args.shown? table name = some (relation, inner)) :
    table.hasColumn name = false ∧ table.relation? name = some relation := by
  unfold RelationArgs.shown? at h
  split at h
  · cases h
  · next hcolumn =>
      obtain ⟨known, hknown, h⟩ := Option.bind_eq_some_iff.mp h
      obtain ⟨found, -, h⟩ := Option.bind_eq_some_iff.mp h
      cases h
      exact ⟨by simpa using hcolumn, hknown⟩

theorem askedFor_cons (name : String) (choice : Choice RelationArgs)
    (rest : List (String × Choice RelationArgs)) :
    askedFor ((name, choice) :: rest) =
      (choice.args?.map (name, ·)).toList ++ askedFor rest := by
  unfold askedFor
  cases h : choice.args? <;> simp [h]

/-- A choice that asks for a relation makes it known with its arguments. -/
theorem lookup_addChoice_self (table : Table) {name : String} {relation : Relation}
    (hcolumn : table.hasColumn name = false) (hrelation : table.relation? name = some relation)
    (choice : Choice RelationArgs) (known : Branches) :
    (addChoice schema table name choice known).lookup name =
      (choice.args?.map (·.branch schema relation.target)).or (known.lookup name) := by
  unfold addChoice
  rw [if_neg (by simp [hcolumn]), hrelation]
  dsimp only
  rw [Choice.branch?_eq]
  cases choice.args? with
  | none => rfl
  | some args =>
      simp only [Option.map_some, Dict.lookup_put_self]
      rfl

theorem lookup_addChoice_of_ne (table : Table) {name key : String} (h : name ≠ key)
    (choice : Choice RelationArgs) (known : Branches) :
    (addChoice schema table key choice known).lookup name = known.lookup name := by
  unfold addChoice
  split
  · rfl
  · split
    · rfl
    · split
      · rfl
      · exact Dict.lookup_put_of_ne h _ _

/-- A relation is known of a level by the last request for it. -/
theorem lookup_addBranches (table : Table) {name : String} {relation : Relation}
    (hcolumn : table.hasColumn name = false) (hrelation : table.relation? name = some relation)
    (choices : List (String × Choice RelationArgs)) (known : Branches) :
    (addBranches schema table choices known).lookup name =
      (((askedFor choices).reverse.lookup name).map (·.branch schema relation.target)).or
        (known.lookup name) := by
  induction choices generalizing known with
  | nil => rfl
  | cons pair rest ih =>
      obtain ⟨key, choice⟩ := pair
      rw [addBranches_cons, ih, askedFor_cons, List.reverse_append, List.lookup_append]
      by_cases hkey : name = key
      · subst hkey
        rw [lookup_addChoice_self table hcolumn hrelation]
        cases (askedFor rest).reverse.lookup name <;> cases choice.args? <;> simp
      · rw [lookup_addChoice_of_ne table hkey]
        cases choice.args? <;> simp [Dict.lookup_cons, hkey]

theorem chosenBranches_eq (table : Table) (choices : Option (List (String × Choice RelationArgs)))
    (known : Branches) :
    chosenBranches schema table choices known =
      addBranches schema table (choices.getD []) known := by
  cases choices <;> rfl

/-- Of what is selected and included, the relations of a shape are those that are shown. -/
theorem lookup_chosenBranches (args : RelationArgs) (table : Table) {name : String}
    {relation : Relation} (hcolumn : table.hasColumn name = false)
    (hrelation : table.relation? name = some relation) :
    (chosenBranches schema table args.included
        (chosenBranches schema table args.selected [])).lookup name =
      (args.shown? table name).map fun (relation, inner) =>
        inner.branch schema relation.target := by
  rw [chosenBranches_eq, chosenBranches_eq, lookup_addBranches table hcolumn hrelation,
    lookup_addBranches table hcolumn hrelation, RelationArgs.shown?, if_neg (by simp [hcolumn]),
    hrelation]
  have hasked : askedFor (args.selected.getD [] ++ args.included.getD []) =
      askedFor (args.selected.getD []) ++ askedFor (args.included.getD []) :=
    List.filterMap_append
  rw [hasked, List.reverse_append, List.lookup_append]
  cases (askedFor (args.included.getD [])).reverse.lookup name <;>
    cases (askedFor (args.selected.getD [])).reverse.lookup name <;> rfl

/-- Without the omitted columns are left those that are not omitted. -/
theorem mem_omitFields {fields : List String} (hnodup : fields.Nodup)
    (omitted : Option Omissions) (column : String) :
    column ∈ (Shape.omitFields fields omitted).1 ↔
      column ∈ fields ∧ (column, true) ∉ omitted.getD [] := by
  rw [omitFields_eq_diff, hnodup.mem_sdiff_iff]
  simp

theorem mem_columnNames {table : Table} {column : String} :
    column ∈ table.columnNames ↔ table.hasColumn column := by
  simp [Table.columnNames, Table.hasColumn]

/-- The chosen fields are the columns that are chosen, or all of them. -/
theorem mem_chosenFields (table : Table) (args : RelationArgs) (column : String) :
    column ∈ Shape.chosenFields table args.selected ↔ table.hasColumn column ∧
      (args.Chooses column ∨ ∀ other, table.hasColumn other → ¬ args.Chooses other) := by
  unfold Shape.chosenFields
  extract_lets chosen
  have hchosen : ∀ other, other ∈ chosen ↔ table.hasColumn other ∧ args.Chooses other := by
    intro other
    unfold chosen RelationArgs.Chooses
    rw [List.mem_map]
    constructor
    · rintro ⟨⟨name, choice⟩, hpair, rfl⟩
      obtain ⟨hmem, hkept⟩ := List.mem_filter.mp hpair
      obtain ⟨hcolumn, hflag⟩ := Bool.and_eq_true_iff.mp hkept
      cases choice with
      | flag asked =>
          cases hflag
          exact ⟨hcolumn, hmem⟩
      | relation inner => cases hflag
    · rintro ⟨hcolumn, hmem⟩
      exact ⟨_, List.mem_filter.mpr ⟨hmem, by simp [hcolumn, Shape.isChosen]⟩, rfl⟩
  clear_value chosen
  rw [List.mem_filter, mem_columnNames, Bool.or_eq_true, List.contains_iff_mem, hchosen,
    List.isEmpty_iff, List.eq_nil_iff_forall_not_mem]
  simp only [hchosen, not_and]
  tauto

/-- Whether a shape has a field is whether the column is shown. -/
theorem mem_fields {table : Table} (hnodup : table.columnNames.Nodup) (args : RelationArgs)
    (relations : Branches) (column : String) :
    column ∈ (Shape.ofTable table args.selected args.omitted relations).fields ↔
      args.ShowsColumn table column := by
  unfold Shape.ofTable
  dsimp only
  rw [mem_omitFields, mem_chosenFields, RelationArgs.ShowsColumn, and_assoc]
  exact hnodup.filter _

/-! ### What records show -/

/-- The shape of the records that arguments of a relation ask for. -/
theorem branch_shape {name : String} {table : Table} (htable : schema.table? name = some table)
    (args : RelationArgs) :
    (args.branch schema name).shape = .ofTable table args.selected args.omitted
      (chosenBranches schema table args.included
        (chosenBranches schema table args.selected [])) := by
  cases args
  rw [RelationArgs.branch]
  simp only [htable]

/-- The relations of the shape of arguments are those that they show. -/
theorem mem_relations {name : String} {table : Table} (htable : schema.table? name = some table)
    (args : RelationArgs) {key : String} {branch : Branch} :
    (key, branch) ∈ (args.branch schema name).shape.relations ↔
      ∃ relation inner, args.shown? table key = some (relation, inner) ∧
        branch = inner.branch schema relation.target := by
  obtain ⟨-, hnodup, hbranches⟩ := Shape.proper_iff.mp (args.branch_proper name)
  have hrelations : (args.branch schema name).shape.relations =
      chosenBranches schema table args.included (chosenBranches schema table args.selected []) := by
    rw [branch_shape htable]
    rfl
  rw [hrelations] at hnodup hbranches ⊢
  have hlookup : ∀ relation, table.hasColumn key = false → table.relation? key = some relation →
      (chosenBranches schema table args.included
        (chosenBranches schema table args.selected [])).lookup key =
      (args.shown? table key).map fun (relation, inner) => inner.branch schema relation.target :=
    fun relation hcolumn hrelation => lookup_chosenBranches args table hcolumn hrelation
  constructor
  · intro hmem
    obtain ⟨hcolumn, relation, hrelation, -⟩ := branchesProper_iff.mp hbranches _ hmem
    rw [Schema.hasColumn, htable] at hcolumn
    rw [Schema.relation?, htable] at hrelation
    have hfound := hlookup relation hcolumn hrelation
    rw [Dict.lookup_of_mem hnodup hmem] at hfound
    obtain ⟨⟨found, inner⟩, hshown, hbranch⟩ := Option.map_eq_some_iff.mp hfound.symm
    exact ⟨found, inner, hshown, hbranch.symm⟩
  · rintro ⟨relation, inner, hshown, rfl⟩
    obtain ⟨hcolumn, hrelation⟩ := RelationArgs.of_shown? hshown
    refine Dict.mem_of_lookup ?_
    rw [hlookup relation hcolumn hrelation, hshown]
    rfl

mutual

/-- A record that fits the shape of arguments shows what they choose. -/
theorem shows_of_fits (h : schema.Consistent)
    (hdistinct : ∀ name table, schema.table? name = some table → table.columnNames.Nodup) :
    ∀ (shape : Shape) {name : String} {table : Table} {args : RelationArgs},
      schema.table? name = some table → shape = (args.branch schema name).shape →
      ∀ {record : Record}, shape.Fits schema name record → Shows schema table args record
  | ⟨fields, excluded, relations⟩, name, table, args, htable, hshape, record, hfits => by
      rw [Shape.Fits] at hfits
      obtain ⟨hcarries, hnames, hbranches⟩ := hfits
      have hfields : ∀ column, column ∈ fields ↔ args.ShowsColumn table column := by
        intro column
        rw [show fields = _ from congrArg Shape.fields (hshape.trans (branch_shape htable args))]
        exact mem_fields (hdistinct _ _ htable) args _ column
      have hrelations : ∀ key branch, (key, branch) ∈ relations ↔
          ∃ relation inner, args.shown? table key = some (relation, inner) ∧
            branch = inner.branch schema relation.target := by
        intro key branch
        rw [show relations = _ from congrArg Shape.relations hshape]
        exact mem_relations htable args
      have hentry : ∀ key relation inner, args.shown? table key = some (relation, inner) →
          EntryFits schema name record (key, inner.branch schema relation.target) :=
        fun key relation inner hshown => branchesFit_iff.mp hbranches _
          ((hrelations key _).mpr ⟨relation, inner, hshown, rfl⟩)
      have hknown : ∀ key relation inner, args.shown? table key = some (relation, inner) →
          schema.relation? name key = some relation := by
        intro key relation inner hshown
        rw [Schema.relation?, htable]
        exact (RelationArgs.of_shown? hshown).2
      refine Shows.intro hcarries.sorted ?_ ?_ ?_ ?_
      · intro key
        constructor
        · intro hkey
          rcases hnames key hkey with hfield | hrelation
          · exact Or.inl ((hfields key).mp hfield)
          · obtain ⟨⟨_, branch⟩, hmem, rfl⟩ := List.mem_map.mp hrelation
            obtain ⟨relation, inner, hshown, -⟩ := (hrelations _ branch).mp hmem
            exact Or.inr (by rw [hshown]; rfl)
        · rintro (hcolumn | hshown)
          · obtain ⟨value, hvalue⟩ := hcarries.bound key ((hfields key).mpr hcolumn)
            exact Dict.lookup_isSome_iff.mp (by rw [hvalue]; rfl)
          · obtain ⟨⟨relation, inner⟩, hshown⟩ := Option.isSome_iff_exists.mp hshown
            obtain ⟨-, node, -, hnode, -⟩ := hentry key relation inner hshown
            exact Dict.lookup_isSome_iff.mp (by rw [hnode]; rfl)
      · intro column hcolumn
        exact hcarries.bound column ((hfields column).mpr hcolumn)
      · intro key relation inner hshown
        obtain ⟨known, node, hrelation, hnode, hkind, -⟩ := hentry key relation inner hshown
        rw [hknown key relation inner hshown] at hrelation
        cases hrelation
        obtain ⟨target, htarget, -⟩ := (h.resolves htable (RelationArgs.of_shown? hshown).2).target
        exact ⟨target, node, htarget, hnode, hkind⟩
      · intro key relation inner target node hshown htarget hnode child hchild
        have hmem := (hrelations key _).mpr ⟨relation, inner, hshown, rfl⟩
        refine shows_beneath h hdistinct relations _ hmem htarget rfl ?_
        obtain ⟨known, found, hrelation, hfound, -, hchildren⟩ := hentry key relation inner hshown
        rw [hknown key relation inner hshown] at hrelation
        cases hrelation
        rw [hnode] at hfound
        cases hfound
        exact hchildren child hchild

/-- So it is with the records beneath. -/
theorem shows_beneath (h : schema.Consistent)
    (hdistinct : ∀ name table, schema.table? name = some table → table.columnNames.Nodup) :
    ∀ (relations : List (String × BranchOf Shape)), ∀ entry ∈ relations,
      ∀ {name : String} {table : Table} {args : RelationArgs}, schema.table? name = some table →
      entry.2.shape = (args.branch schema name).shape →
      ∀ {record : Record}, entry.2.shape.Fits schema name record → Shows schema table args record
  | [], entry, hentry, _, _, _, _, _, _, _ => by cases hentry
  | (_, ⟨shape, _, _, _, _, _, _⟩) :: rest, entry, hentry, name, table, args, htable, hshape,
      record, hfits => by
      rcases List.mem_cons.mp hentry with rfl | hmem
      · exact shows_of_fits h hdistinct shape htable hshape hfits
      · exact shows_beneath h hdistinct rest entry hmem htable hshape hfits

end

/-- What a request chooses of its table. -/
def FindArgs.choices (args : FindArgs) : RelationArgs :=
  { selected := args.selected, included := args.included, omitted := args.omitted }

/-- The shape of a request is that of its choices. -/
theorem shape_choices {table : String} {known : Table} (hknown : schema.table? table = some known)
    (args : FindArgs) :
    schema.shape table args.selected args.included args.omitted =
      (args.choices.branch schema table).shape := by
  rw [branch_shape hknown, Schema.shape]
  simp only [hknown]
  rfl

/-- **Records show what was chosen.**  Over a schema that can come about and whose tables name
their columns apart, on every database, with any arguments and under either strategy, finding
records of a known table returns where its rows can be sorted, and each record that it returns shows
just the columns and the relations that were chosen, as do the records under each relation.  No
hidden column is left, and nothing that was asked for is missing. -/
theorem records_show_choices {schema : Schema} (h : schema.Reachable)
    (hdistinct : ∀ name table, schema.table? name = some table → table.columnNames.Nodup)
    (settings : Settings) (db : Database) (table : String) (args : FindArgs) :
    let request := Engine.findMany ⟨schema, settings⟩ table args
    let outcome := request.hold Database.source db
    match schema.table? table with
    | none => outcome.result = .error (.unknownTable table)
    | some known => request.ReturnsOn db ∧
        ∀ records, outcome.result = .ok records →
          ∀ record ∈ records, Shows schema known args.choices record := by
  intro request outcome
  cases hknown : schema.table? table with
  | none =>
      dsimp only [outcome]
      rw [Load.hold_result, show request = Load.fail (.unknownTable table) by
        simp only [request, Engine.findMany, hknown]]
      rfl
  | some known =>
      refine ⟨findMany_returnsOn h.consistent hknown args db, fun records hrecords record hrecord => ?_⟩
      have hgives := (findMany_gives ⟨schema, settings⟩ h.consistent hknown args db).of_result
        hrecords record hrecord
      rw [shape_choices hknown] at hgives
      exact shows_of_fits h.consistent hdistinct _ hknown rfl hgives

/-- The tables of the blog name their columns apart. -/
theorem distinct_blog : ∀ name table, (Schema.ofDecls blogTables).table? name = some table →
    table.columnNames.Nodup := by
  intro name table htable
  have hall : ∀ pair ∈ (Schema.ofDecls blogTables).tables, pair.2.columnNames.Nodup := by
    decide +kernel
  exact hall _ (Dict.mem_of_lookup htable)

/-- Of the blog, posts are found in the order of their titles, with their title alone, each with its
author without the id. -/
theorem records_show_choices_blog :
    let args : FindArgs :=
      { selected := some [("title", .flag true),
          ("author", .relation { omitted := some [("id", true)] })]
        orderBy := some (.by "title" .ascending) }
    ∃ known records, (Schema.ofDecls blogTables).table? "Post" = some known ∧
      ((Engine.findMany ⟨Schema.ofDecls blogTables, {}⟩ "Post" args).hold Database.source
        blogRows).result = .ok records ∧
      ∀ record ∈ records, Shows (Schema.ofDecls blogTables) known args.choices record := by
  intro args
  have hshows := records_show_choices reachable_blog distinct_blog {} blogRows "Post" args
  obtain ⟨known, hknown⟩ := Option.isSome_iff_exists.mp
    (show ((Schema.ofDecls blogTables).table? "Post").isSome by decide +kernel)
  rw [hknown] at hshows
  obtain ⟨hreturns, hall⟩ := hshows
  obtain ⟨records, hrecords⟩ := hreturns (by decide +kernel)
  exact ⟨known, records, hknown, hrecords, hall records hrecords⟩

end NestedQuery
