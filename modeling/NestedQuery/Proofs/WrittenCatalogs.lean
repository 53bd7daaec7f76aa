import NestedQuery.Proofs.Dictionary
import NestedQuery.Proofs.WrittenDocuments
import NestedQuery.Schema.CatalogJson

/-!
# Catalogs read back

A catalog document is read, settled to one value for each key, and then taken
apart record by record.  Settling puts the fields of a record in the order of
their names, and a reader finds them there by name; so each kind of record is
read back from its own document, lists of them item by item, and a catalog from
its text, be it the document of the catalog or the bare list of its tables.
-/

namespace NestedQuery

open Json

/-! ### Settled documents -/

/-- Distinct items are left as they are when repeated ones are taken out. -/
theorem eraseDups_of_nodup {items : List String} (h : items.Nodup) : items.eraseDups = items := by
  induction items with
  | nil => rfl
  | cons item rest ih =>
      obtain ⟨hnew, hrest⟩ := List.nodup_cons.mp h
      have hkept : rest.filter (fun other => !other == item) = rest := by
        refine List.filter_eq_self.mpr fun other hother => ?_
        have hne : other ≠ item := fun heq => hnew (heq ▸ hother)
        simpa using hne
      rw [List.eraseDups_cons, hkept, ih hrest]

namespace Catalog

/-- The items of an array are settled one by one. -/
theorem settleItems_eq (items : List Json) : settleItems items = items.map settle := by
  induction items with
  | nil => rfl
  | cons item rest ih => rw [settleItems, ih, List.map_cons]

/-- So are the fields of an object, and their names stay. -/
theorem settleFields_eq (fields : List (String × Json)) :
    settleFields fields = fields.map fun field => (field.1, settle field.2) := by
  induction fields with
  | nil => rfl
  | cons field rest ih => rw [settleFields, ih, List.map_cons]

/-- Under each name stands what the fields have there, settled. -/
def Settled (found : Fields) (fields : List (String × Json)) : Prop :=
  ∀ name, found.lookup name = (fields.lookup name).map settle

/-- A record that is written with all of its fields is read by their names, and they are found as
they were written, settled.  All names are known and none repeats, so that the whole settled record
is taken. -/
theorem exists_settled (json : Json) (names : List String) (least : Nat)
    {fields : List (String × Json)} (hjson : json = .object fields)
    (hnames : Dict.names fields = names) (hnodup : names.Nodup) : ∃ found : Fields,
      (settle json).fields? names least false = some found ∧ Settled found fields := by
  have hsettled : Dict.names (settleFields fields) = names := by
    rw [← hnames, settleFields_eq, Dict.names, List.map_map]
    rfl
  have hdistinct : (Dict.names (settleFields fields)).Nodup := hsettled ▸ hnodup
  have hknown : (Dict.ofPairs (settleFields fields)).filter
      (fun field => names.contains field.1) = Dict.ofPairs (settleFields fields) := by
    refine List.filter_eq_self.mpr fun field hfield => List.contains_iff_mem.mpr ?_
    rw [← hsettled]
    exact List.mem_map_of_mem ((Dict.ofPairs_perm hdistinct).subset hfield)
  have hdups : ((Dict.ofPairs (settleFields fields)).map (·.1)).eraseDups.length =
      (Dict.ofPairs (settleFields fields)).length := by
    have hkept := eraseDups_of_nodup (Dict.sorted_ofPairs (settleFields fields)).names_nodup
    exact (congrArg List.length hkept).trans (List.length_map _)
  refine ⟨Dict.ofPairs (settleFields fields), ?_, fun name => ?_⟩
  · rw [hjson, settle, fields?, objectFields?, hknown]
    exact if_pos hdups
  · rw [Dict.lookup_ofPairs, Dict.lookup_reverse hdistinct, settleFields_eq,
      Dict.lookup_mapValues]

section Fields

variable {found : Fields} {fields : List (String × Json)} {name : String} {value : Json}
  {α : Type} {read : Json → Option α} {a missing : α}

/-- A field that has to be there is read as it was written. -/
theorem Settled.required? (h : Settled found fields) (hvalue : fields.lookup name = some value)
    (hread : read (settle value) = some a) : found.required? name read = some a := by
  rw [Fields.required?, h, hvalue]
  exact hread

/-- So is a field that has a default. -/
theorem Settled.orElse? (h : Settled found fields) (hvalue : fields.lookup name = some value)
    (hread : read (settle value) = some a) :
    found.orElse? name missing read = some a := by
  rw [Fields.orElse?, h, hvalue]
  exact hread

/-- A field that may be null is read as it was written, if nothing else is written as null. -/
theorem Settled.optional? (h : Settled found fields) {write : α → Json} {kept : Option α}
    (hvalue : fields.lookup name = some ((kept.map write).getD .null))
    (hread : ∀ a, read (settle (write a)) = some a) (hnull : read .null = none) :
    found.optional? name read = some kept := by
  rw [Fields.optional?, h, hvalue]
  cases kept with
  | none => rfl
  | some a =>
      have hsome := hread a
      simp only [Option.map_some, Option.getD_some]
      split
      · next heq => cases heq
      · next heq =>
          rw [Option.some.inj heq, hnull] at hsome
          cases hsome
      · next heq =>
          rw [← Option.some.inj heq, hsome]
          rfl

end Fields

/-- A list is read item by item. -/
theorem list?_settle {α : Type} {read : Json → Option α} {write : α → Json}
    (h : ∀ a, read (settle (write a)) = some a) (items : List α) :
    list? read (settle (.array (items.map write))) = some items := by
  rw [settle, settleItems_eq, list?, List.map_map, List.mapM_map]
  have hread : read ∘ settle ∘ write = fun a => pure a := funext h
  rw [hread, List.mapM_pure, List.map_id']
  rfl

end Catalog

/-! ### Records -/

open Catalog

/-- A reference is read back. -/
theorem ColumnReference.ofJson?_settle (reference : ColumnReference) :
    ofJson? (settle reference.toJson) = some reference := by
  obtain ⟨found, hfields, hfound⟩ := exists_settled reference.toJson ["table", "column"] 2
    rfl rfl (by decide)
  have htable : found.required? "table" string? = some reference.table := hfound.required? rfl rfl
  have hcolumn : found.required? "column" string? = some reference.column :=
    hfound.required? rfl rfl
  rw [ofJson?, hfields, Option.bind_eq_bind, Option.bind_some, htable, hcolumn]
  rfl

/-- A type is read back by its name. -/
theorem ColumnType.oneOf?_name (type : ColumnType) :
    oneOf? ColumnType.names (settle (.string type.name)) = some type := by
  cases type <;> rfl

/-- A column is read back. -/
theorem Column.ofJson?_settle (column : Column) :
    ofJson? (settle column.toJson) = some column := by
  obtain ⟨found, hfields, hfound⟩ := exists_settled column.toJson
    ["name", "type", "primary", "unique", "nullable", "references"] 1 rfl rfl (by decide)
  have hname : found.required? "name" string? = some column.name := hfound.required? rfl rfl
  have htype : found.orElse? "type" .text (oneOf? ColumnType.names) = some column.type :=
    hfound.orElse? rfl column.type.oneOf?_name
  have hprimary : found.orElse? "primary" false bool? = some column.primary :=
    hfound.orElse? rfl rfl
  have hunique : found.orElse? "unique" false bool? = some column.unique :=
    hfound.orElse? rfl rfl
  have hnullable : found.orElse? "nullable" false bool? = some column.nullable :=
    hfound.orElse? rfl rfl
  have hreferences : found.optional? "references" ColumnReference.ofJson? =
      some column.references :=
    hfound.optional? rfl ColumnReference.ofJson?_settle rfl
  rw [ofJson?, hfields, Option.bind_eq_bind, Option.bind_some, hname, htype, hprimary, hunique,
    hnullable, hreferences]
  rfl

/-- A foreign key is read back. -/
theorem ForeignKey.ofJson?_settle (key : ForeignKey) :
    ofJson? (settle key.toJson) = some key := by
  obtain ⟨found, hfields, hfound⟩ := exists_settled key.toJson
    ["columns", "foreignTable", "foreignColumns"] 3 rfl rfl (by decide)
  have hcolumns : found.required? "columns" (list? string?) = some key.columns :=
    hfound.required? rfl (list?_settle (fun _ => rfl) key.columns)
  have htable : found.required? "foreignTable" string? = some key.table :=
    hfound.required? rfl rfl
  have hforeign : found.required? "foreignColumns" (list? string?) = some key.foreignColumns :=
    hfound.required? rfl (list?_settle (fun _ => rfl) key.foreignColumns)
  rw [ofJson?, hfields, Option.bind_eq_bind, Option.bind_some, hcolumns, htable, hforeign]
  rfl

/-- A table declaration is read back. -/
theorem TableDecl.ofJson?_settle (decl : TableDecl) :
    ofJson? (settle decl.toJson) = some decl := by
  obtain ⟨found, hfields, hfound⟩ := exists_settled decl.toJson
    ["name", "columns", "primaryKey", "foreignKeys"] 1 rfl rfl (by decide)
  have hname : found.required? "name" string? = some decl.name := hfound.required? rfl rfl
  have hcolumns : found.orElse? "columns" [] (list? Column.ofJson?) = some decl.columns :=
    hfound.orElse? rfl (list?_settle Column.ofJson?_settle decl.columns)
  have hkey : found.orElse? "primaryKey" [] (list? string?) = some decl.primaryKey :=
    hfound.orElse? rfl (list?_settle (fun _ => rfl) decl.primaryKey)
  have hforeign : found.orElse? "foreignKeys" [] (list? ForeignKey.ofJson?) =
      some decl.foreignKeys :=
    hfound.orElse? rfl (list?_settle ForeignKey.ofJson?_settle decl.foreignKeys)
  rw [ofJson?, hfields, Option.bind_eq_bind, Option.bind_some, hname, hcolumns, hkey, hforeign]
  rfl

/-! ### Texts -/

/-- A list of documents holds no number if none of them does. -/
theorem areNumberless_map {α : Type} {write : α → Json} (h : ∀ a, (write a).isNumberless = true)
    (items : List α) : areNumberless (items.map write) = true := by
  induction items with
  | nil => rfl
  | cons item rest ih => rw [List.map_cons, areNumberless, h, ih]; rfl

/-- A list of documents stays as it is under a depth limit if each of them does. -/
theorem limitItems_map {α : Type} {write : α → Json} {limit : Nat}
    (h : ∀ a, (write a).limitDepth limit = write a) (items : List α) :
    limitItems limit (items.map write) = items.map write := by
  induction items with
  | nil => rfl
  | cons item rest ih => rw [List.map_cons, limitItems, h, ih]

/-- Texts hold no numbers. -/
theorem areNumberless_strings (texts : List String) : areNumberless (texts.map .string) = true :=
  areNumberless_map (fun _ => rfl) texts

/-- No limit of depth cuts texts. -/
theorem limitItems_strings (limit : Nat) (texts : List String) :
    limitItems limit (texts.map .string) = texts.map .string :=
  limitItems_map (fun _ => rfl) texts

/-- A column is written without numbers. -/
theorem Column.isNumberless_toJson (column : Column) : column.toJson.isNumberless = true := by
  obtain ⟨name, type, primary, unique, nullable, references⟩ := column
  cases references <;> rfl

/-- So is a foreign key. -/
theorem ForeignKey.isNumberless_toJson (key : ForeignKey) : key.toJson.isNumberless = true := by
  simp [toJson, isNumberless, fieldsNumberless, areNumberless_strings]

/-- So is the declaration of a table. -/
theorem TableDecl.isNumberless_toJson (decl : TableDecl) : decl.toJson.isNumberless = true := by
  simp [toJson, isNumberless, fieldsNumberless, areNumberless_map, areNumberless_strings,
    Column.isNumberless_toJson, ForeignKey.isNumberless_toJson]

/-- A column is written two containers deep at most. -/
theorem Column.limitDepth_toJson (column : Column) (below : Nat) :
    column.toJson.limitDepth (below + 2) = column.toJson := by
  obtain ⟨name, type, primary, unique, nullable, references⟩ := column
  cases references <;> rfl

/-- So is a foreign key. -/
theorem ForeignKey.limitDepth_toJson (key : ForeignKey) (below : Nat) :
    key.toJson.limitDepth (below + 2) = key.toJson := by
  simp [toJson, limitDepth, limitFields, limitItems_strings]

/-- The declaration of a table is written four containers deep at most. -/
theorem TableDecl.limitDepth_toJson (decl : TableDecl) (below : Nat) :
    decl.toJson.limitDepth (below + 4) = decl.toJson := by
  simp [toJson, limitDepth, limitFields, limitItems_map, limitItems_strings,
    Column.limitDepth_toJson, ForeignKey.limitDepth_toJson]

namespace Catalog

section Tables

variable (tables : List TableDecl)

theorem isNumberless_tables : (Json.array (tables.map TableDecl.toJson)).isNumberless = true :=
  areNumberless_map TableDecl.isNumberless_toJson tables

theorem limitDepth_tables (below : Nat) :
    (Json.array (tables.map TableDecl.toJson)).limitDepth (below + 5) =
      .array (tables.map TableDecl.toJson) :=
  congrArg Json.array (limitItems_map (TableDecl.limitDepth_toJson · below) tables)

theorem settle_tables : settle (.array (tables.map TableDecl.toJson)) =
    .array ((tables.map TableDecl.toJson).map settle) := by
  rw [settle, settleItems_eq]

/-- The documents of tables are read back. -/
theorem mapM_tables : ((tables.map TableDecl.toJson).map settle).mapM TableDecl.ofJson? =
    some tables := by
  have hlist := list?_settle TableDecl.ofJson?_settle tables
  rwa [settle_tables] at hlist

/-- A bare list of tables is a catalog. -/
theorem ofJson_tables : ofJson (.array (tables.map TableDecl.toJson)) = .ok ⟨tables⟩ := by
  rw [ofJson, isSound_of_isNumberless _ (isNumberless_tables tables), settle_tables]
  dsimp only
  rw [mapM_tables]
  rfl

end Tables

variable (catalog : Catalog)

/-- A catalog is written without numbers. -/
theorem isNumberless_toJson : catalog.toJson.isNumberless = true := by
  rw [toJson, isNumberless, fieldsNumberless, isNumberless_tables]
  rfl

/-- A catalog is written six containers deep at most. -/
theorem limitDepth_toJson (below : Nat) :
    catalog.toJson.limitDepth (below + 6) = catalog.toJson := by
  rw [toJson, limitDepth, limitFields, limitDepth_tables]
  rfl

/-- The document of a catalog is read back. -/
theorem ofJson_toJson : ofJson catalog.toJson = .ok catalog := by
  have hsettle : settle catalog.toJson =
      .object [("tables", .array ((catalog.tables.map TableDecl.toJson).map settle))] := by
    rw [← settle_tables]
    rfl
  rw [ofJson, isSound_of_isNumberless _ catalog.isNumberless_toJson, hsettle]
  dsimp only
  rw [List.lookup_cons_self, Option.bind_eq_bind, Option.bind_some, list?, mapM_tables]
  rfl

/-- The text of a document without numbers, within the depth limit, is read as the document. -/
theorem parse_render {json : Json} (hnumberless : json.isNumberless = true)
    (hdepth : json.limitDepth depthLimit = json) : parse json.render = ofJson json := by
  rw [parse, read?_render depthLimit hnumberless, hdepth]

/-- **Catalogs read back.**  A catalog is read from the text of its document, and from the text of
the bare list of its tables. -/
theorem parse_written (catalog : Catalog) : parse catalog.toJson.render = .ok catalog ∧
    parse (Json.array (catalog.tables.map TableDecl.toJson)).render = .ok catalog := by
  constructor
  · rw [parse_render catalog.isNumberless_toJson (catalog.limitDepth_toJson 121), ofJson_toJson]
  · rw [parse_render (isNumberless_tables _) (limitDepth_tables _ 122), ofJson_tables]

end Catalog

end NestedQuery
