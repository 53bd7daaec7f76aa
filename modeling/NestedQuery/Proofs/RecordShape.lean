import NestedQuery.Engine.Find
import NestedQuery.Proofs.Planning
import NestedQuery.Proofs.Safety

/-!
# Records have the shape that was asked for

Hidden columns enter records on every level and in both strategies: keys that
tell records apart, links to what is loaded later, columns to be distinct by.
They leave again level by level.  A record is followed through this: assembled
from joined rows it carries its fields and its joined relations, with the
deferred relations loaded it carries those too, and stripped it has just the
fields and the relations of its shape.  The records of follow-up statements take
the shorter way of carrying their fields, having relations attached, and being
stripped at once.
-/

namespace NestedQuery

variable {schema : Schema}

/-! ### Results of dialogues -/

namespace Load

variable {α β : Type} {answer : Select → Except QueryError (List Row)}

/-- A result of the dialogue, if there is one, is as described. -/
def Gives (answer : Select → Except QueryError (List Row)) (load : Load α) (post : α → Prop) :
    Prop :=
  ∀ result, load.resultFrom answer = .ok result → post result

/-- The result of going on is the result of what comes after. -/
theorem resultFrom_bind (load : Load α) (next : α → Load β) :
    (load >>= next).resultFrom answer =
      (load.resultFrom answer >>= fun result => (next result).resultFrom answer) := by
  induction load with
  | done result => rfl
  | fail error => rfl
  | ask statement rest ih =>
      change (Load.ask statement fun rows => rest rows >>= next).resultFrom answer = _
      rw [resultFrom, resultFrom]
      cases answer statement with
      | error error => rfl
      | ok rows => exact ih rows

/-- A dialogue that is done gives what its result is. -/
theorem gives_pure {result : α} {post : α → Prop} (h : post result) :
    (pure result : Load α).Gives answer post := by
  intro other hother
  cases hother
  exact h

/-- What a dialogue gives is handed on to the next. -/
theorem Gives.bind {load : Load α} {next : α → Load β} {middle : α → Prop} {post : β → Prop}
    (h : load.Gives answer middle) (hnext : ∀ result, middle result → (next result).Gives answer post) :
    (load >>= next).Gives answer post := by
  intro final hfinal
  rw [resultFrom_bind] at hfinal
  cases hresult : load.resultFrom answer with
  | error error =>
      rw [hresult] at hfinal
      cases hfinal
  | ok result =>
      rw [hresult] at hfinal
      exact hnext result (h result hresult) final hfinal

/-- A statement gives what is true of every answer. -/
theorem gives_query {statement : Select} {post : List Row → Prop}
    (h : ∀ rows, answer statement = .ok rows → post rows) :
    (query statement).Gives answer post := by
  intro rows hrows
  simp only [query, resultFrom] at hrows
  cases hanswer : answer statement with
  | error error =>
      rw [hanswer] at hrows
      cases hrows
  | ok known =>
      rw [hanswer] at hrows
      cases hrows
      exact h _ hanswer

/-- A dialogue that asks a statement goes on with the rows of the answer. -/
theorem resultFrom_ask {statement : Select} {rows : List Row} {next : List Row → Load α}
    (hrows : answer statement = .ok rows) :
    (query statement >>= next).resultFrom answer = (next rows).resultFrom answer := by
  rw [resultFrom_bind, query, resultFrom, hrows]
  rfl

/-- With the answer of a statement the dialogue goes on as with its rows. -/
theorem gives_ask {statement : Select} {rows : List Row} {next : List Row → Load α}
    {post : α → Prop} (hrows : answer statement = .ok rows) (h : (next rows).Gives answer post) :
    (query statement >>= next).Gives answer post :=
  fun result hresult => h result ((resultFrom_ask hrows).symm.trans hresult)

/-- Held with tables, a dialogue has the result that it has when they answer. -/
theorem hold_result (load : Load α) (db : Database) :
    (load.hold Database.source db).result = load.resultFrom db.run := by
  induction load with
  | done result => rfl
  | fail error => rfl
  | ask statement next ih =>
      rw [hold, resultFrom, Database.source]
      cases db.run statement with
      | error error => rfl
      | ok rows => exact ih rows

end Load

/-! ### What rows bind -/

/-- Adding all columns of all tables keeps a row sorted. -/
theorem sorted_of_sources (row : Bindings) {before : Row} (h : Dict.Sorted before) :
    Dict.Sorted (row.foldl (fun result source => Dict.putAll result (source.2.getD [])) before) := by
  induction row generalizing before with
  | nil => exact h
  | cons source rest ih => exact ih (h.putAll _)

/-- A result row is sorted and binds every output. -/
theorem project_binds {outputs : List Output} {row : Bindings} {result : Row}
    (hcolumns : ∀ output ∈ outputs, ∃ ref label, output = .column ref label)
    (h : project outputs row = .ok result) :
    Dict.Sorted result ∧ ∀ output ∈ outputs, ∃ value, result.lookup output.name = some value := by
  by_cases hsome : outputs = []
  · subst hsome
    cases h
    exact ⟨sorted_of_sources row List.Pairwise.nil, fun output houtput => nomatch houtput⟩
  · rw [project_cells hsome hcolumns h]
    refine ⟨Dict.sorted_ofPairs _, fun output houtput => ?_⟩
    have hname : output.name ∈ Dict.names (cells outputs row) := by
      rw [Dict.names, cells, List.map_map]
      exact List.mem_map_of_mem houtput
    obtain ⟨value, hvalue, -⟩ := Dict.exists_lookup_ofPairs hname
    exact ⟨value, hvalue⟩

/-- The rows of a statement without counts are sorted and bind every output. -/
theorem run_binds {db : Database} {statement : Select} {rows : List Row}
    (hcolumns : ∀ output ∈ statement.outputs, ∃ ref label, output = .column ref label)
    (h : db.run statement = .ok rows) :
    ∀ row ∈ rows, Dict.Sorted row ∧
      ∀ output ∈ statement.outputs, ∃ value, row.lookup output.name = some value := by
  unfold Database.run at h
  rw [counter?_eq_none hcolumns] at h
  cases hselect : selectRows db statement [] with
  | error error =>
      rw [hselect] at h
      cases h
  | ok selected =>
      rw [hselect] at h
      intro row hrow
      obtain ⟨bindings, -, hrow⟩ := exists_of_mapM_ok h hrow
      exact project_binds hcolumns hrow

/-- The record binds the fields to scalars, in a sorted way. -/
structure Record.Carries (record : Record) (fields : List String) : Prop where
  sorted : Dict.Sorted record
  bound : ∀ field ∈ fields, ∃ value, record.lookup field = some (.scalar value)

instance (record : Record) (fields : List String) : Decidable (record.Carries fields) :=
  decidable_of_iff (record.Pairwise (fun a b => a.1 < b.1) ∧
      ∀ field ∈ fields, ((record.lookup field).bind Node.scalar?).isSome) <| by
    have hscalar : ∀ field, ((record.lookup field).bind Node.scalar?).isSome ↔
        ∃ value, record.lookup field = some (.scalar value) := by
      intro field
      cases record.lookup field with
      | none => simp
      | some node => cases node <;> simp [Node.scalar?]
    simp only [hscalar]
    exact ⟨fun h => ⟨h.1, h.2⟩, fun h => ⟨h.sorted, h.bound⟩⟩

/-- The record of a row carries what the row binds. -/
theorem Row.toRecord_carries {row : Row} {fields : List String} (hsorted : Dict.Sorted row)
    (hbound : ∀ field ∈ fields, ∃ value, row.lookup field = some value) :
    row.toRecord.Carries fields := by
  constructor
  · exact List.pairwise_map.mpr hsorted
  · intro field hfield
    obtain ⟨value, hvalue⟩ := hbound field hfield
    refine ⟨value, ?_⟩
    rw [Row.toRecord, Dict.lookup_mapValues, hvalue]
    rfl

/-- Records of plain outputs carry these columns. -/
theorem run_plain_carries {db : Database} {statement : Select} {table : String}
    {columns : List String} (houtputs : statement.outputs = plainOutputs table columns)
    {rows : List Row} (h : db.run statement = .ok rows) :
    ∀ row ∈ rows, row.toRecord.Carries columns := by
  have hcolumns : ∀ output ∈ statement.outputs, ∃ ref label, output = .column ref label := by
    rw [houtputs]
    intro output houtput
    obtain ⟨column, -, rfl⟩ := List.mem_map.mp houtput
    exact ⟨_, _, rfl⟩
  intro row hrow
  obtain ⟨hsorted, hbound⟩ := run_binds hcolumns h row hrow
  refine Row.toRecord_carries hsorted ?_
  intro column hcolumn
  have hmem : Output.column ⟨table, column⟩ none ∈ statement.outputs := by
    rw [houtputs]
    exact List.mem_map_of_mem hcolumn
  exact hbound _ hmem

/-! ### Entries of relations -/

/-- The entry is a list for a relation to many, else a record or null. -/
def Node.OfKind (isToMany : Bool) : Node → Prop
  | .list _ => isToMany = true
  | .object _ => isToMany = false
  | .scalar value => isToMany = false ∧ value = .null

instance (isToMany : Bool) (node : Node) : Decidable (node.OfKind isToMany) :=
  match node with
  | .list _ => inferInstanceAs (Decidable (isToMany = true))
  | .object _ => inferInstanceAs (Decidable (isToMany = false))
  | .scalar value => inferInstanceAs (Decidable (isToMany = false ∧ value = .null))

/-- A node of related records is of the kind that it was made of. -/
theorem Node.ofRelated_ofKind (isToMany : Bool) (records : List Record) :
    (Node.ofRelated isToMany records).OfKind isToMany := by
  unfold Node.ofRelated
  cases isToMany with
  | true => rfl
  | false =>
      cases records with
      | nil => exact ⟨rfl, rfl⟩
      | cons first rest => rfl

/-- The records of an entry for related records are among these. -/
theorem Node.records_ofRelated_subset (isToMany : Bool) (records : List Record) :
    (Node.ofRelated isToMany records).records ⊆ records := by
  unfold Node.ofRelated
  cases isToMany with
  | true => exact List.Subset.refl records
  | false =>
      cases records with
      | nil => exact List.nil_subset []
      | cons first rest =>
          intro record hrecord
          rw [List.mem_singleton.mp hrecord]
          exact List.mem_cons_self

/-- Changing the records of a node keeps its kind. -/
theorem Node.ofKind_mapRecords {isToMany : Bool} {node : Node} (h : node.OfKind isToMany)
    (change : Record → Record) : (node.mapRecords change).OfKind isToMany := by
  cases node <;> exact h

/-- The records of a changed node are those of the node, changed. -/
theorem Node.records_mapRecords (node : Node) (change : Record → Record) :
    (node.mapRecords change).records = node.records.map change := by
  cases node <;> rfl

/-- Distinct records are some of the records. -/
theorem distinctBy_subset (columns : List String) (records : List Record) :
    distinctBy columns records ⊆ records := by
  unfold distinctBy
  split
  · exact List.Subset.refl records
  · exact (firstOfEach_sublist _ _ _).subset

/-- Records that keep the distinct columns are made distinct as they were. -/
theorem distinctBy_map {columns : List String} {change : Record → Record}
    (hkeeps : ∀ column ∈ columns, ∀ record, (change record).scalar column = record.scalar column)
    (records : List Record) :
    distinctBy columns (records.map change) = (distinctBy columns records).map change := by
  unfold distinctBy
  split
  · rfl
  · rw [firstOfEach_map]
    have hkey : ∀ record, Value.jointKey (columns.map (change record).scalar) =
        Value.jointKey (columns.map record.scalar) :=
      fun record => congrArg _ (List.map_congr_left fun column hcolumn => hkeeps column hcolumn record)
    simp only [hkey]

/-- A page consists of some of the items. -/
theorem pageOf_subset {α : Type} (skip take : Option Nat) (items : List α) :
    pageOf skip take items ⊆ items := by
  unfold pageOf
  dsimp only
  split
  · exact List.Subset.trans (List.take_subset _ _) (List.drop_subset _ _)
  · exact List.drop_subset _ _

/-- A page of changed items is the page of the items, changed. -/
theorem pageOf_map {α β : Type} (skip take : Option Nat) (f : α → β) (items : List α) :
    (pageOf skip take items).map f = pageOf skip take (items.map f) := by
  unfold pageOf
  cases take <;> simp [List.map_drop, List.map_take]

/-- A page has some of the records. -/
theorem page_subset (branch : Branch) (records : List Record) : branch.page records ⊆ records := by
  have hpage : ∀ take, pageOf branch.skip take (distinctBy (branch.distinct.getD []) records) ⊆
      records :=
    fun take => List.Subset.trans (pageOf_subset _ _ _) (distinctBy_subset _ _)
  unfold BranchOf.page
  dsimp only
  split
  · exact hpage none
  · split
    · exact List.Subset.trans (List.drop_subset _ _) (hpage none)
    · exact hpage _

/-! ### Records that fit a shape -/

mutual

/-- The record has just the fields and the relations of the shape, the fields as scalars and under
each relation records that fit in turn. -/
def Shape.Fits (schema : Schema) : Shape → String → Record → Prop
  | ⟨fields, _, relations⟩, table, record =>
    record.Carries fields ∧
      (∀ name ∈ Dict.names record, name ∈ fields ∨ name ∈ relations.map (·.1)) ∧
      branchesFit schema relations table record

/-- Under each relation the record has an entry of the kind of the relation, and the records in it
fit. -/
def branchesFit (schema : Schema) : List (String × BranchOf Shape) → String → Record → Prop
  | [], _, _ => True
  | (name, ⟨shape, _, _, _, _, _, _⟩) :: rest, table, record =>
    (∃ relation node, schema.relation? table name = some relation ∧
      record.lookup name = some node ∧ node.OfKind relation.kind.isToMany ∧
      ∀ child ∈ node.records, shape.Fits schema relation.target child) ∧
    branchesFit schema rest table record

end

/-- How the entry of one relation fits a branch. -/
def EntryFits (schema : Schema) (table : String) (record : Record)
    (entry : String × Branch) : Prop :=
  ∃ relation node, schema.relation? table entry.1 = some relation ∧
    record.lookup entry.1 = some node ∧ node.OfKind relation.kind.isToMany ∧
    ∀ child ∈ node.records, entry.2.shape.Fits schema relation.target child

/-- Relations fit a record if each of them does. -/
theorem branchesFit_iff {branches : List (String × Branch)} {table : String} {record : Record} :
    branchesFit schema branches table record ↔
      ∀ entry ∈ branches, EntryFits schema table record entry := by
  induction branches with
  | nil => simp [branchesFit]
  | cons entry rest ih =>
      obtain ⟨name, ⟨shape, filter, orderBy, take, skip, distinct, joinKind⟩⟩ := entry
      rw [branchesFit, ih, List.forall_mem_cons]
      rfl

/-- Of what a record binds, only what is shown is left. -/
theorem Record.lookup_shown (record : Record) (fields relations : List String) (name : String) :
    (record.shown fields relations).lookup name =
      if fields.contains name || relations.contains name then record.lookup name else none :=
  Dict.lookup_filter (fun name => fields.contains name || relations.contains name) name record

/-- Dropping columns keeps those that are shown. -/
theorem Record.scalar_shown (record : Record) {fields : List String} (relations : List String)
    {column : String} (hcolumn : column ∈ fields) :
    (record.shown fields relations).scalar column = record.scalar column := by
  rw [Record.scalar, Record.lookup_shown, List.contains_iff_mem.mpr hcolumn, Bool.true_or, if_pos rfl,
    Record.scalar]

/-- Dropping entries twice is dropping them once. -/
theorem Record.shown_shown (record : Record) {fields more relations others : List String}
    (hfields : fields ⊆ more) (hrelations : relations ⊆ others) :
    (record.shown more others).shown fields relations = record.shown fields relations := by
  unfold Record.shown
  rw [List.filter_filter]
  refine List.filter_congr fun pair _ => ?_
  rw [Bool.and_eq_left_iff_imp, Bool.or_eq_true, Bool.or_eq_true, List.contains_iff_mem,
    List.contains_iff_mem, List.contains_iff_mem, List.contains_iff_mem]
  exact Or.imp (@hfields pair.1) (@hrelations pair.1)

/-- The record with only what a shape shows fits the shape, if what it shows is there. -/
theorem shown_fits {shape : Shape} {table : String} {record : Record}
    (hcarries : record.Carries shape.fields)
    (hbranches : branchesFit schema shape.relations table record) :
    shape.Fits schema table (record.shown shape.fields (shape.relations.map (·.1))) := by
  have hlookup : ∀ name, (record.shown shape.fields (shape.relations.map (·.1))).lookup name =
      if shape.fields.contains name || (shape.relations.map (·.1)).contains name then
        record.lookup name else none :=
    Record.lookup_shown record _ _
  have hentry : ∀ entry ∈ shape.relations, (record.shown shape.fields
      (shape.relations.map (·.1))).lookup entry.1 = record.lookup entry.1 := by
    intro entry hentry
    have hmem : (shape.relations.map (·.1)).contains entry.1 = true :=
      List.contains_iff_mem.mpr (List.mem_map_of_mem hentry)
    rw [hlookup, hmem, Bool.or_true, if_pos rfl]
  obtain ⟨fields, excluded, relations⟩ := shape
  rw [Shape.Fits]
  refine ⟨⟨hcarries.sorted.filter _, ?_⟩, ?_, ?_⟩
  · intro field hfield
    obtain ⟨value, hvalue⟩ := hcarries.bound field hfield
    refine ⟨value, ?_⟩
    rw [hlookup, List.contains_iff_mem.mpr hfield, Bool.true_or, if_pos rfl]
    exact hvalue
  · intro name hname
    obtain ⟨pair, hpair, rfl⟩ := List.mem_map.mp hname
    simpa using (List.mem_filter.mp hpair).2
  · refine branchesFit_iff.mpr ?_
    intro entry hmem
    obtain ⟨relation, node, hrelation, hnode, hkind, hchildren⟩ :=
      branchesFit_iff.mp hbranches entry hmem
    exact ⟨relation, node, hrelation, (hentry entry hmem).trans hnode, hkind, hchildren⟩

/-! ### Follow-up loading -/

section FollowUp

variable {db : Database}

/-- What is fetched for a relation are the records of rows that answer statements for related
rows. -/
theorem fetch_rows {answer : Select → Except QueryError (List Row)} (relation : Relation)
    (branch : Branch) (keys : List Value) :
    (fetch schema relation branch keys).Gives answer fun related => ∀ one ∈ related,
      ∃ target keys rows,
        answer (relatedStatement schema target branch relation.toColumn keys) = .ok rows ∧
          ∃ row ∈ rows, one.record = row.toRecord := by
  have hnone : ∀ found : Related → Prop,
      (pure [] : Load (List Related)).Gives answer fun related => ∀ one ∈ related, found one :=
    fun _ => Load.gives_pure fun _ hone => nomatch hone
  unfold fetch
  split
  · exact hnone _
  · split
    · unfold fetchLinked
      refine Load.Gives.bind (Load.gives_query fun rows _ => trivial) ?_
      intro links _
      dsimp only
      split
      · exact hnone _
      · split
        · exact hnone _
        · refine Load.Gives.bind (Load.gives_query fun rows hrows => hrows) fun rows hrows => ?_
          refine Load.gives_pure fun one hone => ?_
          obtain ⟨row, hrow, hmem⟩ := List.mem_flatMap.mp hone
          obtain ⟨pair, -, rfl⟩ := List.mem_map.mp hmem
          exact ⟨_, _, rows, hrows, row, hrow, rfl⟩
    · unfold fetchDirect
      split
      · exact hnone _
      · refine Load.Gives.bind (Load.gives_query fun rows hrows => hrows) fun rows hrows => ?_
        refine Load.gives_pure fun one hone => ?_
        obtain ⟨row, hrow, rfl⟩ := List.mem_map.mp hone
        exact ⟨_, _, rows, hrows, row, hrow, rfl⟩

/-- A statement for related rows has the columns of its target as outputs, the fields of its branch
among them. -/
theorem relatedStatement_outputs (target : Table) (branch : Branch) (link : String)
    (keys : List Value) : ∃ columns, (relatedStatement schema target branch link keys).outputs =
      plainOutputs target.name columns ∧ branch.shape.fields ⊆ columns := by
  refine ⟨withHidden branch.shape.fields (link :: target.linkColumns
    (branch.shape.relations.map (·.1)) ++ (branch.distinct.getD []).filter target.hasColumn),
    ?_, fun field hfield => mem_withHidden.mpr (Or.inl hfield)⟩
  unfold relatedStatement
  extract_lets hidden base filtered
  have hframe : filtered = { base with filter := filtered.filter } := andWhere?_frame base _
  split <;> rw [hframe]

/-- What is fetched for a relation carries the fields of its shape. -/
theorem fetch_gives (relation : Relation) (branch : Branch) (keys : List Value) :
    (fetch schema relation branch keys).Gives db.run fun related =>
      ∀ one ∈ related, one.record.Carries branch.shape.fields := by
  intro related hrelated one hone
  obtain ⟨target, keys, rows, hrun, row, hrow, heq⟩ :=
    fetch_rows relation branch keys related hrelated one hone
  obtain ⟨columns, houtputs, hfields⟩ :=
    @relatedStatement_outputs schema target branch relation.toColumn keys
  obtain ⟨hsorted, hbound⟩ := run_plain_carries houtputs hrun row hrow
  exact heq ▸ ⟨hsorted, fun field hfield => hbound field (hfields hfield)⟩

/-- What was fetched for each relation of a level carries the fields of its shape. -/
def Fetched (branches : List (String × Branch)) (fetched : List (List Related)) : Prop :=
  List.Forall₂ (fun entry related => ∀ one ∈ related,
    one.record.Carries entry.2.shape.fields) branches fetched

/-- A relation that is known is among those that are. -/
theorem knownBranches_cons {table name : String} {branch : Branch} {rest : List (String × Branch)}
    {relation : Relation} (hrelation : schema.relation? table name = some relation) :
    knownBranches schema table ((name, branch) :: rest) =
      (name, branch, relation) :: knownBranches schema table rest := by
  unfold knownBranches
  rw [List.filterMap_cons]
  simp only [hrelation, Option.map_some]

/-- Where all relations of a level are known, what is fetched for each of them fits if it does so
fetched alone. -/
theorem fetchLevel_fits {answer : Select → Except QueryError (List Row)} {table : String}
    {branches : List (String × Branch)} {owners : List Record}
    {fits : String × Branch → List Related → Prop}
    (h : ∀ entry ∈ branches, ∃ relation, schema.relation? table entry.1 = some relation ∧
      (fetch schema relation entry.2 (distinctKeys
        (owners.map (·.scalar relation.fromColumn)))).Gives answer (fits entry)) :
    (fetchLevel schema table branches owners).Gives answer (List.Forall₂ fits branches) := by
  unfold fetchLevel
  induction branches with
  | nil => exact Load.gives_pure List.Forall₂.nil
  | cons entry rest ih =>
      obtain ⟨⟨relation, hrelation, hfetch⟩, hrest⟩ := List.forall_mem_cons.mp h
      rw [knownBranches_cons hrelation]
      refine Load.Gives.bind hfetch fun related hrelated => ?_
      refine Load.Gives.bind (ih hrest) fun others hothers => ?_
      exact Load.gives_pure (List.Forall₂.cons hrelated hothers)

/-- Fetching a level gives records with the fields of each shape. -/
theorem fetchLevel_gives {table : String} {branches : List (String × Branch)}
    (hknown : ∀ entry ∈ branches, ∃ relation, schema.relation? table entry.1 = some relation)
    (owners : List Record) :
    (fetchLevel schema table branches owners).Gives db.run (Fetched branches) := by
  refine fetchLevel_fits fun entry hentry => ?_
  obtain ⟨relation, hrelation⟩ := hknown entry hentry
  exact ⟨relation, hrelation, fetch_gives relation entry.2 _⟩

/-- The function attaches to every sorted record what fits the branches, and changes nothing
else. -/
structure Attaches (schema : Schema) (table : String) (branches : List (String × Branch))
    (load : Record → Record) : Prop where
  sorted : ∀ record, Dict.Sorted record → Dict.Sorted (load record)
  others : ∀ record name, name ∉ branches.map (·.1) → (load record).lookup name = record.lookup name
  fits : ∀ record, branchesFit schema branches table (load record)

/-- Attaching relations keeps the fields that a record carries. -/
theorem Attaches.carries {table : String} {branches : List (String × Branch)}
    {load : Record → Record} (h : Attaches schema table branches load) {record : Record}
    {fields : List String} (hcarries : record.Carries fields)
    (hdisjoint : ∀ field ∈ fields, field ∉ branches.map (·.1)) : (load record).Carries fields := by
  refine ⟨h.sorted record hcarries.sorted, ?_⟩
  intro field hfield
  rw [h.others record field (hdisjoint field hfield)]
  exact hcarries.bound field hfield

/-- What is attached to a record is an entry of related records. -/
theorem attach_eq_put (name : String) (relation : Relation) (branch : Branch)
    (related : List Related) (record : Record) :
    ∃ node, attach name relation branch related record = Dict.put name node record ∧
      node.OfKind relation.kind.isToMany ∧
      ∀ child ∈ node.records, ∃ one ∈ related, one.record = child := by
  refine ⟨_, rfl, Node.ofRelated_ofKind _ _, ?_⟩
  intro child hchild
  have hmem := page_subset _ _ (Node.records_ofRelated_subset _ _ hchild)
  split at hmem
  · cases hmem
  · obtain ⟨one, hone, heq⟩ := List.mem_map.mp hmem
    exact ⟨one, (List.mem_filter.mp hone).1, heq⟩

/-- The fields of a proper shape are none of its relations. -/
theorem fields_disjoint {table : String} {fields : List String}
    {branches : List (String × Branch)} (hfields : ∀ field ∈ fields, schema.hasColumn table field)
    (hbranches : branchesProper schema branches table) :
    ∀ field ∈ fields, field ∉ branches.map (·.1) := by
  intro field hfield hmem
  obtain ⟨entry, hentry, rfl⟩ := List.mem_map.mp hmem
  have hcolumn := (branchesProper_iff.mp hbranches entry hentry).1
  rw [hfields _ hfield] at hcolumn
  cases hcolumn

mutual

/-- Attaching what was fetched attaches entries that fit. -/
theorem attachLevel_gives : ∀ {table : String} {branches : List (String × BranchOf Shape)}
    {fetched : List (List Related)}, branchesProper schema branches table →
      (branches.map (·.1)).Nodup → Fetched branches fetched →
      (attachLevel schema table branches fetched).Gives db.run (Attaches schema table branches)
  | table, [], fetched, hproper, hnodup, hfetched => by
      rw [attachLevel]
      refine Load.gives_pure ⟨fun record h => h, fun record name _ => rfl, fun record => ?_⟩
      rw [branchesFit]
      trivial
  | table, (name, ⟨shape, filter, orderBy, take, skip, distinct, joinKind⟩) :: rest, fetched,
      hproper, hnodup, hfetched => by
      rw [branchesProper] at hproper
      obtain ⟨⟨-, relation, hrelation, hshape⟩, hrest⟩ := hproper
      rw [List.map_cons, List.nodup_cons] at hnodup
      cases hfetched with
      | @cons _ related _ others hrelated hothers =>
          rw [attachLevel.eq_def]
          simp only [hrelation]
          refine Load.Gives.bind (finishRelated_gives hshape hrelated) ?_
          intro finished hfinished
          refine Load.Gives.bind (attachLevel_gives hrest hnodup.2 hothers) ?_
          intro more hmore
          refine Load.gives_pure ⟨?_, ?_, ?_⟩
          · intro record hsorted
            exact hmore.sorted _ (hsorted.put _ _)
          · intro record other hother
            rw [List.map_cons, List.mem_cons, not_or] at hother
            rw [hmore.others _ _ hother.2, attach, Dict.lookup_put_of_ne hother.1]
          · intro record
            obtain ⟨node, hattach, hkind, hchildren⟩ := attach_eq_put name relation
              ⟨shape, filter, orderBy, take, skip, distinct, joinKind⟩ finished record
            rw [branchesFit]
            refine ⟨⟨relation, node, hrelation, ?_, hkind, ?_⟩, hmore.fits _⟩
            · rw [hmore.others _ _ hnodup.1, hattach, Dict.lookup_put_self]
            · intro child hchild
              obtain ⟨one, hone, rfl⟩ := hchildren child hchild
              exact hfinished one hone

/-- Related records are finished to records that fit. -/
theorem finishRelated_gives : ∀ {table : String} {shape : Shape} {related : List Related},
    shape.Proper schema table → (∀ one ∈ related, one.record.Carries shape.fields) →
      (finishRelated schema table shape related).Gives db.run fun finished =>
        ∀ one ∈ finished, shape.Fits schema table one.record
  | table, ⟨fields, excluded, relations⟩, related, hproper, hrelated => by
      rw [Shape.Proper] at hproper
      obtain ⟨hfields, hnodup, hbranches⟩ := hproper
      rw [finishRelated]
      refine Load.Gives.bind (fetchLevel_gives (fun entry hentry => ?_) _) ?_
      · obtain ⟨-, relation, hrelation, -⟩ := branchesProper_iff.mp hbranches entry hentry
        exact ⟨relation, hrelation⟩
      · intro fetched hfetched
        refine Load.Gives.bind (attachLevel_gives hbranches hnodup hfetched) ?_
        intro load hload
        refine Load.gives_pure ?_
        intro one hone
        obtain ⟨before, hbefore, rfl⟩ := List.mem_map.mp hone
        have hcarries := hload.carries (hrelated before hbefore)
          (fields_disjoint hfields hbranches)
        exact shown_fits hcarries (hload.fits _)

end

/-- Loading proper branches attaches entries that fit. -/
theorem loadBranches_gives {table : String} {branches : List (String × Branch)}
    (hproper : branchesProper schema branches table) (hnodup : (branches.map (·.1)).Nodup)
    (owners : List Record) :
    (loadBranches schema table branches owners).Gives db.run
      (Attaches schema table branches) := by
  refine Load.Gives.bind (fetchLevel_gives (fun entry hentry => ?_) owners) fun fetched hfetched =>
    attachLevel_gives hproper hnodup hfetched
  obtain ⟨-, relation, hrelation, -⟩ := branchesProper_iff.mp hproper entry hentry
  exact ⟨relation, hrelation⟩

end FollowUp

/-! ### Records of joined rows -/

mutual

/-- The record carries the fields of the layout, under each joined relation it has an entry of its
kind whose records do so in turn, and of the relations that were put off it has what `later`
says. -/
def Layout.Holds (later : List (String × Branch) → String → Record → Prop) :
    Layout → Record → Prop
  | ⟨table, _, _, fields, _, _, _, _, relations, deferred⟩, record =>
    record.Carries fields ∧ branchesHold later relations record ∧ later deferred table record

def branchesHold (later : List (String × Branch) → String → Record → Prop) :
    List (JoinedBranchOf Layout) → Record → Prop
  | [], _ => True
  | ⟨name, isToMany, _, layout⟩ :: rest, record =>
    (∃ node, record.lookup name = some node ∧ node.OfKind isToMany ∧
      ∀ child ∈ node.records, layout.Holds later child) ∧
    branchesHold later rest record

end

/-- Nothing is said of relations that were put off. -/
def notYet (_ : List (String × Branch)) (_ : String) (_ : Record) : Prop :=
  True

/-- Joined relations hold a record if each has an entry of its kind with records that its layout
holds. -/
theorem branchesHold_iff {later : List (String × Branch) → String → Record → Prop}
    {branches : List JoinedBranch} {record : Record} :
    branchesHold later branches record ↔ ∀ joined ∈ branches,
      ∃ node, record.lookup joined.name = some node ∧ node.OfKind joined.isToMany ∧
        ∀ child ∈ node.records, joined.layout.Holds later child := by
  induction branches with
  | nil => simp [branchesHold]
  | cons joined rest ih =>
      obtain ⟨name, isToMany, branch, layout⟩ := joined
      rw [branchesHold, ih, List.forall_mem_cons]

/-- The columns that a group of rows gives to a record. -/
theorem columnValues_carries (layout : Layout)
    (hlength : layout.outputs.length = layout.columns.length) (group : List Row) :
    (layout.columnValues group).Carries layout.columns := by
  have hbound : ∀ pairs : List (String × Node), Dict.names pairs = layout.columns →
      (∀ pair ∈ pairs, ∃ value, pair.2 = .scalar value) →
      Record.Carries (Dict.ofPairs pairs) layout.columns := by
    intro pairs hnames hscalars
    refine ⟨Dict.sorted_ofPairs _, ?_⟩
    intro column hcolumn
    rw [← hnames] at hcolumn
    obtain ⟨node, hnode, hmem⟩ := Dict.exists_lookup_ofPairs hcolumn
    obtain ⟨value, rfl⟩ : ∃ value, node = .scalar value := hscalars _ hmem
    exact ⟨value, hnode⟩
  rw [Layout.columnValues]
  refine hbound _ ?_ ?_
  · rw [Dict.names, List.map_map]
    exact List.map_fst_zip (Nat.le_of_eq hlength.symm)
  · intro pair hpair
    obtain ⟨named, -, rfl⟩ := List.mem_map.mp hpair
    exact ⟨_, rfl⟩

/-- Of two lists that are related item by item every item has a partner. -/
theorem exists_partner {α β : Type} {related : α → β → Prop} {items : List α} {others : List β}
    (h : List.Forall₂ related items others) {item : α} (hitem : item ∈ items) :
    ∃ other ∈ others, related item other := by
  induction h with
  | nil => cases hitem
  | cons hfirst _ ih =>
      rcases List.mem_cons.mp hitem with rfl | hmem
      · exact ⟨_, List.mem_cons_self, hfirst⟩
      · obtain ⟨other, hother, hrelated⟩ := ih hmem
        exact ⟨other, List.mem_cons_of_mem _ hother, hrelated⟩

/-- A record of column values and of entries that belong to the joined relations holds the
layout. -/
theorem Layout.holds_of_entries {later : List (String × Branch) → String → Record → Prop}
    {layout : Layout} {values : Record}
    {entries : List (String × Node)} (hvalues : values.Carries layout.columns)
    (hfields : layout.fields ⊆ layout.columns) (hnodup : (entries.map (·.1)).Nodup)
    (hentries : List.Forall₂ (fun (joined : JoinedBranch) (entry : String × Node) =>
      entry.1 = joined.name ∧ entry.2.OfKind joined.isToMany ∧
        ∀ child ∈ entry.2.records, joined.layout.Holds later child) layout.relations entries)
    (hdisjoint : ∀ field ∈ layout.fields, field ∉ entries.map (·.1))
    (hlater : later layout.deferred layout.table (Dict.putAll values entries)) :
    layout.Holds later (Dict.putAll values entries) := by
  obtain ⟨table, qualifier, lead, fields, columns, outputs, key, identity, relations, deferred⟩ :=
    layout
  have hlookup : ∀ name, (Dict.putAll values entries).lookup name =
      (entries.lookup name).or (values.lookup name) := by
    intro name
    rw [Dict.lookup_putAll, Dict.lookup_reverse hnodup]
  rw [Layout.Holds]
  refine ⟨⟨hvalues.sorted.putAll _, ?_⟩, branchesHold_iff.mpr ?_, hlater⟩
  · intro field hfield
    rw [hlookup, Dict.lookup_eq_none_iff.mpr (hdisjoint field hfield)]
    exact hvalues.bound field (hfields hfield)
  · intro joined hjoined
    obtain ⟨entry, hentry, hname, hkind, hchildren⟩ := exists_partner hentries hjoined
    refine ⟨entry.2, ?_, hkind, hchildren⟩
    rw [hlookup, ← hname, Dict.lookup_of_mem hnodup hentry]
    rfl

/-- Entries that belong to joined relations one by one have their names. -/
theorem names_of_entries {branches : List JoinedBranch} {entries : List (String × Node)}
    (h : List.Forall₂ (fun (joined : JoinedBranch) (entry : String × Node) =>
      entry.1 = joined.name) branches entries) : entries.map (·.1) = branches.map (·.name) := by
  induction h with
  | nil => rfl
  | cons hfirst _ ih => rw [List.map_cons, List.map_cons, hfirst, ih]

/-- A group of rows is made of them. -/
theorem Layout.groups_subset (layout : Layout) {rows group : List Row}
    (h : group ∈ layout.groups rows) : group ⊆ rows := by
  unfold Layout.groups groupsOf at h
  obtain ⟨first, -, rfl⟩ := List.mem_map.mp h
  exact fun row hrow => (List.mem_filter.mp (List.mem_filter.mp hrow).1).1

/-- Every record assembled from rows that fit has what `later` says. -/
def AssembledHave (fits : Row → Prop)
    (later : List (String × Branch) → String → Record → Prop) : Prop :=
  ∀ (layout : Layout) (rows : List Row), (∀ row ∈ rows, fits row) →
    ∀ record ∈ layout.assemble rows, later layout.deferred layout.table record

section Assembling

variable {later : List (String × Branch) → String → Record → Prop} {fits : Row → Prop}

mutual

/-- Records assembled from rows hold the fields and the joined relations of the layout, and
whatever all assembled records have. -/
theorem assemble_holds (hlater : AssembledHave fits later) : ∀ {shape : Shape} {table : String}
    {layout : Layout}, shape.Planned schema table layout → shape.Proper schema table → layout.Named →
      ∀ {rows : List Row}, (∀ row ∈ rows, fits row) →
      ∀ record ∈ layout.assemble rows, layout.Holds later record
  | ⟨fields, excluded, relations⟩, table,
      ⟨layoutTable, qualifier, lead, layoutFields, columns, outputs, key, identity, joined, deferred⟩,
      .intro htable hfields hkey hcarried hlinked hknown hrelations, hproper, hnamed, rows, hrows,
      record, hrecord => by
      have hdeferred := hlater _ rows hrows record hrecord
      rw [Shape.Proper] at hproper
      rw [Layout.Named] at hnamed
      obtain ⟨hcolumns, hnodup, hbranches⟩ := hproper
      obtain ⟨hlength, -, hnamedBranches⟩ := hnamed
      rw [Layout.assemble] at hrecord
      obtain ⟨group, hgroup, rfl⟩ := List.mem_map.mp hrecord
      have hbeneath := assembleBranches_hold hlater hrelations hbranches hnamedBranches fun row hrow =>
        hrows row (Layout.groups_subset _ hgroup hrow)
      have hnames : (assembleBranches joined group).map (·.1) = joined.map (·.name) :=
        names_of_entries (hbeneath.imp fun _ _ hentry => hentry.1)
      obtain ⟨hjoined, -, -⟩ := hrelations.nodup hnodup
      rw [← hnames] at hjoined
      have hvalues := columnValues_carries ⟨layoutTable, qualifier, lead, layoutFields, columns,
        outputs, key, identity, joined, deferred⟩ hlength group
      refine Layout.holds_of_entries hvalues ?_ hjoined hbeneath ?_ hdeferred
      · intro field hfield
        exact hcarried (List.mem_append_left _ (hfields ▸ hfield))
      · intro field hfield hmem
        rw [hnames] at hmem
        refine fields_disjoint hcolumns hbranches field (hfields ▸ hfield) ?_
        exact hrelations.names_perm.subset (List.mem_append_left _ hmem)

/-- So do the entries of the joined relations, in order. -/
theorem assembleBranches_hold (hlater : AssembledHave fits later) :
    ∀ {relations : List (String × BranchOf Shape)} {table : String}
      {joined : List JoinedBranch} {deferred : List (String × Branch)},
    BranchesPlanned schema relations table joined deferred →
      branchesProper schema relations table → branchesNamed joined → ∀ {rows : List Row},
      (∀ row ∈ rows, fits row) →
      List.Forall₂ (fun (joined : JoinedBranch) (entry : String × Node) =>
        entry.1 = joined.name ∧ entry.2.OfKind joined.isToMany ∧
          ∀ child ∈ entry.2.records, joined.layout.Holds later child)
        joined (assembleBranches joined rows)
  | _, _, _, _, .nil, hproper, hnamed, rows, hrows => by
      rw [assembleBranches]
      exact List.Forall₂.nil
  | _, _, _, _, .joined hjoinable hlayout hlead hrest, hproper, hnamed, rows, hrows => by
      rw [branchesNamed] at hnamed
      obtain ⟨hfirst, hothers⟩ := List.forall_mem_cons.mp (branchesProper_iff.mp hproper)
      obtain ⟨-, relation, hrelation, hshape⟩ := hfirst
      rw [(joinable?_eq_some hjoinable).1] at hrelation
      cases hrelation
      rw [assembleBranches]
      refine List.Forall₂.cons ⟨rfl, Node.ofRelated_ofKind _ _, ?_⟩
        (assembleBranches_hold hlater hrest (branchesProper_iff.mpr hothers) hnamed.2 hrows)
      intro child hchild
      have hmem := page_subset _ _ (Node.records_ofRelated_subset _ _ hchild)
      exact assemble_holds hlater hlayout hshape hnamed.1 hrows child hmem
  | _, _, _, _, .deferred hjoinable hrelation hrest, hproper, hnamed, rows, hrows => by
      obtain ⟨-, hothers⟩ := List.forall_mem_cons.mp (branchesProper_iff.mp hproper)
      exact assembleBranches_hold hlater hrest (branchesProper_iff.mpr hothers) hnamed hrows

end

end Assembling

/-! ### Relations that were put off -/

/-- The function fills in, under every joined relation, what was put off, and changes nothing
else. -/
structure FillsIn (schema : Schema) (branches : List JoinedBranch) (load : Record → Record) :
    Prop where
  sorted : ∀ record, Dict.Sorted record → Dict.Sorted (load record)
  others : ∀ record name, name ∉ branches.map (·.name) →
    (load record).lookup name = record.lookup name
  fills : ∀ record, branchesHold notYet branches record →
    branchesHold (branchesFit schema) branches (load record)

mutual

/-- Loading what was put off makes a record hold it. -/
theorem loadDeferred_gives {db : Database} : ∀ {shape : Shape} {table : String} {layout : Layout},
    shape.Planned schema table layout → shape.Proper schema table → ∀ (records : List Record),
      (layout.loadDeferred schema records).Gives db.run fun load =>
        ∀ record, layout.Holds notYet record → layout.Holds (branchesFit schema) (load record)
  | ⟨fields, excluded, relations⟩, table,
      ⟨layoutTable, qualifier, lead, layoutFields, columns, outputs, key, identity, joined, deferred⟩,
      .intro htable hfields hkey hcarried hlinked hknown hrelations, hproper, records => by
      rw [Shape.Proper] at hproper
      obtain ⟨hcolumns, hnodup, hbranches⟩ := hproper
      obtain ⟨hjoined, hdeferred, hdisjoint⟩ := hrelations.nodup hnodup
      cases htable
      cases hfields
      have hput := hrelations.deferred_proper hbranches
      rw [Layout.loadDeferred]
      refine Load.Gives.bind (loadBranches_gives hput hdeferred records) ?_
      intro here hhere
      refine Load.Gives.bind (loadDeferredBranches_gives hrelations hbranches hjoined _) ?_
      intro beneath hbeneath
      refine Load.gives_pure ?_
      intro record hrecord
      rw [Layout.Holds] at hrecord ⊢
      obtain ⟨hcarries, hbranchesHold, -⟩ := hrecord
      have hapart : ∀ field ∈ layoutFields,
          field ∉ joined.map (·.name) ∧ field ∉ deferred.map (·.1) := by
        intro field hfield
        have hother := fields_disjoint hcolumns hbranches field hfield
        exact ⟨fun hmem => hother (hrelations.names_perm.subset (List.mem_append_left _ hmem)),
          fun hmem => hother (hrelations.names_perm.subset (List.mem_append_right _ hmem))⟩
      refine ⟨⟨hbeneath.sorted _ (hhere.sorted record hcarries.sorted), ?_⟩,
        hbeneath.fills _ (branchesHold_iff.mpr ?_), branchesFit_iff.mpr ?_⟩
      · intro field hfield
        rw [hbeneath.others _ _ (hapart field hfield).1,
          hhere.others _ _ (hapart field hfield).2]
        exact hcarries.bound field hfield
      · intro branch hbranch
        rw [hhere.others _ _ (hdisjoint _ (List.mem_map_of_mem hbranch))]
        exact branchesHold_iff.mp hbranchesHold branch hbranch
      · intro entry hentry
        obtain ⟨relation, node, hrelation, hnode, hrest⟩ :=
          branchesFit_iff.mp (hhere.fits record) entry hentry
        refine ⟨relation, node, hrelation, ?_, hrest⟩
        rw [hbeneath.others _ _ fun hmem => hdisjoint _ hmem (List.mem_map_of_mem hentry)]
        exact hnode

/-- Loading what was put off beneath joined relations fills in their records. -/
theorem loadDeferredBranches_gives {db : Database} :
    ∀ {relations : List (String × BranchOf Shape)} {table : String} {joined : List JoinedBranch}
      {deferred : List (String × Branch)}, BranchesPlanned schema relations table joined deferred →
      branchesProper schema relations table → (joined.map (·.name)).Nodup →
      ∀ (records : List Record),
        (loadDeferredBranches schema joined records).Gives db.run (FillsIn schema joined)
  | _, _, _, _, .nil, hproper, hnodup, records => by
      rw [loadDeferredBranches]
      exact Load.gives_pure ⟨fun record h => h, fun record name _ => rfl, fun record h => h⟩
  | _, _, _, _, .joined hjoinable hlayout hlead hrest, hproper, hnodup, records => by
      obtain ⟨⟨-, relation, hrelation, hshape⟩, hothers⟩ :=
        List.forall_mem_cons.mp (branchesProper_iff.mp hproper)
      rw [(joinable?_eq_some hjoinable).1] at hrelation
      cases hrelation
      rw [List.map_cons, List.nodup_cons] at hnodup
      rw [loadDeferredBranches]
      refine Load.Gives.bind (loadDeferred_gives hlayout hshape _) ?_
      intro change hchange
      refine Load.Gives.bind
        (loadDeferredBranches_gives hrest (branchesProper_iff.mpr hothers) hnodup.2 records) ?_
      intro more hmore
      refine Load.gives_pure ⟨?_, ?_, ?_⟩
      · intro record hsorted
        exact hmore.sorted _ (hsorted.adjust _ _)
      · intro record other hother
        rw [List.map_cons, List.mem_cons, not_or] at hother
        rw [hmore.others _ _ hother.2, Dict.lookup_adjust_of_ne hother.1]
      · intro record hrecord
        obtain ⟨⟨node, hnode, hkind, hchildren⟩, hheld⟩ :=
          List.forall_mem_cons.mp (branchesHold_iff.mp hrecord)
        rw [branchesHold]
        refine ⟨⟨node.mapRecords change, ?_, Node.ofKind_mapRecords hkind _, ?_⟩,
          hmore.fills _ (branchesHold_iff.mpr ?_)⟩
        · rw [hmore.others _ _ hnodup.1, Dict.lookup_adjust_self, hnode]
          rfl
        · intro child hchild
          rw [Node.records_mapRecords] at hchild
          obtain ⟨before, hbefore, rfl⟩ := List.mem_map.mp hchild
          exact hchange before (hchildren before hbefore)
        · intro branch hbranch
          rw [Dict.lookup_adjust_of_ne]
          · exact hheld branch hbranch
          · intro heq
            exact hnodup.1 (List.mem_map.mpr ⟨branch, hbranch, heq⟩)
  | _, _, _, _, .deferred hjoinable hrelation hrest, hproper, hnodup, records =>
      loadDeferredBranches_gives hrest
        (branchesProper_iff.mpr (List.forall_mem_cons.mp (branchesProper_iff.mp hproper)).2) hnodup
        records

end

/-! ### Stripping -/

/-- Stripping the records of joined relations keeps the names, the order and everything else. -/
theorem stripBranches_others (branches : List JoinedBranch) (record : Record) :
    Dict.names (stripBranches branches record) = Dict.names record ∧
      ∀ name, name ∉ branches.map (·.name) →
        (stripBranches branches record).lookup name = record.lookup name := by
  induction branches generalizing record with
  | nil => exact ⟨rfl, fun name _ => rfl⟩
  | cons joined rest ih =>
      obtain ⟨name, isToMany, branch, layout⟩ := joined
      rw [stripBranches]
      obtain ⟨hnames, hothers⟩ := ih (Dict.adjust name (Node.mapRecords layout.strip) record)
      constructor
      · rw [hnames, Dict.names_adjust]
      · intro other hother
        rw [List.map_cons, List.mem_cons, not_or] at hother
        rw [hothers other hother.2, Dict.lookup_adjust_of_ne hother.1]

/-- Under a joined relation stand its records, stripped. -/
theorem stripBranches_lookup {branches : List JoinedBranch} (hnodup : (branches.map (·.name)).Nodup)
    {joined : JoinedBranch} (hjoined : joined ∈ branches) (record : Record) :
    (stripBranches branches record).lookup joined.name =
      (record.lookup joined.name).map (Node.mapRecords joined.layout.strip) := by
  induction branches generalizing record with
  | nil => cases hjoined
  | cons first rest ih =>
      obtain ⟨name, isToMany, branch, layout⟩ := first
      rw [List.map_cons, List.nodup_cons] at hnodup
      rw [stripBranches]
      rcases List.mem_cons.mp hjoined with rfl | hmem
      · rw [(stripBranches_others _ _).2 _ hnodup.1, Dict.lookup_adjust_self]
      · rw [ih hnodup.2 hmem, Dict.lookup_adjust_of_ne]
        intro heq
        exact hnodup.1 (List.mem_map.mpr ⟨joined, hmem, heq⟩)

/-- The record has an entry of the kind of the relation, of stripped records that held the
layout. -/
def Stripped (schema : Schema) (record : Record) (joined : JoinedBranch) : Prop :=
  ∃ node, record.lookup joined.name = some node ∧ node.OfKind joined.isToMany ∧
    ∀ child ∈ node.records, ∃ held, joined.layout.Holds (branchesFit schema) held ∧
      joined.layout.strip held = child

mutual

/-- A record that holds its layout fits the shape once it is stripped. -/
theorem strip_fits : ∀ {shape : Shape} {table : String} {layout : Layout},
    shape.Planned schema table layout → shape.Proper schema table → ∀ {record : Record},
      layout.Holds (branchesFit schema) record → shape.Fits schema table (layout.strip record)
  | ⟨fields, excluded, relations⟩, table,
      ⟨layoutTable, qualifier, lead, layoutFields, columns, outputs, key, identity, joined, deferred⟩,
      .intro htable hfields hkey hcarried hlinked hknown hrelations, hproper, record, hrecord => by
      rw [Shape.Proper] at hproper
      obtain ⟨hcolumns, hnodup, hbranches⟩ := hproper
      obtain ⟨hjoined, hdeferred, hdisjoint⟩ := hrelations.nodup hnodup
      cases htable
      cases hfields
      rw [Layout.Holds] at hrecord
      obtain ⟨hcarries, hheld, hfit⟩ := hrecord
      rw [Layout.strip, Shape.Fits]
      obtain ⟨hnames, hothers⟩ := stripBranches_others joined
        (record.shown layoutFields (joined.map (·.name) ++ deferred.map (·.1)))
      have hapart : ∀ field ∈ layoutFields, field ∉ joined.map (·.name) := by
        intro field hfield hmem
        refine fields_disjoint hcolumns hbranches field hfield ?_
        exact hrelations.names_perm.subset (List.mem_append_left _ hmem)
      refine ⟨⟨?_, ?_⟩, ?_, stripped_branchesFit hrelations hbranches ?_ ?_⟩
      · exact Dict.sorted_of_names hnames.symm (hcarries.sorted.filter _)
      · intro field hfield
        rw [hothers field (hapart field hfield), Record.lookup_shown,
          if_pos (by simp [hfield])]
        exact hcarries.bound field hfield
      · intro name hname
        rw [hnames] at hname
        obtain ⟨pair, hpair, rfl⟩ := List.mem_map.mp hname
        have hkept := (List.mem_filter.mp hpair).2
        rw [Bool.or_eq_true, List.contains_iff_mem, List.contains_iff_mem] at hkept
        exact hkept.imp_right fun hmem => hrelations.names_perm.subset hmem
      · intro branch hbranch
        obtain ⟨node, hnode, hkind, hchildren⟩ := branchesHold_iff.mp hheld branch hbranch
        refine ⟨node.mapRecords branch.layout.strip, ?_, Node.ofKind_mapRecords hkind _, ?_⟩
        · rw [stripBranches_lookup hjoined hbranch, Record.lookup_shown, if_pos, hnode]
          · rfl
          · have hmem := List.mem_map_of_mem (f := (·.name)) hbranch
            simp [hmem]
        · intro child hchild
          rw [Node.records_mapRecords] at hchild
          obtain ⟨held, hmem, rfl⟩ := List.mem_map.mp hchild
          exact ⟨held, hchildren held hmem, rfl⟩
      · refine branchesFit_iff.mpr ?_
        intro entry hentry
        have hmem : entry.1 ∈ deferred.map (·.1) := List.mem_map_of_mem hentry
        obtain ⟨relation, node, hrelation, hnode, hrest⟩ := branchesFit_iff.mp hfit entry hentry
        refine ⟨relation, node, hrelation, ?_, hrest⟩
        rw [hothers _ fun hname => hdisjoint _ hname hmem, Record.lookup_shown, if_pos, hnode]
        simp [hmem]

/-- Stripped records fit all relations, if they fit those that were put off. -/
theorem stripped_branchesFit : ∀ {relations : List (String × BranchOf Shape)} {table : String}
    {joined : List JoinedBranch} {deferred : List (String × Branch)},
    BranchesPlanned schema relations table joined deferred →
      branchesProper schema relations table → ∀ {record : Record},
        (∀ branch ∈ joined, Stripped schema record branch) →
        branchesFit schema deferred table record → branchesFit schema relations table record
  | _, _, _, _, .nil, hproper, record, hstripped, hfit => hfit
  | _, _, _, _, .joined hjoinable hlayout hlead hrest, hproper, record, hstripped, hfit => by
      obtain ⟨⟨-, relation, hrelation, hshape⟩, hothers⟩ :=
        List.forall_mem_cons.mp (branchesProper_iff.mp hproper)
      rw [(joinable?_eq_some hjoinable).1] at hrelation
      cases hrelation
      obtain ⟨⟨node, hnode, hkind, hchildren⟩, hmore⟩ := List.forall_mem_cons.mp hstripped
      have hbeneath := stripped_branchesFit hrest (branchesProper_iff.mpr hothers) hmore hfit
      refine branchesFit_iff.mpr (List.forall_mem_cons.mpr ⟨?_, branchesFit_iff.mp hbeneath⟩)
      refine ⟨_, node, (joinable?_eq_some hjoinable).1, hnode, hkind, ?_⟩
      intro child hchild
      obtain ⟨held, hheld, rfl⟩ := hchildren child hchild
      exact strip_fits hlayout hshape hheld
  | _, _, _, _, .deferred hjoinable hrelation hrest, hproper, record, hstripped, hfit => by
      obtain ⟨-, hothers⟩ := List.forall_mem_cons.mp (branchesProper_iff.mp hproper)
      obtain ⟨hfirst, hmore⟩ := List.forall_mem_cons.mp (branchesFit_iff.mp hfit)
      have hbeneath := stripped_branchesFit hrest (branchesProper_iff.mpr hothers) hstripped
        (branchesFit_iff.mpr hmore)
      exact branchesFit_iff.mpr (List.forall_mem_cons.mpr ⟨hfirst, branchesFit_iff.mp hbeneath⟩)

end

/-! ### Requests -/

/-- What is found backwards is turned round. -/
theorem gives_turned {load : Load (List Record)} {answer : Select → Except QueryError (List Row)}
    {found : List Record → Prop} {backwards : Bool}
    (h : load.Gives answer fun records => found (if backwards then records.reverse else records)) :
    (do let records ← load; return if backwards then records.reverse else records : Load _).Gives
      answer found :=
  Load.Gives.bind h fun _ hfound => Load.gives_pure hfound

/-- A request that goes backwards turns round what it finds. -/
theorem gives_turned_eq {load : Load (List Record)} {answer : Select → Except QueryError (List Row)}
    {records : List Record} (h : load.Gives answer (· = records)) (backwards : Bool) :
    (do let found ← load; return if backwards then found.reverse else found : Load _).Gives answer
      (· = if backwards then records.reverse else records) :=
  gives_turned fun found hfound => by rw [h found hfound]

section Requests

variable {engine : Engine} (h : engine.schema.Consistent) {table : Table} {shape : Shape}
  (hproper : shape.Proper engine.schema table.name) (args : FindArgs) (paging : Paging) (db : Database)

include h hproper

/-- The records of a joined statement fit the shape. -/
theorem findJoined_fits (extra : List String) :
    let plan := shape.layout engine.schema table.name extra
    (engine.findJoined table args paging plan.1 plan.2).Gives db.run fun records =>
      ∀ record ∈ records, shape.Fits engine.schema table.name record := by
  intro plan
  unfold Engine.findJoined
  refine Load.Gives.bind (Load.gives_query fun rows _ => trivial) ?_
  intro rows _
  have hplanned := Shape.layout_planned h hproper extra
  have hassembled := fun rows => @assemble_holds _ notYet (fun _ => True)
    (fun _ _ _ _ _ => trivial) _ _ _ hplanned hproper (Layout.nameOutputs_named _ _) rows
    fun _ _ => trivial
  specialize hassembled rows
  extract_lets records paged
  have hpaged : paged ⊆ records := by
    unfold paged
    split
    · exact List.Subset.trans (pageOf_subset _ _ _) (distinctBy_subset _ _)
    · exact List.Subset.refl records
  refine Load.Gives.bind (loadDeferred_gives hplanned hproper paged) ?_
  intro load hload
  refine Load.gives_pure ?_
  intro record hrecord
  obtain ⟨before, hbefore, rfl⟩ := List.mem_map.mp hrecord
  exact strip_fits hplanned hproper (hload before (hassembled before (hpaged hbefore)))

omit h in
/-- So do those of separate statements. -/
theorem findSeparately_fits :
    (engine.findSeparately table args paging shape).Gives db.run fun records =>
      ∀ record ∈ records, shape.Fits engine.schema table.name record := by
  unfold Engine.findSeparately
  refine Load.Gives.bind (Load.gives_query fun rows hrows => run_plain_carries rfl hrows) ?_
  intro rows hrows
  obtain ⟨fields, excluded, relations⟩ := shape
  rw [Shape.Proper] at hproper
  obtain ⟨hcolumns, hnodup, hbranches⟩ := hproper
  refine Load.Gives.bind (loadBranches_gives hbranches hnodup _) ?_
  intro load hload
  refine Load.gives_pure ?_
  intro record hrecord
  obtain ⟨before, hbefore, rfl⟩ := List.mem_map.mp hrecord
  obtain ⟨row, hrow, rfl⟩ := List.mem_map.mp hbefore
  have hcarries : (row.toRecord).Carries fields :=
    ⟨(hrows row hrow).sorted, fun field hfield =>
      (hrows row hrow).bound field (mem_withHidden.mpr (Or.inl hfield))⟩
  exact @shown_fits engine.schema ⟨fields, excluded, relations⟩ table.name _
    (hload.carries hcarries (fields_disjoint hcolumns hbranches)) (hload.fits row.toRecord)

end Requests

/-- Of a joined statement as of separate ones, the records fit the shape. -/
theorem findMany_gives (engine : Engine) (h : engine.schema.Consistent) {table : String}
    {known : Table} (hknown : engine.schema.table? table = some known) (args : FindArgs) (db : Database) :
    (engine.findMany table args).Gives db.run fun records => ∀ record ∈ records,
      (engine.schema.shape table args.selected args.included args.omitted).Fits engine.schema table
        record := by
  have hname := h.table_name hknown
  subst hname
  have hproper := engine.schema.shape_proper known.name args.selected args.included args.omitted
  have hturned : ∀ {records : List Record} {fits : Record → Prop}, (∀ record ∈ records, fits record) →
      ∀ backwards : Bool, ∀ record ∈ if backwards then records.reverse else records, fits record := by
    intro records fits hrecords backwards record hrecord
    cases backwards with
    | false => exact hrecords record hrecord
    | true => exact hrecords record (List.mem_reverse.mp hrecord)
  unfold Engine.findMany
  rw [hknown]
  dsimp only
  split
  · exact gives_turned fun found hfound =>
      hturned (findJoined_fits h hproper args _ db _ found hfound) _
  · exact gives_turned fun found hfound =>
      hturned (findSeparately_fits hproper args _ db found hfound) _

end NestedQuery
