import NestedQuery.Proofs.RecordShape
import NestedQuery.Proofs.RowwiseJoins

/-!
# Requests whose rows can be sorted

Sorting has a result to rely on where comparing by the sort keys is transitive on
the rows, as it is where every column that is sorted by holds values in order.
So what a request finds can be said of whatever it returns; that it returns is
said of the databases on which every statement that it asks sorts by such columns.
-/

namespace NestedQuery

variable {db : Database}

/-! ### Statements -/

/-- In the rows that a statement sorts, every column that it sorts by holds values in order. -/
def Database.CanSort (db : Database) (statement : Select) : Prop :=
  ∀ keys ∈ statement.orderBy,
    ∀ rows ∈ (selectRows db { statement with orderBy := none } []).toOption,
      ∀ key ∈ keys, Value.Ordered (rows.map (·.cell key.column))

instance (db : Database) (statement : Select) : Decidable (db.CanSort statement) :=
  inferInstanceAs (Decidable (∀ keys ∈ statement.orderBy,
    ∀ rows ∈ (selectRows db { statement with orderBy := none } []).toOption,
      ∀ key ∈ keys, Value.Ordered (rows.map (·.cell key.column))))

/-- Then its keys order the rows. -/
theorem Database.CanSort.ordersOn {statement : Select} (h : db.CanSort statement)
    {keys : List SortKey} (hkeys : statement.orderBy = some keys) {rows : List Bindings}
    (hrows : selectRows db { statement with orderBy := none } [] = .ok rows) :
    OrdersOn (tupleOrder keys) (· ∈ rows) :=
  ordersOn_sortOrder keys (fun (tuple : Bindings) key => tuple.cell key.column)
    (h keys hkeys rows (by rw [hrows]; rfl))

/-- So do the keys of a clause that may be left out. -/
theorem Database.CanSort.ordersOn_orderClause {statement : Select} {keys : List SortKey}
    (h : db.CanSort { statement with orderBy := orderClause keys }) {rows : List Bindings}
    (hrows : selectRows db { statement with orderBy := none } [] = .ok rows) :
    OrdersOn (tupleOrder keys) (· ∈ rows) := by
  cases keys with
  | nil => exact ordersOn_sortOrder [] (fun (tuple : Bindings) key => tuple.cell key.column) nofun
  | cons key rest => exact h.ordersOn rfl hrows

/-! ### Dialogues -/

namespace Load

variable {α β : Type} {load : Load α} {next : α → Load β} {post : α → Prop}

/-- The rows of every statement that the dialogue asks on the database can be sorted. -/
def Sortable (load : Load α) (db : Database) : Prop :=
  ∀ statement ∈ (load.hold Database.source db).log, db.CanSort statement

instance (load : Load α) (db : Database) : Decidable (load.Sortable db) :=
  inferInstanceAs (Decidable (∀ statement ∈ (load.hold Database.source db).log, _))

/-- Going on with the result of a dialogue leaves in the log what is there. -/
theorem mem_log_bind {σ : Type} {source : Source σ} {state : σ} {statement : Select}
    (h : statement ∈ (load.hold source state).log) :
    statement ∈ ((load >>= next).hold source state).log := by
  induction load generalizing state with
  | done result => cases h
  | fail error => exact h
  | ask asked rest ih =>
      change statement ∈ ((Load.ask asked fun rows => rest rows >>= next).hold source state).log
      rw [hold] at h ⊢
      cases hanswer : source asked state with
      | mk answer after =>
          rw [hanswer] at h
          cases answer with
          | error error => exact h
          | ok rows =>
              rcases List.mem_cons.mp h with rfl | hrest
              · exact List.mem_cons_self
              · exact List.mem_cons_of_mem _ (ih rows hrest)

/-- So the rows of a dialogue can be sorted if those of what goes on from it can. -/
theorem Sortable.of_bind (h : (load >>= next).Sortable db) : load.Sortable db :=
  fun statement hstatement => h statement (mem_log_bind hstatement)

/-- The first statement of a dialogue is one that it asks. -/
theorem Sortable.of_query {statement : Select} {next : List Row → Load β}
    (h : (query statement >>= next).Sortable db) : db.CanSort statement := by
  refine h.of_bind statement ?_
  rw [query, hold, Database.source]
  cases db.run statement <;> exact List.mem_cons_self

/-- Where its rows can be sorted, the dialogue has a result. -/
def ReturnsOn (load : Load α) (db : Database) : Prop :=
  load.Sortable db → ∃ result, (load.hold Database.source db).result = .ok result

/-- Such a dialogue is one that asks well-scoped statements and does not fail by itself. -/
theorem Asks.returnsOn (h : load.Asks SelectOf.WellScoped) (db : Database) : load.ReturnsOn db :=
  fun _ => (h.hold_ok fun _ hscoped => hscoped.run_ok db).1

/-- What dialogues give is true of every result that they have on a database. -/
theorem Gives.of_result (h : load.Gives db.run post) {result : α}
    (hresult : (load.hold Database.source db).result = .ok result) : post result :=
  h result ((hold_result load db).symm.trans hresult)

end Load

/-- A request to a known table returns where its rows can be sorted. -/
theorem findMany_returnsOn {engine : Engine} (hschema : engine.schema.Consistent) {name : String}
    {table : Table} (hknown : engine.schema.table? name = some table) (args : FindArgs)
    (db : Database) : (engine.findMany name args).ReturnsOn db :=
  (findMany_asks hschema hknown args).returnsOn db

end NestedQuery
