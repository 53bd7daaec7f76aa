import NestedQuery.Proofs.Scope
import Mathlib.Data.List.Perm.Basic
import Mathlib.Data.List.ProdSigma

/-!
# Joins as relational operators

A join is evaluated row by row, and remembers which rows of its table have been
paired.  What it yields is said without that: every pair of a row on the left
with a row of the table that its predicate is true of; the rows on the left that
are in no such pair, where the join keeps them; and the rows of the table that
are in none, where it keeps these.  Equal rows count as often as they occur.
The missing side of a row that stands alone is null in every column.
-/

namespace NestedQuery

/-! ### Rows of a join -/

/-- The row binds exactly the qualifiers. -/
def Bindings.Binds (row : Bindings) (qualifiers : List String) : Prop :=
  ∀ name, name ∈ Dict.names row ↔ name ∈ qualifiers

/-- The row that binds qualifiers to no row. -/
def Bindings.absent (qualifiers : List String) : Bindings :=
  qualifiers.map (·, none)

namespace Join

/-- A row on the left of a join beside a row of its table, or beside none. -/
def beside (join : Join) (row : Bindings) (found : Option Row) : Bindings :=
  row ++ [(join.label, found)]

variable (join : Join) (db : Database) (outer : Bindings)

/-- Whether the predicate of a join is true of a row on the left and a row of the table. -/
def agrees (row : Bindings) (other : Row) : Bool :=
  join.on.truth db (join.beside row (some other) ++ outer) = .ok (some true)

/-- The pairs that the predicate is true of. -/
def paired (left : List Bindings) : List Bindings :=
  ((left ×ˢ db.rows join.table).filter fun pair => join.agrees db outer pair.1 pair.2).map
    fun pair => join.beside pair.1 (some pair.2)

/-- The rows on the left that are in no pair, each beside no row. -/
def leftAlone (left : List Bindings) : List Bindings :=
  (left.filter fun row => !(db.rows join.table).any (join.agrees db outer row)).map
    fun row => join.beside row none

/-- The rows of the table that are in no pair, each with no row on the left. -/
def rightAlone (qualifiers : List String) (left : List Bindings) : List Bindings :=
  ((db.rows join.table).filter fun other => !left.any fun row => join.agrees db outer row other).map
    fun other => join.beside (.absent qualifiers) (some other)

/-- What a join yields, in some order: every pair, the rows on the left that are in none if it is a
left or a full join, and the rows of the table that are in none if it is a right or a full join. -/
def Yields (qualifiers : List String) (left rows : List Bindings) : Prop :=
  rows.Perm (join.paired db outer left ++
    (if join.kind = .left ∨ join.kind = .full then join.leftAlone db outer left else []) ++
    if join.kind = .right ∨ join.kind = .full then join.rightAlone db outer qualifiers left else [])

variable {join db outer}

/-! ### What is evaluated -/

/-- A predicate accepts a row if it is true of it. -/
theorem accepts_eq (holds : Bindings → Except QueryError (Option Bool)) :
    accepts holds = fun row => decide (holds row = .ok (some true)) := by
  funext row
  unfold accepts
  split
  · next heq => simp [heq]
  · next hne => simpa using hne

/-- The pairs of the first row come before those of the others. -/
theorem paired_cons (row : Bindings) (rest : List Bindings) :
    join.paired db outer (row :: rest) =
      ((db.rows join.table).filter (join.agrees db outer row)).map
          (fun other => join.beside row (some other)) ++ join.paired db outer rest := by
  simp only [paired, List.product_cons, List.filter_append, List.map_append, List.filter_map,
    List.map_map]
  rfl

/-- The first row stands alone if it is in no pair. -/
theorem leftAlone_cons (row : Bindings) (rest : List Bindings) :
    join.leftAlone db outer (row :: rest) =
      (if (db.rows join.table).any (join.agrees db outer row) then []
        else [join.beside row none]) ++
        join.leftAlone db outer rest := by
  unfold leftAlone
  cases h : (db.rows join.table).any (join.agrees db outer row) <;> simp [h]

/-- What is made of one row on the left: its pairs, or the row alone if it has none and is kept. -/
theorem besides_eq (row : Bindings) :
    besides (fun candidate => join.on.truth db (candidate ++ outer) = .ok (some true)) join.kind
        join.label (db.rows join.table) row =
      ((db.rows join.table).filter (join.agrees db outer row)).map
          (fun other => join.beside row (some other)) ++
        if join.kind = .left ∨ join.kind = .full then
          if (db.rows join.table).any (join.agrees db outer row) then [] else [join.beside row none]
        else [] := by
  set pairs := ((db.rows join.table).filter (join.agrees db outer row)).map
    fun other => join.beside row (some other) with hpairs
  have hbesides : besides (fun candidate => join.on.truth db (candidate ++ outer) = .ok (some true))
      join.kind join.label (db.rows join.table) row =
        if pairs.isEmpty ∧ (join.kind = .left ∨ join.kind = .full) then [join.beside row none]
        else pairs := rfl
  have hempty : pairs.isEmpty = !(db.rows join.table).any (join.agrees db outer row) := by
    rw [Bool.eq_iff_iff, List.isEmpty_iff]
    simp [hpairs]
  rw [hbesides, hempty]
  by_cases hkeeps : join.kind = .left ∨ join.kind = .full
  · cases hfound : (db.rows join.table).any (join.agrees db outer row) with
    | true => simp [hkeeps]
    | false =>
        rw [hfound, Bool.not_false, List.isEmpty_iff] at hempty
        simp [hkeeps, hempty]
  · simp [hkeeps]

/-- What is made of all rows on the left: their pairs, and those alone that have none, if the join
keeps them. -/
theorem flatMap_besides_perm (left : List Bindings) :
    (left.flatMap (besides
        (fun candidate => join.on.truth db (candidate ++ outer) = .ok (some true))
        join.kind join.label (db.rows join.table))).Perm
      (join.paired db outer left ++
        if join.kind = .left ∨ join.kind = .full then join.leftAlone db outer left else []) := by
  induction left with
  | nil => simp [paired, leftAlone]
  | cons row rest ih =>
      rw [List.flatMap_cons, besides_eq, paired_cons, leftAlone_cons]
      refine (ih.append_left _).trans ?_
      by_cases hkeeps : join.kind = .left ∨ join.kind = .full
      · rw [if_pos hkeeps, if_pos hkeeps, if_pos hkeeps, List.append_assoc, List.append_assoc]
        exact (List.perm_append_comm_assoc _ _ _).append_left _
      · rw [if_neg hkeeps, if_neg hkeeps, if_neg hkeeps, List.append_nil, List.append_nil,
          List.append_nil]

/-- Where the predicate has a truth value on every pair, the join yields what it should. -/
theorem exists_yields {qualifiers : List String} {left : List Bindings}
    (hon : ∀ row ∈ left, ∀ other ∈ db.rows join.table,
      ∃ truth, join.on.truth db (join.beside row (some other) ++ outer) = .ok truth) :
    ∃ rows, joinRows (fun row => join.on.truth db (row ++ outer)) join.kind join.label qualifiers
        left (db.rows join.table) = .ok rows ∧ join.Yields db outer qualifiers left rows := by
  refine ⟨_, joinRows_ok hon, ?_⟩
  rw [accepts_eq]
  exact (flatMap_besides_perm left).append_right _

/-! ### What the rows bind -/

/-- A row beside one of the table binds the label of the join, too. -/
theorem binds_beside {row : Bindings} {qualifiers : List String} (h : row.Binds qualifiers)
    (found : Option Row) : (join.beside row found).Binds (qualifiers ++ [join.label]) := by
  intro name
  rw [beside, Dict.names_append, List.mem_append, List.mem_append, h name]
  rfl

theorem binds_absent (qualifiers : List String) :
    (Bindings.absent qualifiers).Binds qualifiers := by
  intro name
  rw [Dict.names, Bindings.absent, List.map_map]
  simp

/-- Every row of a join is one on the left, or none, beside one of the table, or none. -/
theorem Yields.binds {qualifiers : List String} {left rows : List Bindings}
    (h : join.Yields db outer qualifiers left rows) (hleft : ∀ row ∈ left, row.Binds qualifiers) :
    ∀ row ∈ rows, row.Binds (qualifiers ++ [join.label]) := by
  intro row hrow
  rcases List.mem_append.mp (h.mem_iff.mp hrow) with hfirst | hright
  · rcases List.mem_append.mp hfirst with hpair | halone
    · obtain ⟨pair, hmem, rfl⟩ := List.mem_map.mp hpair
      have hproduct := List.mem_product.mp (List.mem_of_mem_filter hmem)
      exact binds_beside (hleft _ hproduct.1) _
    · split at halone
      · obtain ⟨before, hmem, rfl⟩ := List.mem_map.mp halone
        exact binds_beside (hleft before (List.mem_of_mem_filter hmem)) none
      · cases halone
  · split at hright
    · obtain ⟨other, -, rfl⟩ := List.mem_map.mp hright
      exact binds_beside (binds_absent qualifiers) _
    · cases hright

/-! ### Columns of a row that stands alone -/

/-- A row on the left keeps its columns, whatever it stands beside. -/
theorem value_beside {row : Bindings} {qualifiers : List String} (h : row.Binds qualifiers)
    {qualifier : String} (hqualifier : qualifier ∈ qualifiers) (found : Option Row)
    (column : String) :
    (join.beside row found).value ⟨qualifier, column⟩ = row.value ⟨qualifier, column⟩ := by
  unfold Bindings.value beside
  rw [Dict.lookup_append_of_mem ((h qualifier).mpr hqualifier)]

/-- Under the label of the join stand the columns of the row beside it, all null if there is
none. -/
theorem value_label {row : Bindings} {qualifiers : List String} (h : row.Binds qualifiers)
    (hlabel : join.label ∉ qualifiers) (found : Option Row) (column : String) :
    (join.beside row found).value ⟨join.label, column⟩ =
      .ok (found.elim .null (·.value column)) := by
  have hnew : join.label ∉ Dict.names row := mt (h join.label).mp hlabel
  unfold Bindings.value beside
  rw [Dict.lookup_append_of_notMem hnew]
  cases found <;> simp [Row.value, pure, Except.pure]

/-- The columns of no row are null. -/
theorem value_absent {qualifiers : List String} {qualifier : String}
    (hqualifier : qualifier ∈ qualifiers) (column : String) :
    (Bindings.absent qualifiers).value ⟨qualifier, column⟩ = .ok .null := by
  have hlookup : (Bindings.absent qualifiers).lookup qualifier = some none :=
    List.lookup_graph (fun _ => none) hqualifier
  rw [Bindings.value, hlookup]
  rfl

end Join

/-- **Joins are relational operators.**  Let rows bind exactly some qualifiers, and let a join have
a label apart from these and a predicate with a truth value on every pair of a row and a row of its
table.  Then it yields each pair that the predicate is true of once; the rows that are in no such
pair, each once and beside no row, if it is a left or a full join; the rows of the table that are in
none, each once and with no row on the left, if it is a right or a full join; and nothing else.  Its
rows bind exactly the qualifiers and the label.  Columns of a missing side are null, those of the
other side are kept. -/
theorem join_is_relational (join : Join) {db : Database} {outer : Bindings}
    {qualifiers : List String} (hlabel : join.label ∉ qualifiers) {left : List Bindings}
    (hleft : ∀ row ∈ left, row.Binds qualifiers)
    (hon : ∀ row ∈ left, ∀ other ∈ db.rows join.table,
      ∃ truth, join.on.truth db (join.beside row (some other) ++ outer) = .ok truth) :
    ∃ rows, joinRows (fun row => join.on.truth db (row ++ outer)) join.kind join.label qualifiers
        left (db.rows join.table) = .ok rows ∧
      join.Yields db outer qualifiers left rows ∧
      (∀ row ∈ rows, row.Binds (qualifiers ++ [join.label])) ∧
      (∀ row ∈ left, ∀ column,
        (join.beside row none).value ⟨join.label, column⟩ = .ok .null ∧
        ∀ qualifier ∈ qualifiers, (join.beside row none).value ⟨qualifier, column⟩ =
          row.value ⟨qualifier, column⟩) ∧
      ∀ other ∈ db.rows join.table, ∀ column,
        (join.beside (.absent qualifiers) (some other)).value ⟨join.label, column⟩ =
          .ok (other.value column) ∧
        ∀ qualifier ∈ qualifiers,
          (join.beside (.absent qualifiers) (some other)).value ⟨qualifier, column⟩ =
            .ok .null := by
  obtain ⟨rows, hrows, hyields⟩ := @Join.exists_yields join db outer qualifiers left hon
  refine ⟨rows, hrows, hyields, hyields.binds hleft, fun row hrow column => ⟨?_, ?_⟩,
    fun other _ column => ⟨?_, ?_⟩⟩
  · exact Join.value_label (hleft row hrow) hlabel none column
  · exact fun qualifier hqualifier => Join.value_beside (hleft row hrow) hqualifier none column
  · exact Join.value_label (Join.binds_absent qualifiers) hlabel (some other) column
  · intro qualifier hqualifier
    rw [Join.value_beside (Join.binds_absent qualifiers) hqualifier, Join.value_absent hqualifier]

/-- The posts of authors, with the authors that have none and the posts that have none. -/
def postsOfAuthors : Join :=
  ⟨.full, "Post", "posts_1", .compare (.col "posts_1" "authorId") .eq (.col "Author" "id")⟩

/-- A post of the author 1, and one of nobody. -/
def postRows : Database :=
  [("Post", [[("authorId", .integer 1), ("id", .integer 1)],
    [("authorId", .null), ("id", .integer 2)]])]

/-- An author, known under the name of the table. -/
def authorBindings (id : Int) : Bindings :=
  [("Author", some [("id", .integer id)])]

/-- An author that occurs twice has the post twice, and another has none; the post of nobody stands
alone. -/
theorem join_is_relational_posts :
    postsOfAuthors.label ∉ ["Author"] ∧
      (∀ row ∈ [authorBindings 1, authorBindings 2, authorBindings 1], row.Binds ["Author"]) ∧
      (∀ row ∈ [authorBindings 1, authorBindings 2, authorBindings 1],
        ∀ other ∈ postRows.rows postsOfAuthors.table, ∃ truth,
          postsOfAuthors.on.truth postRows (postsOfAuthors.beside row (some other) ++ []) =
            .ok truth) ∧
      ∃ rows, joinRows (fun row => postsOfAuthors.on.truth postRows (row ++ [])) .full "posts_1"
          ["Author"] [authorBindings 1, authorBindings 2, authorBindings 1]
          (postRows.rows "Post") = .ok rows ∧
        rows.Perm
          [authorBindings 1 ++ [("posts_1", some [("authorId", .integer 1), ("id", .integer 1)])],
            authorBindings 1 ++ [("posts_1", some [("authorId", .integer 1), ("id", .integer 1)])],
            authorBindings 2 ++ [("posts_1", none)],
            [("Author", none), ("posts_1", some [("authorId", .null), ("id", .integer 2)])]] := by
  have hlabel : postsOfAuthors.label ∉ ["Author"] := by decide
  have hleft : ∀ row ∈ [authorBindings 1, authorBindings 2, authorBindings 1],
      row.Binds ["Author"] := by
    simp [authorBindings, Bindings.Binds, Dict.names]
  have hon : ∀ row ∈ [authorBindings 1, authorBindings 2, authorBindings 1],
      ∀ other ∈ postRows.rows postsOfAuthors.table, ∃ truth,
        postsOfAuthors.on.truth postRows (postsOfAuthors.beside row (some other) ++ []) =
          .ok truth := by
    have hscoped : postsOfAuthors.on.Scoped (["Author"] ++ ["posts_1"]) := by
      simp [postsOfAuthors, Expr.col, Expr.Scoped]
    intro row hrow other _
    have hbinds : (postsOfAuthors.beside row (some other)).Binds (["Author"] ++ ["posts_1"]) :=
      Join.binds_beside (hleft row hrow) (some other)
    obtain ⟨value, hvalue⟩ := hscoped.eval_ok postRows fun name hname => (hbinds name).mpr hname
    exact ⟨_, by rw [List.append_nil, Expr.truth_ok hvalue]⟩
  obtain ⟨rows, hrows, hyields, -⟩ := join_is_relational postsOfAuthors hlabel hleft hon
  refine ⟨hlabel, hleft, hon, rows, hrows, hyields.trans (List.Perm.of_eq ?_)⟩
  decide +kernel

end NestedQuery
