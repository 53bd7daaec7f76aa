import NestedQuery.Proofs.CompiledScope
import NestedQuery.Proofs.FilterMeaning
import NestedQuery.Request.Reading
import NestedQuery.Engine.Find

/-!
# Filters on one column of a relation

A document that names a relation and in it a column with a scalar has two
readings: a filter on related rows, and a condition with the column as its
operator.  The condition is tried first, and a relation has no use for
conditions.  So the filter is lost just where the column has the name of an
operator that takes the scalar; everywhere else it becomes the existence of a
related row whose column equals the scalar, or is null where the scalar is.
-/

namespace NestedQuery

open Json

/-! ### Reading -/

/-- The documents of scalars, with what they are read as; large integers are read as doubles. -/
inductive IsScalar : Json → Value → Prop
  | null : IsScalar .null .null
  | boolean (b : Bool) : IsScalar (.bool b) (.boolean b)
  | integer (n : Int) : IsScalar (.integer n) (.integer n)
  | large (n : Int) : IsScalar (.integer n) (.float (Binary64.ofInt n))
  | float (x : Binary64) : IsScalar (.float x) (.float x)
  | text (s : String) : IsScalar (.string s) (.text s)

theorem isScalar_of_ofJson? {json : Json} {value : Value} (h : Value.ofJson? json = some value) :
    IsScalar json value := by
  cases json with
  | null => cases h; exact .null
  | bool b => cases h; exact .boolean b
  | integer n =>
      simp only [Value.ofJson?, Option.some.injEq] at h
      split at h
      · exact h ▸ .integer n
      · exact h ▸ .large n
  | float x => cases h; exact .float x
  | string s => cases h; exact .text s
  | array items => cases h
  | object fields => cases h
  | flawed => cases h

namespace IsScalar

variable {json : Json} {value : Value}

/-- A document of a scalar has no flaw. -/
theorem isSound (h : IsScalar json value) : json.isSound = true := by
  cases h <;> rfl

theorem string?_eq (h : IsScalar json value) : string? json = value.text? := by
  cases h <;> rfl

theorem name?_eq (h : IsScalar json value) : name? json = value.text? := by
  cases h <;> rfl

theorem list?_eq {α : Type} (h : IsScalar json value) (item : Json → Option α) :
    list? item json = none := by
  cases h <;> rfl

theorem bool?_isSome (h : IsScalar json value) :
    (bool? json).isSome = (value == .boolean true || value == .boolean false) := by
  cases h with
  | boolean b => cases b <;> rfl
  | _ => rfl

/-- The name of a mode is a text. -/
theorem mode_isSome (h : IsScalar json value) : (oneOf? MatchMode.names json).isSome =
    (value == .text "default" || value == .text "insensitive") := by
  unfold oneOf?
  rw [h.name?_eq]
  cases h with
  | text s =>
      by_cases hexact : s = "default"
      · subst hexact
        rfl
      · by_cases hinsensitive : s = "insensitive"
        · subst hinsensitive
          rfl
        · simp [Value.text?, MatchMode.names, Dict.lookup_cons, hexact, hinsensitive]
  | _ => rfl

end IsScalar

section Fields

variable {α β : Type} {name key : String} {json : Json} {read : Json → Option α}

/-- Of a single field, those with other names are missing. -/
theorem present?_single : (Fields.present? [(key, json)] name read).isSome =
    (name != key || (read json).isSome) := by
  rw [Fields.present?, Dict.lookup_cons]
  by_cases h : name = key <;> simp [h]

/-- A field that may be absent is absent also when it is null. -/
theorem optional?_single {value : Value} (h : IsScalar json value) :
    (Fields.optional? [(key, json)] name read).isSome =
      (name != key || value.isNull || (read json).isSome) := by
  rw [Fields.optional?, Dict.lookup_cons]
  by_cases hname : name = key
  · cases h <;> simp [hname, Value.isNull]
  · simp [hname]

theorem isSome_bind {found : Option α} {next : α → Option β} {rest : Bool}
    (h : ∀ item, (next item).isSome = rest) :
    (found >>= next).isSome = (found.isSome && rest) := by
  cases found with
  | none => rfl
  | some item => exact (h item).trans (Bool.true_and _).symm

end Fields

/-- The tests of a condition are read if the operand of each operator is. -/
theorem readTests?_isSome (fields : Fields) : (Condition.readTests? fields).isSome =
    ((fields.present? "equals" Value.ofJson?).isSome &&
      ((fields.optional? "in" (list? Value.ofJson?)).isSome &&
      ((fields.optional? "notIn" (list? Value.ofJson?)).isSome &&
      ((fields.optional? "lt" Value.ofJson?).isSome &&
      ((fields.optional? "lte" Value.ofJson?).isSome &&
      ((fields.optional? "gt" Value.ofJson?).isSome &&
      ((fields.optional? "gte" Value.ofJson?).isSome &&
      ((fields.optional? "contains" string?).isSome &&
      ((fields.optional? "startsWith" string?).isSome &&
      ((fields.optional? "endsWith" string?).isSome &&
      ((fields.optional? "mode" (oneOf? MatchMode.names)).isSome &&
      ((fields.optional? "isNull" bool?).isSome &&
      ((fields.optional? "isNotNull" bool?).isSome && true))))))))))))) := by
  unfold Condition.readTests?
  repeat refine isSome_bind fun _ => ?_
  rfl

/-- Whether an operator of conditions takes a scalar: any one to compare with, a text to look for, a
mode, a truth value, and none for a list; null stands for the absence of most operands. -/
def Condition.takes (operator : String) (value : Value) : Bool :=
  match operator with
  | "equals" | "not" | "lt" | "lte" | "gt" | "gte" => true
  | "in" | "notIn" => value.isNull
  | "contains" | "startsWith" | "endsWith" => value.isNull || value.text?.isSome
  | "mode" => value.isNull || value == .text "default" || value == .text "insensitive"
  | "isNull" | "isNotNull" => value.isNull || value == .boolean true || value == .boolean false
  | _ => false

/-- The tests of a single operator are read exactly if it takes the scalar.  The cases are the
operators: the operands of all others are absent, and `readTests?_isSome` leaves the question
whether the scalar is an operand of this one. -/
theorem readTests?_single {operator : String} (hoperator : operator ∈ Condition.operators)
    {json : Json} {value : Value} (h : Value.ofJson? json = some value) :
    (Condition.readTests? [(operator, json)]).isSome = Condition.takes operator value := by
  have hscalar := isScalar_of_ofJson? h
  have hread : (Value.ofJson? json).isSome = true := by
    rw [h]
    rfl
  simp only [Condition.operators, List.mem_cons, List.not_mem_nil, or_false] at hoperator
  rcases hoperator with rfl | rfl | rfl | rfl | rfl | rfl | rfl | rfl | rfl | rfl | rfl | rfl | rfl |
    rfl <;>
    simp [readTests?_isSome, present?_single, optional?_single hscalar, hread, hscalar.list?_eq,
      hscalar.string?_eq, hscalar.bool?_isSome, hscalar.mode_isSome, Bool.or_assoc, Condition.takes]

/-- An operator that there is not takes nothing. -/
theorem takes_unknown {name : String} (h : name ∉ Condition.operators) (value : Value) :
    Condition.takes name value = false := by
  simp only [Condition.operators, List.mem_cons, List.not_mem_nil, or_false, not_or] at h
  simp [Condition.takes, h]

/-- A condition of a single operator is read exactly if the operator takes the scalar. -/
theorem ofJson?_single_isSome {operator : String} {json : Json} {value : Value}
    (h : Value.ofJson? json = some value) :
    (Condition.ofJson? (.object [(operator, json)])).isSome = Condition.takes operator value := by
  rw [Condition.ofJson?]
  by_cases hoperator : operator ∈ Condition.operators
  · have hfields : objectFields? Condition.operators true [(operator, json)] =
        some [(operator, json)] := by
      simp [objectFields?, hoperator, List.eraseDups_cons]
    have hnegation : (Condition.negation? [(operator, json)]).isSome = true := by
      rw [Condition.negation?, h]
      split <;> rfl
    obtain ⟨negation, hnegation⟩ := Option.isSome_iff_exists.mp hnegation
    rw [hfields, Option.bind_eq_bind, Option.bind_some, ← readTests?_single hoperator h]
    refine (isSome_bind fun tests => ?_).trans (Bool.and_true _)
    rw [hnegation]
    rfl
  · have hfields : objectFields? Condition.operators true [(operator, json)] = none := by
      simp [objectFields?, hoperator]
    rw [hfields, takes_unknown hoperator]
    rfl

/-- A document of a scalar under two keys has no flaw. -/
theorem isSound_nested {key column : String} {json : Json} {value : Value}
    (h : Value.ofJson? json = some value) :
    (Json.object [(key, .object [(column, json)])]).isSound = true := by
  simp [Json.isSound, Json.fieldsSound, (isScalar_of_ofJson? h).isSound]

section Entries

variable {key : String} (hkey : key ∉ Filter.combinators) {json : Json}

include hkey

/-- No list of filters stands under another key. -/
theorem readList?_single {combinator : String} (h : combinator ∈ Filter.combinators) :
    Filter.readList? combinator [(key, json)] = some [] := by
  have hne : key ≠ combinator := fun heq => hkey (heq ▸ h)
  rw [Filter.readList?.eq_def]
  dsimp only
  rw [if_neg hne, Filter.readList?]

/-- A document with a single entry is a filter on that entry, unless the key is a combinator. -/
theorem read?_single {operand : Operand}
    (h : Filter.readEntries? [(key, json)] = some [(key, operand)]) :
    Filter.read? (.object [(key, json)]) = some (.node [] [] [] [(key, operand)]) := by
  have hcombinators : ([(key, json)].map (·.1)).filter Filter.combinators.contains = [] := by
    simpa using hkey
  rw [Filter.read?, readList?_single hkey (by decide), readList?_single hkey (by decide),
    readList?_single hkey (by decide), h, hcombinators]
  rfl

/-- A scalar is read as such. -/
theorem read?_literal {value : Value} (h : Value.ofJson? json = some value) :
    Filter.read? (.object [(key, json)]) = some (.node [] [] [] [(key, .literal value)]) := by
  refine read?_single hkey ?_
  simp [Filter.readEntries?, hkey, h]

/-- What is a condition is read as such, whatever the key. -/
theorem read?_condition {condition : Condition} (h : Value.ofJson? json = none)
    (hcondition : Condition.ofJson? json = some condition) :
    Filter.read? (.object [(key, json)]) = some (.node [] [] [] [(key, .condition condition)]) := by
  refine read?_single hkey ?_
  simp [Filter.readEntries?, hkey, h, hcondition]

/-- Only what is neither is read as a filter on related rows. -/
theorem read?_related {inner : Filter} (h : Value.ofJson? json = none)
    (hcondition : Condition.ofJson? json = none) (hinner : Filter.read? json = some inner) :
    Filter.read? (.object [(key, json)]) = some (.node [] [] [] [(key, .related inner)]) := by
  refine read?_single hkey ?_
  simp [Filter.readEntries?, hkey, h, hcondition, hinner]

/-- A document that names a column of a relation with a scalar: without the column's name as an
operator that takes the scalar it is a filter on the related rows. -/
theorem ofJson?_related {column : String} (hcolumn : column ∉ Filter.combinators) {value : Value}
    (h : Value.ofJson? json = some value) (htakes : Condition.takes column value = false) :
    Filter.ofJson? (.object [(key, .object [(column, json)])]) =
      some (.node [] [] [] [(key, .related (.node [] [] [] [(column, .literal value)]))]) := by
  have hnone : Condition.ofJson? (.object [(column, json)]) = none := by
    rw [← Option.not_isSome_iff_eq_none, ofJson?_single_isSome h, htakes]
    exact Bool.false_ne_true
  rw [Filter.ofJson?, sound?, if_pos (isSound_nested h)]
  exact read?_related hkey rfl hnone (read?_literal hcolumn h)

/-- With such an operator it is a condition. -/
theorem ofJson?_condition {column : String} {value : Value} (h : Value.ofJson? json = some value)
    (htakes : Condition.takes column value = true) :
    ∃ condition, Filter.ofJson? (.object [(key, .object [(column, json)])]) =
      some (.node [] [] [] [(key, .condition condition)]) := by
  rw [← ofJson?_single_isSome h] at htakes
  obtain ⟨condition, hcondition⟩ := Option.isSome_iff_exists.mp htakes
  refine ⟨condition, ?_⟩
  rw [Filter.ofJson?, sound?, if_pos (isSound_nested h)]
  exact read?_condition hkey rfl hcondition

end Entries

/-! ### What an existence requires -/

section Required

variable {db : Database} {bindings : Bindings}

/-- Both sides of a true conjunction are true. -/
theorem truth_and {left right : Expr} (h : (left.and right).truth db bindings = .ok (some true)) :
    left.truth db bindings = .ok (some true) ∧ right.truth db bindings = .ok (some true) := by
  unfold Expr.truth Expr.and at *
  rw [Expr.eval] at h
  cases hleft : left.eval db bindings with
  | error error =>
      rw [hleft] at h
      cases h
  | ok l =>
      rw [hleft] at h
      by_cases hdecide : l.truth = Connective.and.deciding
      · simp only [hdecide, bind, Except.bind, pure, Except.pure, if_true] at h
        cases h
      · cases hright : right.eval db bindings with
        | error error =>
            simp only [hdecide, hright, bind, Except.bind, if_false] at h
            cases h
        | ok r =>
            simp only [hdecide, hright, bind, Except.bind, pure, Except.pure, if_false,
              truth_truthValue, Except.ok.injEq] at h
            obtain ⟨hl, hr⟩ := both_eq_true_iff.mp h
            simp only [bind, Except.bind, pure, Except.pure, hl, hr, and_self]

/-- Where a statement with one more condition keeps a row, the condition is true of it. -/
theorem keptBy_andWhere {statement : Select} {condition : Expr}
    (h : KeptBy db (statement.andWhere condition).filter bindings) :
    KeptBy db statement.filter bindings ∧ condition.truth db bindings = .ok (some true) := by
  have htrue := h _ rfl
  cases hfilter : statement.filter with
  | none =>
      rw [hfilter] at htrue
      exact ⟨nofun, htrue⟩
  | some known =>
      rw [hfilter] at htrue
      obtain ⟨hknown, hcondition⟩ := truth_and htrue
      refine ⟨?_, hcondition⟩
      rintro _ ⟨⟩
      exact hknown

/-- Rows that are kept are among the rows, and their predicate is true of them. -/
theorem keptBy_of_keepRows {predicate : Option Expr} {rows kept : List Bindings}
    {outer : Bindings} (h : keepRows db predicate rows outer = .ok kept) {tuple : Bindings}
    (htuple : tuple ∈ kept) : tuple ∈ rows ∧ KeptBy db predicate (tuple ++ outer) := by
  cases predicate with
  | none =>
      cases h
      exact ⟨htuple, nofun⟩
  | some condition =>
      rw [keepRows] at h
      obtain ⟨hmem, htest⟩ := mem_of_filterM_ok h htuple
      refine ⟨hmem, ?_⟩
      rintro _ ⟨⟩
      cases heval : condition.eval db (tuple ++ outer) with
      | error error =>
          rw [heval] at htest
          cases htest
      | ok value =>
          rw [heval] at htest
          rw [Expr.truth_ok heval, of_decide_eq_true (Except.ok.inj htest)]

/-- Where there is a row under a predicate and a condition, both are true of a row of the table. -/
theorem exists_of_truth {table label : String} {predicate : Option Expr} {condition : Expr}
    (h : (Expr.exists ((({ table, label := some label } : Select).andWhere? predicate).andWhere
      condition)).truth db bindings = .ok (some true)) :
    ∃ other ∈ db.rows table, KeptBy db predicate ((label, some other) :: bindings) ∧
      condition.truth db ((label, some other) :: bindings) = .ok (some true) := by
  have hbare : ({ table, label := some label } : Select).andWhere? predicate =
      { table, label := some label, filter := predicate } := by
    cases predicate <;> rfl
  let statement : Select := { table, label := some label, filter := predicate }
  have hselected : selectRows db (statement.andWhere condition) bindings =
      keepRows db (statement.andWhere condition).filter
        ((db.rows table).map fun row => [(label, some row)]) bindings := selectRows_table _ _ _
  rw [hbare, Expr.truth, Expr.eval, hselected] at h
  cases hkept : keepRows db (statement.andWhere condition).filter
      ((db.rows table).map fun row => [(label, some row)]) bindings with
  | error error =>
      rw [hkept] at h
      cases h
  | ok rows =>
      rw [hkept] at h
      cases rows with
      | nil => cases h
      | cons tuple rest =>
          obtain ⟨hmem, hfilter⟩ := keptBy_of_keepRows hkept List.mem_cons_self
          obtain ⟨other, hother, rfl⟩ := List.mem_map.mp hmem
          exact ⟨other, hother, keptBy_andWhere hfilter⟩

/-- Where the existence of a related row is true, the predicate on related rows is true of one,
whatever the qualifier stands for.  The label of the junction is visible around the target's row as
well. -/
theorem existence_requires {relation : Relation} {qualifier target label : String}
    {predicate : Option Expr} {n : Nat}
    (h : (existence relation qualifier target label predicate n).1.truth db bindings =
      .ok (some true)) :
    ∃ around, ∃ other ∈ db.rows target, KeptBy db predicate ((label, some other) :: around) := by
  unfold existence at h
  cases hjunction : relation.junction with
  | none =>
      rw [hjunction] at h
      obtain ⟨other, hother, hkept, -⟩ := exists_of_truth h
      exact ⟨bindings, other, hother, hkept⟩
  | some junction =>
      rw [hjunction] at h
      obtain ⟨link, -, -, hlinked⟩ := @exists_of_truth db bindings junction.table _
        (some (columnsEqual ⟨subLabel junction.table (n + 1), junction.fromColumn⟩
          ⟨qualifier, relation.fromColumn⟩)) _ h
      obtain ⟨other, hother, hkept, -⟩ := exists_of_truth hlinked
      exact ⟨_, other, hother, hkept⟩

end Required

/-! ### Compiling -/

/-- The predicate asks for a related row whose column equals the value, or is null where the value
is: it is true only where there is a row of the target like that, and it is true of a row exactly
if such a row is linked to it, unless its labels hide the row. -/
structure AsksFor (relation : Relation) (column : String) (value : Value) (qualifier : String)
    (n : Nat) (condition : Expr) : Prop where
  subquery : ∃ statement, condition = .exists statement
  requires : ∀ db bindings, condition.truth db bindings = .ok (some true) →
    ∃ other ∈ Database.rows db relation.target,
      equalityTruth (other.value column) value false = some true
  means : ∀ db bindings row, bindings.lookup qualifier = some (some row) → Unused qualifier n →
    Means db bindings condition (some ((Database.rows db relation.target).any fun other =>
      relation.links db row other &&
        equalityTruth (other.value column) value false == some true))

/-- Under its label the test of a column says whether the column of the row equals the value. -/
theorem means_labelled {db : Database} (label column : String) (value : Value) (other : Row)
    (around : Bindings) :
    Means db ((label, some other) :: around) (equality (.col label column) value false)
      (equalityTruth (other.value column) value false) := by
  refine means_equality ?_ value false
  rw [Expr.col, Expr.eval]
  exact reads_label label other column

/-- The existence of a related row whose column equals a value asks for one. -/
theorem asksFor_existence (relation : Relation) (column : String) (value : Value)
    (qualifier : String) (n : Nat) :
    let label := subLabel relation.name (n + 1)
    AsksFor relation column value qualifier n (existence relation qualifier relation.target label
      (some (equality (.col label column) value false)) (n + 1)).1 := by
  intro label
  constructor
  case subquery =>
    unfold existence
    cases relation.junction <;> exact ⟨_, rfl⟩
  case requires =>
    intro db bindings htrue
    obtain ⟨around, other, hother, hkept⟩ := existence_requires htrue
    have hkeeps := (keptBy_iff_keeps (.some (means_labelled label column value other around))).mp hkept
    exact ⟨other, hother, beq_iff_eq.mp hkeeps⟩
  case means =>
    intro db bindings row hrow hunused
    refine existence_means (reads_of_some hrow) (hunused _ _ (Nat.lt_succ_self n)) ?_
      fun around other => .some (means_labelled label column value other around)
    intro base
    refine ⟨Ne.symm (hunused base _ (by omega)), fun heq => ?_⟩
    have hnumber := (subLabel_injective heq).1
    omega

/-- A filter on one column of a relation that is not joined is the existence of a related row. -/
theorem relationPredicate?_literal {schema : Schema} {relation : Relation} {target : Table}
    (htarget : schema.table? relation.target = some target) (hname : target.name = relation.target)
    {column : String} (hcolumn : target.hasColumn column = true) {joined : JoinedTables}
    (hjoined : joined.lookup relation.name = none) (value : Value) (qualifier : String) (n : Nat) :
    let label := subLabel relation.name (n + 1)
    (relationPredicate? schema (.related (.node [] [] [] [(column, .literal value)])) relation
      qualifier joined n).1 = some (existence relation qualifier relation.target label
        (some (equality (.col label column) value false)) (n + 1)).1 := by
  simp only [relationPredicate?, hjoined, htarget, Filter.predicate?_literal hcolumn, hname]

/-- **Scalars of related rows.**  Let a relation of a table, under a name that is no column of it and
not joined, lead to a table with a column, and neither name be that of a combinator.  A document
that names the relation and in it the column with a scalar is a filter.  It has no predicate exactly
if the column has the name of an operator that takes the scalar; else its predicate asks for a
related row whose column equals the scalar. -/
theorem related_scalar_filter {schema : Schema} (h : schema.Reachable) {name : String} {table : Table}
    (hknown : schema.table? name = some table) {key : String} {relation : Relation}
    (hrelation : table.relation? key = some relation) (hfree : table.hasColumn key = false)
    (hkey : key ∉ Filter.combinators) {column : String}
    (hcolumn : schema.hasColumn relation.target column = true)
    (hplain : column ∉ Filter.combinators) {json : Json} {value : Value}
    (hvalue : Value.ofJson? json = some value) {joined : JoinedTables}
    (hjoined : joined.lookup key = none) (qualifier : String) (n : Nat) :
    ∃ filter, Filter.ofJson? (.object [(key, .object [(column, json)])]) = some filter ∧
      let predicate := (schema.predicate? name qualifier (some filter) joined n).1
      (predicate = none ↔ Condition.takes column value = true) ∧
      ∀ condition, predicate = some condition →
        AsksFor relation column value qualifier n condition := by
  have hcompiled := Schema.predicate?_related hknown hfree hrelation
  cases htakes : Condition.takes column value with
  | true =>
      obtain ⟨condition, hread⟩ := ofJson?_condition hkey hvalue htakes
      refine ⟨_, hread, ?_⟩
      rw [hcompiled]
      simp [relationPredicate?]
  | false =>
      refine ⟨_, ofJson?_related hkey hplain hvalue htakes, ?_⟩
      obtain ⟨target, htarget, -⟩ := (h.consistent.resolves hknown hrelation).target
      have hname := h.consistent.relation_name hknown hrelation
      have hhas : target.hasColumn column = true := by
        simpa [Schema.hasColumn, htarget] using hcolumn
      rw [hcompiled, relationPredicate?_literal htarget (h.consistent.table_name htarget) hhas
        (hname ▸ hjoined)]
      refine ⟨by simp, ?_⟩
      rintro _ ⟨⟩
      exact asksFor_existence relation column value qualifier n

/-- Owners and their boxes, of which each says what it contains. -/
def boxTables : List TableDecl :=
  [{ name := "Owner", columns := [{ name := "id", type := .integer, primary := true }] },
   { name := "Box"
     columns := [{ name := "id", type := .integer, primary := true }, { name := "contains" },
       { name := "ownerId", type := .integer, references := some ⟨"Owner", "id"⟩ }] }]

/-- An owner with a box of tea, and one without a box. -/
def boxRows : Database :=
  [("Box", [[("contains", .text "tea"), ("id", .integer 7), ("ownerId", .integer 1)]]),
   ("Owner", [[("id", .integer 1)], [("id", .integer 2)]])]

/-- A filter on the number of a box asks for a box with that number. -/
theorem related_scalar_filter_boxes :
    (Schema.ofDecls boxTables).Reachable ∧
      ∃ filter, Filter.ofJson? (.object [("boxes", .object [("id", .integer 7)])]) = some filter ∧
        ∃ condition, ((Schema.ofDecls boxTables).predicate? "Owner" "Owner" (some filter) [] 0).1 =
          some condition ∧ ∀ db bindings, condition.truth db bindings = .ok (some true) →
            ∃ other ∈ Database.rows db "Box",
              equalityTruth (other.value "id") (.integer 7) false = some true := by
  have hreachable : (Schema.ofDecls boxTables).Reachable := Schema.Reachable.fresh.scan boxTables
  have hfacts : ((Schema.ofDecls boxTables).table? "Owner").any (fun table =>
      !table.hasColumn "boxes" && (table.relation? "boxes").any (·.target == "Box")) = true := by
    decide +kernel
  obtain ⟨table, hknown, htable⟩ := (Option.any_eq_true _ _).mp hfacts
  obtain ⟨hfree, hrelated⟩ := Bool.and_eq_true_iff.mp htable
  obtain ⟨relation, hrelation, htarget⟩ := (Option.any_eq_true _ _).mp hrelated
  have hbox : relation.target = "Box" := beq_iff_eq.mp htarget
  have hcolumn : (Schema.ofDecls boxTables).hasColumn relation.target "id" = true := by
    rw [hbox]
    decide +kernel
  have hvalue : Value.ofJson? (.integer 7) = some (.integer 7) := rfl
  have hjoined : ([] : JoinedTables).lookup "boxes" = none := rfl
  obtain ⟨filter, hread, hlost, hasks⟩ := related_scalar_filter hreachable hknown hrelation
    (by simpa using hfree) (by decide) hcolumn (by decide) hvalue hjoined "Owner" 0
  refine ⟨hreachable, filter, hread, ?_⟩
  cases hpredicate : ((Schema.ofDecls boxTables).predicate? "Owner" "Owner" (some filter) [] 0).1 with
  | none => exact absurd (hlost.mp hpredicate) (by decide)
  | some condition =>
      refine ⟨condition, rfl, ?_⟩
      rw [← hbox]
      exact (hasks condition hpredicate).requires

/-- A filter on what a box contains is lost: read as a condition, it constrains nothing, and the owner
without a box is found too. -/
theorem box_filter_lost :
    let engine : Engine := ⟨Schema.ofDecls boxTables, {}⟩
    let filter : Filter := .node [] [] [] [("boxes", .condition (.only { contains := some "tea" }))]
    Filter.ofJson? (.object [("boxes", .object [("contains", .string "tea")])]) = some filter ∧
      (engine.schema.predicate? "Owner" "Owner" (some filter) [] 0).1 = none ∧
      ((engine.findMany "Owner" { filter := some filter, strategy := some .query }).hold
        Database.source boxRows).result.toOption.map (List.map (·.scalar "id")) =
          some [.integer 1, .integer 2] := by
  refine ⟨rfl, rfl, ?_⟩
  decide +kernel

end NestedQuery
