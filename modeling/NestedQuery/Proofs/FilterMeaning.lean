import NestedQuery.Proofs.FilterReading
import NestedQuery.Proofs.Labels
import NestedQuery.Proofs.Reachability
import Mathlib.Data.List.Forall2

/-!
# Filters are compiled as they read

The predicate of a filter has, at a row, the truth value that the filter reads
as, and there is no predicate exactly where the filter says nothing.  The
induction is on the filter, in any surroundings that bind its qualifier to the
row.  A filter on a relation is compiled to statements inside the predicate,
under labels with higher numbers than any used around them; so a label never
hides the qualifier that the link refers to, nor the row that the inner filter
is about.
-/

namespace NestedQuery

/-! ### Truth values of lists -/

/-- Conjunction is associative on truth values. -/
theorem both_assoc (a b c : Option Bool) : both (both a b) c = both a (both b c) := by
  rcases a with _ | _ | _ <;> rcases b with _ | _ | _ <;> rcases c with _ | _ | _ <;> rfl

/-- So is disjunction. -/
theorem either_assoc (a b c : Option Bool) : either (either a b) c = either a (either b c) := by
  rcases a with _ | _ | _ <;> rcases b with _ | _ | _ <;> rcases c with _ | _ | _ <;> rfl

theorem both_true (a : Option Bool) : both a (some true) = a := by
  rcases a with _ | _ | _ <;> rfl

theorem true_both (a : Option Bool) : both (some true) a = a := by
  rcases a with _ | _ | _ <;> rfl

theorem either_false (a : Option Bool) : either a (some false) = a := by
  rcases a with _ | _ | _ <;> rfl

/-- A conjunction is true exactly if both sides are. -/
theorem both_eq_true_iff {a b : Option Bool} :
    both a b = some true ↔ a = some true ∧ b = some true := by
  rcases a with _ | _ | _ <;> rcases b with _ | _ | _ <;> simp [both]

/-- Connecting from the left or from the right is the same for an associative connective. -/
theorem foldl_connect {op : Option Bool → Option Bool → Option Bool} {unit : Option Bool}
    (hassoc : ∀ a b c, op (op a b) c = op a (op b c)) (hunit : ∀ a, op a unit = a)
    (first : Option Bool) (rest : List (Option Bool)) :
    rest.foldl op first = (first :: rest).foldr op unit := by
  induction rest generalizing first with
  | nil => exact (hunit first).symm
  | cons next others ih => rw [List.foldl_cons, ih, List.foldr_cons, List.foldr_cons,
      List.foldr_cons, hassoc]

/-- What some values say together may be said in their place. -/
theorem conjoin_flatten (before some after : List (Option Bool)) :
    conjoin (before ++ (conjoin some).toList ++ after) = conjoin (before ++ some ++ after) := by
  have hfold : ∀ one other : List (Option Bool), (one ++ other).foldr both (.some true) =
      both (one.foldr both (.some true)) (other.foldr both (.some true)) := by
    intro one other
    induction one with
    | nil => rw [List.nil_append, List.foldr_nil, true_both]
    | cons truth rest ih => rw [List.cons_append, List.foldr_cons, List.foldr_cons, ih, both_assoc]
  cases some with
  | nil => rfl
  | cons truth rest =>
      have hsome : ∀ truths : List (Option Bool), truths ≠ [] →
          conjoin truths = .some (truths.foldr both (.some true)) := by
        intro truths hne
        cases truths with
        | nil => exact absurd rfl hne
        | cons first others => rfl
      rw [hsome (truth :: rest) (by simp), hsome _ (by simp), hsome _ (by simp), hfold, hfold,
        hfold, hfold, Option.toList_some, List.foldr_cons, List.foldr_nil, both_true]

/-! ### Expressions and what they mean -/

/-- The expression has the truth value. -/
def Means (db : Database) (bindings : Bindings) (expr : Expr) (truth : Option Bool) : Prop :=
  expr.eval db bindings = .ok (truthValue truth)

section Connectives

variable {db : Database} {bindings : Bindings}

/-- Connecting two expressions connects their truth values, also where the first decides. -/
theorem means_connect {left right : Expr} {a b : Option Bool} (op : Connective)
    (hleft : Means db bindings left a) (hright : Means db bindings right b) :
    Means db bindings (.connect left op right) (op.apply a b) := by
  have hdecide : a = op.deciding → op.apply a b = op.deciding := by
    intro heq
    cases op <;> subst heq <;> rcases b with _ | _ | _ <;> rfl
  unfold Means at *
  rw [Expr.eval, hleft, hright]
  simp only [bind, Except.bind, pure, Except.pure, truth_truthValue]
  split
  · next heq => rw [hdecide heq]
  · rfl

/-- The negation of a predicate means the negation of what it means. -/
theorem means_not {inner : Expr} {a : Option Bool} (h : Means db bindings inner a) :
    Means db bindings (.not inner) (a.map (!·)) := by
  unfold Means at *
  rw [Expr.eval, h]
  simp [bind, Except.bind, pure, Except.pure]

/-- Connected from the left, expressions mean what their truth values give from the left. -/
theorem means_foldl {first : Expr} {truth : Option Bool} {parts : List Expr}
    {truths : List (Option Bool)} (op : Connective) (hfirst : Means db bindings first truth)
    (h : List.Forall₂ (Means db bindings) parts truths) :
    Means db bindings (parts.foldl (fun left right => .connect left op right) first)
      (truths.foldl op.apply truth) := by
  induction h generalizing first truth with
  | nil => exact hfirst
  | cons hpart _ ih => exact ih (means_connect op hfirst hpart)

/-- A conjunction means the conjunction, and there is none exactly if nothing is said. -/
theorem conjunction?_means {parts : List Expr} {truths : List (Option Bool)}
    (h : List.Forall₂ (Means db bindings) parts truths) :
    Option.Rel (Means db bindings) (Expr.conjunction? parts) (conjoin truths) := by
  cases h with
  | nil => exact Option.Rel.none
  | cons hfirst hrest =>
      refine Option.Rel.some ?_
      rw [← foldl_connect both_assoc both_true]
      exact means_foldl .and hfirst hrest

/-- A disjunction means the disjunction of what its parts mean. -/
theorem disjunction?_means {parts : List Expr} {truths : List (Option Bool)}
    (h : List.Forall₂ (Means db bindings) parts truths) :
    Option.Rel (Means db bindings) (Expr.disjunction? parts) (disjoin truths) := by
  cases h with
  | nil => exact Option.Rel.none
  | cons hfirst hrest =>
      refine Option.Rel.some ?_
      rw [← foldl_connect either_assoc either_false]
      exact means_foldl .or hfirst hrest

/-- A predicate that may be absent is negated with its meaning. -/
theorem map_not_means {condition : Option Expr} {reading : Option (Option Bool)}
    (h : Option.Rel (Means db bindings) condition reading) :
    Option.Rel (Means db bindings) (condition.map .not)
      (reading.map fun truth => truth.map (!·)) := by
  cases h with
  | none => exact Option.Rel.none
  | some hmeans => exact Option.Rel.some (means_not hmeans)

/-- It is a list of parts with their meanings. -/
theorem toList_means {condition : Option Expr} {reading : Option (Option Bool)}
    (h : Option.Rel (Means db bindings) condition reading) :
    List.Forall₂ (Means db bindings) condition.toList reading.toList := by
  cases h with
  | none => exact List.Forall₂.nil
  | some hmeans => exact List.Forall₂.cons hmeans List.Forall₂.nil

end Connectives

/-! ### Conditions on a column -/

section Conditions

variable {db : Database} {bindings : Bindings} {target : Expr} {value : Value}

/-- A comparison with a constant. -/
theorem means_compare (h : target.eval db bindings = .ok value) (op : Comparison)
    (constant : Value) :
    Means db bindings (.compare target op (.literal constant))
      ((value.compare constant).map op.holds) := by
  unfold Means
  rw [Expr.eval, h]
  rfl

/-- The test for null means whether the value is null. -/
theorem means_isNull (h : target.eval db bindings = .ok value) (negated : Bool) :
    Means db bindings (.isNull target negated) (some (value.isNull != negated)) := by
  unfold Means
  rw [Expr.eval, h]
  rfl

/-- A test for equality means what it says. -/
theorem means_equality (h : target.eval db bindings = .ok value) (constant : Value)
    (negated : Bool) :
    Means db bindings (equality target constant negated)
      (equalityTruth value constant negated) := by
  unfold equality equalityTruth
  split
  · exact means_isNull h negated
  · have hcompare := means_compare h (if negated then .ne else .eq) constant
    have hholds : (if negated then Comparison.ne else .eq).holds =
        fun order => (order == .eq) != negated := by
      funext order
      cases negated <;> cases order <;> rfl
    rw [hholds] at hcompare
    exact hcompare

/-- The tests of membership mean whether the value is among the constants. -/
theorem membership_means (h : target.eval db bindings = .ok value) (type : ColumnType)
    (constants : Option (List Value)) (negated : Bool) :
    List.Forall₂ (Means db bindings) (membership type target constants negated)
      (membershipTruths type value constants negated) := by
  unfold membership membershipTruths
  cases constants with
  | none => exact List.Forall₂.nil
  | some constants =>
      dsimp only
      split
      · exact List.Forall₂.nil
      · split
        · split
          · exact List.Forall₂.nil
          · exact List.Forall₂.cons rfl List.Forall₂.nil
        · refine List.Forall₂.cons ?_ List.Forall₂.nil
          unfold Means
          rw [Expr.eval, h]
          rfl

/-- The tests of order mean how the value compares with the constant. -/
theorem range_means (h : target.eval db bindings = .ok value) (type : ColumnType)
    (op : Comparison) (constant : Option Value) :
    List.Forall₂ (Means db bindings) (range type target op constant)
      (rangeTruths type value op constant) := by
  unfold range rangeTruths
  cases constant with
  | none => exact List.Forall₂.nil
  | some constant =>
      dsimp only
      split
      · exact List.Forall₂.cons (means_compare h op constant) List.Forall₂.nil
      · exact List.Forall₂.nil

/-- A pattern made of a text means that the text stands in the value. -/
theorem textMatch_means (h : target.eval db bindings = .ok value) (type : ColumnType)
    (insensitive before after : Bool) (needle : Option String) :
    List.Forall₂ (Means db bindings) (textMatch type target insensitive before after needle)
      (textTruths type value insensitive before after needle) := by
  unfold textMatch textTruths
  cases needle with
  | none => exact List.Forall₂.nil
  | some needle =>
      dsimp only
      split
      · refine List.Forall₂.cons ?_ List.Forall₂.nil
        have hlike : value.isLike (Like.pattern before after needle) insensitive =
            textTruth value insensitive before after needle := by
          cases value <;> simp [Value.isLike, textTruth, Like.isMatch_pattern]
        unfold Means
        rw [Expr.eval, h, ← hlike]
        rfl
      · exact List.Forall₂.nil

/-- The tests of a condition mean what they say. -/
theorem tests_mean (h : target.eval db bindings = .ok value) (tests : Tests)
    (type : ColumnType) :
    List.Forall₂ (Means db bindings) (tests.leading target) (tests.leadingTruths value) ∧
      List.Forall₂ (Means db bindings) (tests.trailing type target)
        (tests.trailingTruths type value) := by
  constructor
  · have hnull : List.Forall₂ (Means db bindings)
        (tests.isNull.map fun asked => Expr.isNull target !asked).toList
        (tests.isNull.map fun asked => some (value.isNull == asked)).toList := by
      cases tests.isNull with
      | none => exact List.Forall₂.nil
      | some asked =>
          have heq : (value.isNull == asked) = (value.isNull != !asked) := by
            cases value.isNull <;> cases asked <;> rfl
          have hmeans := means_isNull h (!asked)
          rw [← heq] at hmeans
          exact List.Forall₂.cons hmeans List.Forall₂.nil
    have hnotNull : List.Forall₂ (Means db bindings)
        (tests.isNotNull.map fun asked => Expr.isNull target asked).toList
        (tests.isNotNull.map fun asked => some (value.isNull != asked)).toList := by
      cases tests.isNotNull with
      | none => exact List.Forall₂.nil
      | some asked => exact List.Forall₂.cons (means_isNull h asked) List.Forall₂.nil
    have hequals : List.Forall₂ (Means db bindings)
        (tests.equals.map fun constant => equality target constant false).toList
        (tests.equals.map fun constant => equalityTruth value constant false).toList := by
      cases tests.equals with
      | none => exact List.Forall₂.nil
      | some constant => exact List.Forall₂.cons (means_equality h constant false) List.Forall₂.nil
    exact List.rel_append (List.rel_append hnull hnotNull) hequals
  · have hmembers := List.rel_append (membership_means h type tests.oneOf false)
      (membership_means h type tests.noneOf true)
    have hranges := List.rel_append (List.rel_append (List.rel_append (List.rel_append hmembers
      (range_means h type .lt tests.lt)) (range_means h type .le tests.lte))
      (range_means h type .gt tests.gt)) (range_means h type .ge tests.gte)
    exact List.rel_append (List.rel_append (List.rel_append hranges
      (textMatch_means h type _ true true tests.contains))
      (textMatch_means h type _ false true tests.startsWith))
      (textMatch_means h type _ true false tests.endsWith)

/-- The predicate of a condition means what the condition says of the value. -/
theorem Condition.predicate?_means (h : target.eval db bindings = .ok value) (type : ColumnType)
    (condition : Condition) :
    Option.Rel (Means db bindings) (condition.predicate? type target)
      (condition.reading type value) := by
  induction condition with
  | only tests =>
      obtain ⟨hleading, htrailing⟩ := tests_mean h tests type
      exact conjunction?_means (List.rel_append hleading htrailing)
  | butNot tests constant =>
      obtain ⟨hleading, htrailing⟩ := tests_mean h tests type
      exact conjunction?_means
        (List.rel_append hleading (List.Forall₂.cons (means_equality h constant true) htrailing))
  | butNotWhen tests inner ih =>
      obtain ⟨hleading, htrailing⟩ := tests_mean h tests type
      exact conjunction?_means
        (List.rel_append (List.rel_append hleading (toList_means (map_not_means ih))) htrailing)

end Conditions

/-- The columns under a qualifier have the values of a row. -/
def Reads (bindings : Bindings) (qualifier : String) (row : Row) : Prop :=
  ∀ column, bindings.value ⟨qualifier, column⟩ = .ok (row.value column)

/-- A row is read under the qualifier that it is bound to. -/
theorem reads_of_some {bindings : Bindings} {qualifier : String} {row : Row}
    (h : bindings.lookup qualifier = some (some row)) : Reads bindings qualifier row :=
  Bindings.value_of_some h

/-- The predicate of an entry on a column means what the entry says of the row. -/
theorem Operand.columnPredicate?_means {db : Database} {bindings : Bindings}
    {qualifier : String} {row : Row} (h : Reads bindings qualifier row)
    (operand : Operand) (column : Column) :
    Option.Rel (Means db bindings) (operand.columnPredicate? column qualifier)
      (operand.columnReading column row) := by
  have hcolumn : (Expr.col qualifier column.name).eval db bindings =
      .ok (row.value column.name) := by
    rw [Expr.col, Expr.eval]
    exact h column.name
  cases operand with
  | literal constant => exact Option.Rel.some (means_equality hcolumn constant false)
  | condition operators => exact Condition.predicate?_means hcolumn column.type operators
  | related filter => exact Option.Rel.none

/-! ### Counting labels -/

section Counting

variable (schema : Schema)

/-- The existence of a related row uses at most one more label. -/
theorem existence_count (relation : Relation) (qualifier target label : String)
    (predicate : Option Expr) (n : Nat) :
    n ≤ (existence relation qualifier target label predicate n).2 := by
  unfold existence
  cases relation.junction with
  | none => exact Nat.le_refl n
  | some junction => exact Nat.le_succ n

mutual

/-- Compiling a filter never gives a label back. -/
theorem Filter.predicate?_count : ∀ (filter : Filter) (table : Table) (qualifier : String)
    (joined : JoinedTables) (n : Nat),
      n ≤ (filter.predicate? schema table qualifier joined n).2
  | .node allOf anyOf noneOf entries, table, qualifier, joined, n => by
      rw [Filter.predicate?]
      exact ((entryPredicates_count entries table qualifier joined n).trans
        (filterPredicates_count allOf table qualifier joined _)).trans
        ((filterPredicates_count anyOf table qualifier joined _).trans
          (filterPredicates_count noneOf table qualifier joined _))

/-- The counter never falls over several filters. -/
theorem filterPredicates_count : ∀ (filters : List Filter) (table : Table) (qualifier : String)
    (joined : JoinedTables) (n : Nat),
      n ≤ (filterPredicates schema filters table qualifier joined n).2
  | [], _, _, _, n => by
      rw [filterPredicates]
  | filter :: rest, table, qualifier, joined, n => by
      rw [filterPredicates]
      exact (Filter.predicate?_count filter table qualifier joined n).trans
        (filterPredicates_count rest table qualifier joined _)

/-- Neither does it over the entries of a filter. -/
theorem entryPredicates_count : ∀ (entries : List (String × Operand)) (table : Table)
    (qualifier : String) (joined : JoinedTables) (n : Nat),
      n ≤ (entryPredicates schema entries table qualifier joined n).2
  | [], _, _, _, n => by
      rw [entryPredicates]
  | (key, operand) :: rest, table, qualifier, joined, n => by
      rw [entryPredicates]
      refine Nat.le_trans ?_ (entryPredicates_count rest table qualifier joined _)
      split
      · exact Nat.le_refl n
      · exact relationPredicate?_count operand _ qualifier joined n
      · exact Nat.le_refl n

/-- Neither does it over the condition of a relation. -/
theorem relationPredicate?_count : ∀ (operand : Operand) (relation : Relation)
    (qualifier : String) (joined : JoinedTables) (n : Nat),
      n ≤ (relationPredicate? schema operand relation qualifier joined n).2
  | .related inner, relation, qualifier, joined, n => by
      rw [relationPredicate?]
      split
      · split
        · exact Filter.predicate?_count inner _ _ _ n
        · exact Nat.le_refl n
      · split
        · exact ((Nat.le_succ n).trans (Filter.predicate?_count inner _ _ _ (n + 1))).trans
            (existence_count _ _ _ _ _ _)
        · exact Nat.le_refl n
  | .literal _, _, _, _, n => by
      rw [relationPredicate?]
      simp
  | .condition _, _, _, _, n => by
      rw [relationPredicate?]
      simp

end

end Counting

/-! ### Related rows -/

section Related

variable {db : Database} {bindings : Bindings}

/-- Two columns are equal as their values are. -/
theorem means_columnsEqual {left right : ColumnRef} {a b : Value}
    (hleft : bindings.value left = .ok a) (hright : bindings.value right = .ok b) :
    Means db bindings (columnsEqual left right)
      ((a.compare b).map Comparison.eq.holds) := by
  unfold Means columnsEqual
  rw [Expr.eval, Expr.eval, Expr.eval, hleft, hright]
  rfl

/-- Two values compare as equal exactly if they are equal in the sense of the statements. -/
theorem map_eq_holds (a b : Value) :
    ((a.compare b).map Comparison.eq.holds == some true) = a.sqlEq b := by
  unfold Value.sqlEq
  cases a.compare b with
  | none => rfl
  | some order => cases order <;> rfl

/-- What a statement says of its rows: its filter and one more condition. -/
def withCondition (reading : Option (Option Bool)) (truth : Option Bool) : Option Bool :=
  match reading with
  | none => truth
  | some said => both said truth

/-- A condition is true beside a reading exactly if the reading keeps the row and it is true
itself. -/
theorem withCondition_eq_true_iff {reading : Option (Option Bool)} {truth : Option Bool} :
    withCondition reading truth = some true ↔ keeps reading = true ∧ truth = some true := by
  cases reading with
  | none => simp [withCondition, keeps]
  | some said => simp [withCondition, keeps, both_eq_true_iff]

/-- Rows are kept as the reading of the predicate says. -/
theorem keepRows_means {α : Type} {items : List α} {bind : α → Bindings} {outer : Bindings}
    {predicate : Option Expr} {reading : α → Option (Option Bool)}
    (h : ∀ item ∈ items, Option.Rel (Means db (bind item ++ outer)) predicate (reading item)) :
    keepRows db predicate (items.map bind) outer =
      .ok ((items.filter fun item => keeps (reading item)).map bind) := by
  cases predicate with
  | none =>
      have hall : ∀ item ∈ items, keeps (reading item) = true := by
        intro item hitem
        have hnone := h item hitem
        generalize reading item = said at hnone
        cases hnone
        rfl
      rw [keepRows, List.filter_eq_self.mpr hall]
      rfl
  | some condition =>
      have htruth : ∀ item ∈ items, ∃ truth, reading item = some truth ∧
          condition.eval db (bind item ++ outer) = .ok (truthValue truth) := by
        intro item hitem
        have hsome := h item hitem
        generalize reading item = said at hsome
        cases hsome with
        | some hmeans => exact ⟨_, rfl, hmeans⟩
      have hvalue : ∀ row ∈ items.map bind,
          ∃ value, condition.eval db (row ++ outer) = .ok value := by
        intro row hrow
        obtain ⟨item, hitem, rfl⟩ := List.mem_map.mp hrow
        obtain ⟨truth, -, heval⟩ := htruth item hitem
        exact ⟨_, heval⟩
      rw [keepRows_ok hvalue, List.filter_map]
      congr 2
      refine List.filter_congr ?_
      intro item hitem
      obtain ⟨truth, hreading, heval⟩ := htruth item hitem
      have haccept : accepts (fun row => condition.truth db (row ++ outer)) (bind item) =
          decide ((truthValue truth).truth = some true) := accepts_of_ok (Expr.truth_ok heval)
      rw [Function.comp_apply, haccept, truth_truthValue, hreading, keeps, Bool.eq_iff_iff,
        decide_eq_true_iff, beq_iff_eq]

/-- A statement about one table selects the rows that its filter keeps. -/
theorem selectRows_table (table label : String) (filter : Option Expr) :
    selectRows db { table, label := some label, filter } bindings =
      keepRows db filter ((db.rows table).map fun row => [(label, some row)]) bindings := by
  rw [selectRows]
  simp only [joinAll, Option.getD_some, groupRows, sortRows, bind, Except.bind, pure, Except.pure]
  cases keepRows db filter ((db.rows table).map fun row => [(label, some row)]) bindings <;> rfl

/-- The rows of one table under a filter and one more condition are those of which both hold. -/
theorem selectRows_andWhere {table label : String} {predicate : Option Expr} {condition : Expr}
    {reading : Row → Option (Option Bool)} {truth : Row → Option Bool}
    (hpredicate : ∀ other, Option.Rel (Means db ((label, some other) :: bindings)) predicate
      (reading other))
    (hcondition : ∀ other, Means db ((label, some other) :: bindings) condition (truth other)) :
    selectRows db ((({ table, label := some label } : Select).andWhere? predicate).andWhere
        condition) bindings =
      .ok (((db.rows table).filter fun other =>
        keeps (reading other) && truth other == some true).map fun other =>
          [(label, some other)]) := by
  obtain ⟨full, hfull, hmeans⟩ : ∃ full, ((({ table, label := some label } : Select).andWhere?
      predicate).andWhere condition) = { table, label := some label, filter := some full } ∧
      ∀ other, Means db ((label, some other) :: bindings) full
        (withCondition (reading other) (truth other)) := by
    cases predicate with
    | none =>
        refine ⟨condition, rfl, ?_⟩
        intro other
        have hnone := hpredicate other
        generalize reading other = said at hnone
        cases hnone
        exact hcondition other
    | some known =>
        refine ⟨known.and condition, rfl, ?_⟩
        intro other
        have hsome := hpredicate other
        generalize reading other = said at hsome
        cases hsome with
        | some hknown => exact means_connect .and hknown (hcondition other)
  have hkept : keepRows db (some full) ((db.rows table).map fun other => [(label, some other)])
      bindings = .ok (((db.rows table).filter fun other =>
        keeps (some (withCondition (reading other) (truth other)))).map fun other =>
          [(label, some other)]) :=
    keepRows_means fun other _ => Option.Rel.some (hmeans other)
  have hkeeps : (fun other => keeps (some (withCondition (reading other) (truth other)))) =
      fun other => keeps (reading other) && truth other == some true := by
    funext other
    rw [keeps, Bool.eq_iff_iff, beq_iff_eq, withCondition_eq_true_iff, Bool.and_eq_true, beq_iff_eq]
  rw [hfull, selectRows_table, hkept, hkeeps]

/-- The existence of such a row means that both hold of one of the rows. -/
theorem means_exists {table label : String} {predicate : Option Expr} {condition : Expr}
    {reading : Row → Option (Option Bool)} {truth : Row → Option Bool}
    (hpredicate : ∀ other, Option.Rel (Means db ((label, some other) :: bindings)) predicate
      (reading other))
    (hcondition : ∀ other, Means db ((label, some other) :: bindings) condition (truth other)) :
    Means db bindings (.exists ((({ table, label := some label } : Select).andWhere?
        predicate).andWhere condition))
      (some ((db.rows table).any fun other =>
        keeps (reading other) && truth other == some true)) := by
  unfold Means
  rw [Expr.eval, selectRows_andWhere hpredicate hcondition]
  have hempty : ∀ (rows : List Row) (keep : Row → Bool) (bind : Row → Bindings),
      (!((rows.filter keep).map bind).isEmpty) = rows.any keep := by
    intro rows keep bind
    rw [Bool.eq_iff_iff]
    simp
  simp only [bind, Except.bind, pure, Except.pure, hempty, truthValue]

/-- The label of related rows is bound to the row, and other labels are as they were. -/
theorem reads_label (label : String) (other : Row) :
    Reads ((label, some other) :: bindings) label other :=
  reads_of_some (by rw [Dict.lookup_cons, if_pos rfl])

/-- A qualifier reads its row beneath another label, too. -/
theorem reads_beneath {qualifier label : String} {row other : Row}
    (hrow : Reads bindings qualifier row) (hne : qualifier ≠ label) :
    Reads ((label, some other) :: bindings) qualifier row := by
  intro column
  rw [← hrow column, Bindings.value, Bindings.value, Dict.lookup_cons, if_neg hne]

/-- The existence of a related row means that some linked row is kept by the inner filter. -/
theorem existence_means {relation : Relation} {qualifier target label : String}
    {predicate : Option Expr} {n : Nat} {row : Row} {reading : Row → Option (Option Bool)}
    (hrow : Reads bindings qualifier row) (hlabel : qualifier ≠ label)
    (hlink : ∀ base, subLabel base (n + 1) ≠ qualifier ∧ subLabel base (n + 1) ≠ label)
    (hpredicate : ∀ around other, Option.Rel (Means db ((label, some other) :: around)) predicate
      (reading other)) :
    Means db bindings (existence relation qualifier target label predicate n).1
      (some ((db.rows target).any fun other =>
        relation.links db row other && keeps (reading other))) := by
  unfold existence Relation.links
  cases relation.junction with
  | none =>
      have hexists : Means db bindings
          (.exists ((({ table := target, label := some label } : Select).andWhere?
            predicate).andWhere
              (columnsEqual ⟨label, relation.toColumn⟩ ⟨qualifier, relation.fromColumn⟩)))
          (some ((db.rows target).any fun other => keeps (reading other) &&
            ((other.value relation.toColumn).compare (row.value relation.fromColumn)).map
              Comparison.eq.holds == some true)) :=
        means_exists (fun other => hpredicate bindings other) fun other =>
          means_columnsEqual (reads_label label other relation.toColumn)
            (reads_beneath hrow hlabel relation.fromColumn)
      simp only [map_eq_holds] at hexists
      have hcomm : (fun other : Row =>
          (other.value relation.toColumn).sqlEq (row.value relation.fromColumn) &&
            keeps (reading other)) = fun other : Row => keeps (reading other) &&
          (other.value relation.toColumn).sqlEq (row.value relation.fromColumn) :=
        funext fun other => Bool.and_comm _ _
      dsimp only
      rw [hcomm]
      exact hexists
  | some junction =>
      have hlink := hlink junction.table
      dsimp only
      generalize subLabel junction.table (n + 1) = link at hlink ⊢
      have hinner : ∀ linking, Means db ((link, some linking) :: bindings)
          (.exists ((({ table := target, label := some label } : Select).andWhere?
            predicate).andWhere
              (columnsEqual ⟨label, relation.toColumn⟩ ⟨link, junction.toColumn⟩)))
          (some ((db.rows target).any fun other => keeps (reading other) &&
            ((other.value relation.toColumn).compare (linking.value junction.toColumn)).map
              Comparison.eq.holds == some true)) := by
        intro linking
        refine means_exists (fun other => hpredicate _ other) fun other => ?_
        exact means_columnsEqual (reads_label label other relation.toColumn)
          (reads_beneath (reads_label link linking) hlink.2 junction.toColumn)
      have hexists : Means db bindings
          (.exists ((({ table := junction.table, label := some link } : Select).andWhere?
            (some (columnsEqual ⟨link, junction.fromColumn⟩
              ⟨qualifier, relation.fromColumn⟩))).andWhere
            (.exists ((({ table := target, label := some label } : Select).andWhere?
              predicate).andWhere
                (columnsEqual ⟨label, relation.toColumn⟩ ⟨link, junction.toColumn⟩)))))
          (some ((db.rows junction.table).any fun linking =>
            keeps (some (((linking.value junction.fromColumn).compare
              (row.value relation.fromColumn)).map Comparison.eq.holds)) &&
            some ((db.rows target).any fun other => keeps (reading other) &&
              ((other.value relation.toColumn).compare (linking.value junction.toColumn)).map
                Comparison.eq.holds == some true) == some true)) :=
        means_exists (fun linking => Option.Rel.some (means_columnsEqual
          (reads_label link linking junction.fromColumn)
          (reads_beneath hrow (Ne.symm hlink.1) relation.fromColumn))) hinner
      simp only [keeps, map_eq_holds] at hexists
      have hswap : ((db.rows junction.table).any fun linking =>
          (linking.value junction.fromColumn).sqlEq (row.value relation.fromColumn) &&
          some ((db.rows target).any fun other => keeps (reading other) &&
            (other.value relation.toColumn).sqlEq (linking.value junction.toColumn)) ==
              some true) =
          (db.rows target).any fun other => ((db.rows junction.table).any fun linking =>
            (linking.value junction.fromColumn).sqlEq (row.value relation.fromColumn) &&
              (other.value relation.toColumn).sqlEq (linking.value junction.toColumn)) &&
            keeps (reading other) := by
        rw [Bool.eq_iff_iff]
        simp only [List.any_eq_true, Bool.and_eq_true, beq_iff_eq, Option.some.injEq]
        constructor
        · rintro ⟨linking, hlinking, hfrom, other, hother, hkeeps, hto⟩
          exact ⟨other, hother, ⟨linking, hlinking, hfrom, hto⟩, hkeeps⟩
        · rintro ⟨other, hother, ⟨linking, hlinking, hfrom, hto⟩, hkeeps⟩
          exact ⟨linking, hlinking, hfrom, other, hother, hkeeps, hto⟩
      rw [← hswap]
      exact hexists

end Related

/-! ### Filters -/

/-- No label with a number beyond those used is the qualifier. -/
def Unused (qualifier : String) (n : Nat) : Prop :=
  ∀ base m, n < m → qualifier ≠ subLabel base m

/-- A qualifier that is unused from a number on is unused from every later one on. -/
theorem Unused.mono {qualifier : String} {n m : Nat} (h : Unused qualifier n) (hle : n ≤ m) :
    Unused qualifier m :=
  fun base number hlt => h base number (Nat.lt_of_le_of_lt hle hlt)

/-- A label is not used after its number. -/
theorem unused_subLabel (base : String) (n : Nat) : Unused (subLabel base n) n := by
  intro other m hlt heq
  exact absurd (subLabel_injective heq).1 (Nat.ne_of_lt hlt)

section Filters

variable {schema : Schema} {db : Database}

/-- Alternatives mean what they say together, and nothing if one of them says nothing. -/
theorem someBranch_means {bindings : Bindings} {branches : List (Option Expr)}
    {readings : List (Option (Option Bool))}
    (h : List.Forall₂ (Option.Rel (Means db bindings)) branches readings) :
    List.Forall₂ (Means db bindings) (someBranch branches)
      (if readings.all Option.isSome then (disjoin (readings.filterMap id)).toList else []) := by
  have hall : branches.all Option.isSome = readings.all Option.isSome := by
    induction h with
    | nil => rfl
    | cons hfirst _ ih =>
        rw [List.all_cons, List.all_cons, ih]
        cases hfirst <;> rfl
  unfold someBranch
  rw [hall]
  split
  · exact toList_means (disjunction?_means (List.rel_filterMap (fun _ _ h => h) h))
  · exact List.Forall₂.nil

/-- The parts of a filter mean together what they say together. -/
theorem node_means {bindings : Bindings} {entries : List Expr} {truths : List (Option Bool)}
    {every any excluded : List (Option Expr)}
    {everySaid anySaid excludedSaid : List (Option (Option Bool))}
    (hentries : List.Forall₂ (Means db bindings) entries truths)
    (hevery : List.Forall₂ (Option.Rel (Means db bindings)) every everySaid)
    (hany : List.Forall₂ (Option.Rel (Means db bindings)) any anySaid)
    (hexcluded : List.Forall₂ (Option.Rel (Means db bindings)) excluded excludedSaid) :
    Option.Rel (Means db bindings)
      (Expr.conjunction? (entries ++ (Expr.conjunction? (every.filterMap id)).toList ++
        someBranch any ++ (excluded.filterMap id).map Expr.not))
      (conjoin (truths ++ everySaid.filterMap id ++
        (if anySaid.all Option.isSome then (disjoin (anySaid.filterMap id)).toList else []) ++
        (excludedSaid.filterMap id).map fun truth => truth.map (!·))) := by
  have hconjoined := toList_means
    (conjunction?_means (List.rel_filterMap (fun _ _ h => h) hevery))
  have hnegated := List.rel_map (fun _ _ h => means_not h)
    (List.rel_filterMap (fun _ _ h => h) hexcluded)
  rw [List.append_assoc (truths ++ everySaid.filterMap id), ← conjoin_flatten, ← List.append_assoc]
  exact conjunction?_means
    (List.rel_append (List.rel_append (List.rel_append hentries hconjoined) (someBranch_means hany))
      hnegated)

mutual

/-- The predicate of a filter means what the filter says of the row bound to its qualifier.  The
counter runs through the parts of a filter, so each part starts where labels that are not yet used
still are not the qualifier; beneath a relation the qualifier is the label used last. -/
theorem Filter.predicate?_means : ∀ (filter : Filter) (table : Table) (qualifier : String)
    (n : Nat) {bindings : Bindings} {row : Row}, Reads bindings qualifier row →
      Unused qualifier n →
      Option.Rel (Means db bindings) (filter.predicate? schema table qualifier [] n).1
        (filter.reading schema db table row)
  | .node allOf anyOf noneOf entries, table, qualifier, n, bindings, row, hrow, hunused => by
      have hentries := entryPredicates_means entries table qualifier n hrow hunused
      have hunusedAll := hunused.mono (entryPredicates_count schema entries table qualifier [] n)
      have hall := filterPredicates_means allOf table qualifier _ hrow hunusedAll
      have hunusedAny := hunusedAll.mono (filterPredicates_count schema allOf table qualifier [] _)
      have hany := filterPredicates_means anyOf table qualifier _ hrow hunusedAny
      have hunusedNone := hunusedAny.mono (filterPredicates_count schema anyOf table qualifier [] _)
      have hnone := filterPredicates_means noneOf table qualifier _ hrow hunusedNone
      rw [Filter.predicate?, Filter.reading]
      exact node_means hentries hall hany hnone

/-- The predicates of several filters mean what each of them says. -/
theorem filterPredicates_means : ∀ (filters : List Filter) (table : Table) (qualifier : String)
    (n : Nat) {bindings : Bindings} {row : Row}, Reads bindings qualifier row →
      Unused qualifier n →
      List.Forall₂ (Option.Rel (Means db bindings))
        (filterPredicates schema filters table qualifier [] n).1
        (filterReadings schema db filters table row)
  | [], table, qualifier, n, bindings, row, hrow, hunused => by
      rw [filterPredicates, filterReadings]
      exact List.Forall₂.nil
  | filter :: rest, table, qualifier, n, bindings, row, hrow, hunused => by
      have hfirst := Filter.predicate?_means filter table qualifier n hrow hunused
      have hrest := filterPredicates_means rest table qualifier _ hrow
        (hunused.mono (Filter.predicate?_count schema filter table qualifier [] n))
      rw [filterPredicates, filterReadings]
      exact List.Forall₂.cons hfirst hrest

/-- The predicates of entries mean what each entry says. -/
theorem entryPredicates_means : ∀ (entries : List (String × Operand)) (table : Table)
    (qualifier : String) (n : Nat) {bindings : Bindings} {row : Row},
      Reads bindings qualifier row → Unused qualifier n →
      List.Forall₂ (Means db bindings) (entryPredicates schema entries table qualifier [] n).1
        (entryReadings schema db entries table row)
  | [], table, qualifier, n, bindings, row, hrow, hunused => by
      rw [entryPredicates, entryReadings]
      exact List.Forall₂.nil
  | (key, operand) :: rest, table, qualifier, n, bindings, row, hrow, hunused => by
      rw [entryPredicates, entryReadings]
      cases hcolumn : table.column? key with
      | some column =>
          exact List.rel_append (toList_means (operand.columnPredicate?_means hrow column))
            (entryPredicates_means rest table qualifier n hrow hunused)
      | none =>
          cases hrelation : table.relation? key with
          | some relation =>
              exact List.rel_append
                (toList_means (relationPredicate?_means operand relation qualifier n hrow hunused))
                (entryPredicates_means rest table qualifier _ hrow
                  (hunused.mono (relationPredicate?_count schema operand relation qualifier [] n)))
          | none => exact entryPredicates_means rest table qualifier n hrow hunused

/-- The predicate of a relation means what the filter says of its related rows. -/
theorem relationPredicate?_means : ∀ (operand : Operand) (relation : Relation)
    (qualifier : String) (n : Nat) {bindings : Bindings} {row : Row},
      Reads bindings qualifier row → Unused qualifier n →
      Option.Rel (Means db bindings) (relationPredicate? schema operand relation qualifier [] n).1
        (relatedReading schema db operand relation row)
  | .related inner, relation, qualifier, n, bindings, row, hrow, hunused => by
      rw [relationPredicate?, relatedReading]
      cases htarget : schema.table? relation.target with
      | none => exact Option.Rel.none
      | some target =>
          have hinner : ∀ around other, Option.Rel
              (Means db ((subLabel relation.name (n + 1), some other) :: around))
              (inner.predicate? schema target (subLabel relation.name (n + 1)) [] (n + 1)).1
              (inner.reading schema db target other) := by
            intro around other
            exact Filter.predicate?_means inner target _ (n + 1) (reads_label _ other)
              (unused_subLabel _ _)
          have hcount := Filter.predicate?_count schema inner target
            (subLabel relation.name (n + 1)) [] (n + 1)
          refine Option.Rel.some (existence_means hrow (hunused _ _ (Nat.lt_succ_self n)) ?_ hinner)
          intro base
          constructor
          · exact Ne.symm (hunused base _ (by omega))
          · intro heq
            have hnumber := (subLabel_injective heq).1
            omega
  | .literal _, _, _, _, _, _, _, _ => by
      rw [relationPredicate?, relatedReading]
      · exact Option.Rel.none
      · simp
      · simp
  | .condition _, _, _, _, _, _, _, _ => by
      rw [relationPredicate?, relatedReading]
      · exact Option.Rel.none
      · simp
      · simp

end

end Filters

/-- The predicate of an optional filter on a table, known by its own name. -/
theorem predicate?_means {schema : Schema} {db : Database} {table qualifier : String}
    (filter : Option Filter) (n : Nat) {bindings : Bindings} {row : Row}
    (hrow : bindings.lookup qualifier = some (some row)) (hunused : Unused qualifier n) :
    Option.Rel (Means db bindings) (schema.predicate? table qualifier filter [] n).1
      (schema.reading db table filter row) := by
  unfold Schema.predicate? Schema.reading
  cases filter with
  | none => exact Option.Rel.none
  | some filter =>
      cases schema.table? table with
      | none => exact Option.Rel.none
      | some known =>
          exact Filter.predicate?_means filter known qualifier n (reads_of_some hrow) hunused

/-- Whether an optional predicate keeps a row: there is none, or it is true of the row. -/
def KeptBy (db : Database) (predicate : Option Expr) (bindings : Bindings) : Prop :=
  ∀ condition, predicate = some condition → condition.truth db bindings = .ok (some true)

/-- What a predicate means settles whether it keeps a row. -/
theorem keptBy_iff_keeps {db : Database} {bindings : Bindings} {predicate : Option Expr}
    {reading : Option (Option Bool)} (h : Option.Rel (Means db bindings) predicate reading) :
    KeptBy db predicate bindings ↔ keeps reading = true := by
  unfold KeptBy
  cases h with
  | none => simp [keeps]
  | @some condition truth hmeans =>
      have htruth := Expr.truth_ok hmeans
      rw [truth_truthValue] at htruth
      simp [htruth, keeps]

/-- **Filters keep what they say.**  Let no label be the name of a table.  At every row of the
table the predicate compiled from a filter, with no relation joined, has the truth value that the
filter reads as, and there is none where the filter says nothing; so the predicate keeps a row
exactly if the reading does, and the statement with that predicate yields just those rows, in
order. -/
theorem filter_keeps_iff (schema : Schema) (db : Database) {table : String}
    (halias : ∀ base m, table ≠ subLabel base m) (filter : Filter) (n : Nat) :
    let predicate := (schema.predicate? table table (some filter) [] n).1
    (∀ row, Option.Rel (Means db [(table, some row)]) predicate
      (schema.reading db table (some filter) row)) ∧
    (∀ row, KeptBy db predicate [(table, some row)] ↔
      keeps (schema.reading db table (some filter) row) = true) ∧
    selectRows db (({ table } : Select).andWhere? predicate) [] =
      .ok (((db.rows table).filter fun row =>
        keeps (schema.reading db table (some filter) row)).map fun row =>
          [(table, some row)]) := by
  intro predicate
  have hmeans : ∀ row, Option.Rel (Means db [(table, some row)]) predicate
      (schema.reading db table (some filter) row) := by
    intro row
    refine predicate?_means (some filter) n ?_ fun base m _ => halias base m
    rw [Dict.lookup_cons, if_pos rfl]
  refine ⟨hmeans, fun row => keptBy_iff_keeps (hmeans row), ?_⟩
  have hkept : keepRows db predicate ((db.rows table).map fun row => [(table, some row)]) [] =
      .ok (((db.rows table).filter fun row =>
        keeps (schema.reading db table (some filter) row)).map fun row =>
          [(table, some row)]) :=
    keepRows_means fun row _ => hmeans row
  cases hpredicate : predicate <;> rw [hpredicate] at hkept <;>
    simp only [SelectOf.andWhere?, SelectOf.andWhere, selectRows, joinAll, groupRows, sortRows,
      Option.getD_none, bind, Except.bind, pure, Except.pure, hkept]

/-- Of the blog, just the first author has a post with a title that holds a text. -/
theorem filter_keeps_iff_blog :
    (∀ base m, "Author" ≠ subLabel base m) ∧
      selectRows blogRows (({ table := "Author" } : Select).andWhere?
        ((Schema.ofDecls blogTables).predicate? "Author" "Author" (some (.node [] [] []
          [("posts", .related (.node [] [] []
            [("title", .condition (.only { contains := some "oi" }))]))])) [] 0).1) [] =
        .ok [[("Author", some [("id", .integer 1), ("name", .text "Ann")])]] := by
  have halias : ∀ base m, "Author" ≠ subLabel base m := by
    have hlast : ("Author" : String).toList.getLast? = some 'r' := by decide
    exact ne_subLabel hlast (by decide)
  obtain ⟨-, -, hrows⟩ := filter_keeps_iff (Schema.ofDecls blogTables) blogRows halias
    (.node [] [] [] [("posts", .related (.node [] [] []
      [("title", .condition (.only { contains := some "oi" }))]))]) 0
  refine ⟨halias, hrows.trans ?_⟩
  have hkept : (blogRows.rows "Author").filter (fun row => keeps ((Schema.ofDecls blogTables).reading
      blogRows "Author" (some (.node [] [] [] [("posts", .related (.node [] [] []
        [("title", .condition (.only { contains := some "oi" }))]))])) row)) =
      [[("id", .integer 1), ("name", .text "Ann")]] := by
    decide +kernel
  rw [hkept]
  rfl

end NestedQuery
