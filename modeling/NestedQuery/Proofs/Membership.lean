import NestedQuery.Proofs.FilterMeaning
import NestedQuery.Proofs.Nesting

/-!
# Membership and equality

Whether a value is in a list is asked in one expression, and could be asked as a
disjunction of equalities.  The two are true together.  Where no equality is true
they may differ: an equality with null, or with a value of another kind, is
unknown, and so is the disjunction, but the membership is false; and of the empty
list the disjunction is false, but the membership of null is unknown.  Everywhere
else they have the same truth value, and not to be in the list is the negation.
-/

namespace NestedQuery

variable {db : Database} {bindings : Bindings}

/-! ### Disjunctions of truth values -/

/-- Some of the truth values: false of none. -/
def someOf (truths : List (Option Bool)) : Option Bool :=
  truths.foldr either (some false)

/-- A disjunction is true if one of its sides is. -/
theorem either_eq_true_iff {a b : Option Bool} :
    either a b = some true ↔ a = some true ∨ b = some true := by
  rcases a with _ | _ | _ <;> rcases b with _ | _ | _ <;> simp [either]

/-- It is false if both are. -/
theorem either_eq_false_iff {a b : Option Bool} :
    either a b = some false ↔ a = some false ∧ b = some false := by
  rcases a with _ | _ | _ <;> rcases b with _ | _ | _ <;> simp [either]

/-- A disjunction is true if one of its parts is. -/
theorem someOf_eq_true_iff {truths : List (Option Bool)} :
    someOf truths = some true ↔ some true ∈ truths := by
  induction truths with
  | nil => simp [someOf]
  | cons first rest ih =>
      rw [someOf, List.foldr_cons, ← someOf, either_eq_true_iff, ih, List.mem_cons, eq_comm]

/-- It is false if all of them are. -/
theorem someOf_eq_false_iff {truths : List (Option Bool)} :
    someOf truths = some false ↔ ∀ truth ∈ truths, truth = some false := by
  induction truths with
  | nil => simp [someOf]
  | cons first rest ih =>
      rw [someOf, List.foldr_cons, ← someOf, either_eq_false_iff, ih, List.forall_mem_cons]

/-! ### Equality with each value of a list -/

/-- The truth value of an equality of two values. -/
def Value.equalTo (value other : Value) : Option Bool :=
  (value.compare other).map Comparison.eq.holds

/-- The truth values of the equalities of an expression with the values of a list. -/
def Expr.equalities (db : Database) (subject : Expr) (values : List Value) (bindings : Bindings) :
    Except QueryError (List (Option Bool)) :=
  values.mapM fun value => (Expr.compare subject .eq (.literal value)).truth db bindings

/-- An equality is true exactly if the values are equal in the sense of the statements. -/
theorem Value.equalTo_eq_true_iff (value other : Value) :
    value.equalTo other = some true ↔ value.sqlEq other = true := by
  unfold Value.equalTo Value.sqlEq
  rcases value.compare other with _ | _ | _ | _ <;> simp [Comparison.holds]

/-- An equality is false if the values compare and are not equal. -/
theorem Value.equalTo_eq_false_iff (value other : Value) :
    value.equalTo other = some false ↔
      (value.compare other).isSome = true ∧ value.sqlEq other = false := by
  unfold Value.equalTo Value.sqlEq
  rcases value.compare other with _ | _ | _ | _ <;> simp [Comparison.holds]

/-- The equalities of a subject with values are those of its value. -/
theorem equalities_ok {subject : Expr} {value : Value} (h : subject.eval db bindings = .ok value)
    (values : List Value) :
    subject.equalities db values bindings = .ok (values.map value.equalTo) := by
  refine mapM_ok fun other _ => ?_
  have hmeans := means_compare h .eq other
  unfold Means at hmeans
  rw [Expr.truth, hmeans]
  exact congrArg Except.ok (truth_truthValue _)

/-! ### Membership -/

/-- The equalities with the values tell as much as membership does: of null there is one, and of
another value one is true or none is unknown. -/
def Value.SettledBy (value : Value) (values : List Value) : Prop :=
  if value.isNull then values ≠ []
  else (∃ other ∈ values, value.sqlEq other = true) ∨
    ∀ other ∈ values, (value.compare other).isSome = true

instance (value : Value) (values : List Value) : Decidable (value.SettledBy values) :=
  inferInstanceAs (Decidable (if value.isNull then values ≠ []
    else (∃ other ∈ values, value.sqlEq other = true) ∨
      ∀ other ∈ values, (value.compare other).isSome = true))

/-- Equalities with null are unknown, so a disjunction of some is. -/
theorem someOf_null {values : List Value} (h : values ≠ []) :
    someOf (values.map Value.null.equalTo) = none := by
  have hnone : ∀ other : Value, Value.null.equalTo other = none := by
    intro other
    cases other <;> rfl
  induction values with
  | nil => exact absurd rfl h
  | cons first rest ih =>
      rw [List.map_cons, someOf, List.foldr_cons, ← someOf, hnone]
      by_cases hrest : rest = []
      · rw [hrest]
        rfl
      · rw [ih hrest]
        rfl

/-- The negated membership has the negated truth value. -/
theorem isOneOf_negated (value : Value) (values : List Value) (negated : Bool) :
    value.isOneOf values negated = (value.isOneOf values false).map (· != negated) := by
  unfold Value.isOneOf
  cases value.isNull <;> simp

/-- Membership is true where the disjunction of the equalities is. -/
theorem isOneOf_true_iff (value : Value) (values : List Value) :
    value.isOneOf values false = some true ↔ someOf (values.map value.equalTo) = some true := by
  rw [Value.isOneOf_eq_true, someOf_eq_true_iff, List.any_eq_true, List.mem_map]
  constructor
  · rintro ⟨other, hother, heq⟩
    exact ⟨other, hother, (value.equalTo_eq_true_iff other).mpr heq⟩
  · rintro ⟨other, hother, heq⟩
    exact ⟨other, hother, (value.equalTo_eq_true_iff other).mp heq⟩

/-- It has the truth value of the disjunction exactly if the equalities tell as much.  If no
equality is true, the membership is false, and the disjunction if all are false. -/
theorem isOneOf_eq_someOf_iff (value : Value) (values : List Value) :
    value.isOneOf values false = someOf (values.map value.equalTo) ↔ value.SettledBy values := by
  cases hnull : value.isNull with
  | true =>
      obtain rfl : value = .null := by
        cases value <;> simp_all [Value.isNull]
      have hmember : Value.null.isOneOf values false = none := rfl
      rw [hmember, Value.SettledBy, if_pos hnull]
      by_cases hnone : values = []
      · subst hnone
        simp [someOf]
      · rw [someOf_null hnone]
        exact iff_of_true rfl hnone
  | false =>
      rw [Value.SettledBy, if_neg (by simp [hnull])]
      by_cases hequal : ∃ other ∈ values, value.sqlEq other = true
      · have hmember : value.isOneOf values false = some true :=
          (value.isOneOf_eq_true values).mpr (List.any_eq_true.mpr hequal)
        rw [hmember, (isOneOf_true_iff value values).mp hmember]
        exact iff_of_true rfl (Or.inl hequal)
      · have hunequal : ∀ other ∈ values, value.sqlEq other = false := by
          intro other hother
          rw [Bool.eq_false_iff]
          exact fun heq => hequal ⟨other, hother, heq⟩
        have hmember : value.isOneOf values false = some false := by
          unfold Value.isOneOf
          rw [hnull]
          simpa using hunequal
        rw [hmember, eq_comm, someOf_eq_false_iff, or_iff_right hequal, List.forall_mem_map]
        constructor
        · intro hfalse other hother
          exact ((value.equalTo_eq_false_iff other).mp (hfalse other hother)).1
        · intro hsome other hother
          exact (value.equalTo_eq_false_iff other).mpr ⟨hsome other hother, hunequal other hother⟩

/-- A membership has the truth value of its subject's value among the values. -/
theorem oneOf_truth {subject : Expr} {value : Value} (h : subject.eval db bindings = .ok value)
    (values : List Value) (negated : Bool) :
    (Expr.oneOf subject values negated).truth db bindings =
      .ok (value.isOneOf values negated) := by
  rw [Expr.truth, Expr.eval, h]
  exact congrArg Except.ok (truth_truthValue _)

/-- Where the equalities tell less, membership is unknown of null and false of any other value. -/
theorem isOneOf_unsettled {value : Value} {values : List Value} (h : ¬ value.SettledBy values) :
    value.isOneOf values false = if value.isNull then none else some false := by
  unfold Value.isOneOf
  cases hnull : value.isNull with
  | true => rfl
  | false =>
      rw [Value.SettledBy, if_neg (by simp [hnull]), not_or] at h
      simpa using h.1

/-- Membership is the disjunction of the equalities with the values of the list, and not to be in
the list its negation, exactly where the equalities tell as much.  Elsewhere it is unknown of null
and false of any other value.  In any case it is true where the disjunction is, and not to be in the
list is the negation of being in it. -/
theorem membership_disjunction_iff {subject : Expr} {value : Value}
    (h : subject.eval db bindings = .ok value) (values : List Value) :
    ∃ truths, subject.equalities db values bindings = .ok truths ∧
      (∀ negated, (Expr.oneOf subject values negated).truth db bindings =
          .ok ((someOf truths).map (· != negated)) ↔ value.SettledBy values) ∧
      (¬ value.SettledBy values → (Expr.oneOf subject values false).truth db bindings =
          .ok (if value.isNull then none else some false)) ∧
      ((Expr.oneOf subject values false).truth db bindings = .ok (some true) ↔
        someOf truths = some true) ∧
      (Expr.oneOf subject values true).truth db bindings =
        ((Expr.oneOf subject values false).truth db bindings).map (·.map (!·)) := by
  refine ⟨_, equalities_ok h values, fun negated => ?_, fun hless => ?_, ?_, ?_⟩
  · have hinjective : Function.Injective fun truth : Option Bool => truth.map (· != negated) := by
      apply Option.map_injective
      intro a b hab
      simpa using hab
    rw [oneOf_truth h, isOneOf_negated, ← isOneOf_eq_someOf_iff, Except.ok.injEq]
    exact hinjective.eq_iff
  · rw [oneOf_truth h, isOneOf_unsettled hless]
  · rw [oneOf_truth h, Except.ok.injEq]
    exact isOneOf_true_iff value values
  · have hnot : (· != true) = (!·) := by
      funext b
      cases b <;> rfl
    rw [oneOf_truth h, oneOf_truth h, isOneOf_negated, hnot]
    rfl

/-- The row of an item in stock, known under the name of its table. -/
def itemInStock : Bindings :=
  [("Item", some [("id", .integer 1), ("stock", .integer 3)])]

/-- An item of which there are three is among those of which there are two or three, also if the
list has a null in it. -/
theorem membership_disjunction_iff_stock :
    (Expr.col "Item" "stock").eval [] itemInStock = .ok (.integer 3) ∧
      (Value.integer 3).SettledBy [.integer 2, .null, .integer 3] ∧
      ∃ truths,
        (Expr.col "Item" "stock").equalities [] [.integer 2, .null, .integer 3] itemInStock =
          .ok truths ∧
        ∀ negated, (Expr.oneOf (.col "Item" "stock") [.integer 2, .null, .integer 3] negated).truth
          [] itemInStock = .ok ((someOf truths).map (· != negated)) := by
  have hvalue : (Expr.col "Item" "stock").eval [] itemInStock = .ok (.integer 3) := by
    rw [Expr.col, Expr.eval]
    rfl
  have hsettled : (Value.integer 3).SettledBy [.integer 2, .null, .integer 3] := by decide
  obtain ⟨truths, htruths, hiff, -⟩ :=
    membership_disjunction_iff hvalue [.integer 2, .null, .integer 3]
  exact ⟨hvalue, hsettled, truths, htruths, fun negated => (hiff negated).mpr hsettled⟩

/-- An item of which there are three is none of those with two or an unknown number, and none of
those with two or "few", though the negated disjunctions are unknown; and a price that is null is
neither in the empty list nor not in it, though the disjunction of no equalities is false. -/
theorem membership_apart_from_disjunction :
    ((Expr.oneOf (.col "Item" "stock") [.integer 2, .null] true).truth [] itemInStock =
        .ok (some true) ∧
      (Expr.col "Item" "stock").equalities [] [.integer 2, .null] itemInStock =
        .ok [some false, none] ∧
      (someOf [some false, none]).map (!·) = none) ∧
    ((Expr.oneOf (.col "Item" "stock") [.integer 2, .text "few"] true).truth [] itemInStock =
        .ok (some true) ∧
      (Expr.col "Item" "stock").equalities [] [.integer 2, .text "few"] itemInStock =
        .ok [some false, none]) ∧
    (Expr.oneOf (.col "Item" "price") [] false).truth [] itemInStock = .ok none ∧
      (Expr.col "Item" "price").equalities [] [] itemInStock = .ok [] ∧
      someOf [] = some false := by
  have hstock : (Expr.col "Item" "stock").eval [] itemInStock = .ok (.integer 3) := by
    rw [Expr.col, Expr.eval]
    rfl
  have hprice : (Expr.col "Item" "price").eval [] itemInStock = .ok .null := by
    rw [Expr.col, Expr.eval]
    rfl
  refine ⟨⟨?_, equalities_ok hstock _, rfl⟩, ⟨?_, equalities_ok hstock _⟩,
    oneOf_truth hprice [] false, rfl, rfl⟩
  · exact oneOf_truth hstock [.integer 2, .null] true
  · exact oneOf_truth hstock [.integer 2, .text "few"] true

end NestedQuery
