import NestedQuery.Proofs.EqualKeys

/-!
# Columns that sorting puts in order

The order used for sorting is transitive on some columns and not on others.
Three values go in a circle if the first comes before the third by every step
but after it at once.  Rounding does so, where two integers equal the double
between them; values that do not compare do, as they count as equal; and so do
texts beside instants, which are read as instants there and compared as texts
with each other.  Nothing else does: a column without such values is put in
order, and so are rows by any list of such columns.
-/

namespace NestedQuery

/-! ### Numbers -/

/-- Where a number stands among doubles. -/
def Value.number? : Value → Option Int
  | .integer n => some (Binary64.integerKey n)
  | .float x => x.orderKey
  | _ => none

/-- Numbers compare as they stand among doubles, unless both are integers. -/
theorem Value.compare_numbers {a b : Value} {k l : Int} (ha : a.number? = some k)
    (hb : b.number? = some l) (hdouble : a.integer? = none ∨ b.integer? = none) :
    a.compare b = some (Ord.compare k l) := by
  cases a with
  | integer n =>
      obtain rfl := Option.some.inj ha
      cases b with
      | integer m => rcases hdouble with h | h <;> cases h
      | float y => exact Binary64.compare_of_orderKeys (Binary64.orderKey_ofInt n) hb
      | _ => cases hb
  | float x =>
      cases b with
      | integer m =>
          obtain rfl := Option.some.inj hb
          exact Binary64.compare_of_orderKeys ha (Binary64.orderKey_ofInt m)
      | float y => exact Binary64.compare_of_orderKeys ha hb
      | _ => cases hb
  | _ => cases ha

/-- Two values are both integers, or one of them is none. -/
theorem Value.integers_or_not (a b : Value) :
    (∃ n m, a = .integer n ∧ b = .integer m) ∨ (a.integer? = none ∨ b.integer? = none) := by
  cases a with
  | integer n =>
      cases b with
      | integer m => exact Or.inl ⟨n, m, rfl, rfl⟩
      | _ => exact Or.inr (Or.inr rfl)
  | _ => exact Or.inr (Or.inl rfl)

/-- A number that is not after another does not stand after it among doubles. -/
theorem Value.number_le {a b : Value} {k l : Int} (ha : a.number? = some k)
    (hb : b.number? = some l) (h : a.sortOrder b ≠ .gt) : k ≤ l := by
  rcases Value.integers_or_not a b with ⟨n, m, rfl, rfl⟩ | hdouble
  · obtain rfl := Option.some.inj ha
    obtain rfl := Option.some.inj hb
    have hle : n ≤ m := Int.not_lt.mp fun hlt => h (compare_gt_iff_gt.mpr hlt)
    exact Binary64.integerKey_mono hle
  · rw [Value.sortOrder, Value.compare_numbers ha hb hdouble] at h
    exact Int.not_lt.mp fun hlt => h (compare_gt_iff_gt.mpr hlt)

/-! ### Circles -/

/-- Three values of which the first does not come after the second nor the second after the third,
but the first after the third. -/
inductive Value.Circular : Value → Value → Value → Prop
  /-- Two integers are rounded to the double between them. -/
  | rounded {most least : Int} {x : Binary64} (hless : least < most)
      (hmost : (Value.integer most).sqlEq (.float x) = true)
      (hleast : (Value.float x).sqlEq (.integer least) = true) :
      Circular (.integer most) (.float x) (.integer least)
  /-- The value between does not compare with the first. -/
  | apartBefore {a b c : Value} (hnull : b ≠ .null) (hab : a.compare b = none)
      (hbc : b.compare c ≠ some .gt) (hac : a.compare c = some .gt) : Circular a b c
  /-- It does not compare with the third. -/
  | apartBehind {a b c : Value} (hnull : b ≠ .null) (hab : a.compare b ≠ some .gt)
      (hbc : b.compare c = none) (hac : a.compare c = some .gt) : Circular a b c
  /-- Of three values two are texts, which compare otherwise than what they are read as. -/
  | around {one other : String} {instant first last : Instant}
      (hone : Instant.parse? one = some first) (hother : Instant.parse? other = some last)
      (hfirst : first.compare instant ≠ .gt) (hlast : instant.compare last ≠ .gt)
      (hgreater : Ord.compare one other = .gt) :
      Circular (.text one) (.instant instant) (.text other)
  | before {one other : String} {instant first last : Instant}
      (hone : Instant.parse? one = some first) (hother : Instant.parse? other = some last)
      (hless : Ord.compare one other ≠ .gt) (hlast : last.compare instant ≠ .gt)
      (hgreater : first.compare instant = .gt) :
      Circular (.text one) (.text other) (.instant instant)
  | behind {one other : String} {instant first last : Instant}
      (hone : Instant.parse? one = some first) (hother : Instant.parse? other = some last)
      (hfirst : instant.compare first ≠ .gt) (hless : Ord.compare one other ≠ .gt)
      (hgreater : instant.compare last = .gt) :
      Circular (.instant instant) (.text one) (.text other)

/-- Only values that are not null compare. -/
theorem Value.ne_null_of_compare {a b : Value} {order : Ordering} (h : a.compare b = some order) :
    a ≠ .null ∧ b ≠ .null := by
  constructor
  · rintro rfl
    cases b <;> cases h
  · rintro rfl
    cases a <;> cases h

/-- Values that compare are sorted so. -/
theorem Value.sortOrder_of_compare {a b : Value} {order : Ordering} (h : a.compare b = some order) :
    a.sortOrder b = order := by
  rw [Value.sortOrder, h, Option.getD_some]

/-- Values that do not compare count as equal. -/
theorem Value.sortOrder_of_apart {a b : Value} (h : a.compare b = none) : a.sortOrder b = .eq := by
  rw [Value.sortOrder, h, Option.getD_none]

/-- A value is sorted behind another only if it compares as greater. -/
theorem Value.sortOrder_eq_gt {a b : Value} : a.sortOrder b = .gt ↔ a.compare b = some .gt := by
  unfold Value.sortOrder
  cases a.compare b <;> simp

/-- Equal values count as equal. -/
theorem Value.sortOrder_of_sqlEq {a b : Value} (h : a.sqlEq b = true) : a.sortOrder b = .eq :=
  Value.sortOrder_of_compare (beq_iff_eq.mp h)

/-- Such values are not null, and they do go in a circle. -/
theorem Value.Circular.spec {a b c : Value} (h : Value.Circular a b c) :
    (a ≠ .null ∧ b ≠ .null ∧ c ≠ .null) ∧
      a.sortOrder b ≠ .gt ∧ b.sortOrder c ≠ .gt ∧ a.sortOrder c = .gt := by
  have hread : ∀ {text : String} {t u : Instant}, Instant.parse? text = some t →
      (Value.text text).sortOrder (.instant u) = t.compare u ∧
        (Value.instant u).sortOrder (.text text) = u.compare t := by
    intro text t u htext
    constructor <;> simp [Value.sortOrder, Value.compare, htext]
  cases h with
  | rounded hless hmost hleast =>
      refine ⟨⟨by simp, by simp, by simp⟩, ?_, ?_, ?_⟩
      · rw [Value.sortOrder_of_sqlEq hmost]
        decide
      · rw [Value.sortOrder_of_sqlEq hleast]
        decide
      · exact compare_gt_iff_gt.mpr hless
  | apartBefore hnull hab hbc hac =>
      obtain ⟨ha, hc⟩ := Value.ne_null_of_compare hac
      refine ⟨⟨ha, hnull, hc⟩, ?_, ?_, Value.sortOrder_of_compare hac⟩
      · rw [Value.sortOrder_of_apart hab]
        decide
      · exact fun hgt => hbc (Value.sortOrder_eq_gt.mp hgt)
  | apartBehind hnull hab hbc hac =>
      obtain ⟨ha, hc⟩ := Value.ne_null_of_compare hac
      refine ⟨⟨ha, hnull, hc⟩, ?_, ?_, Value.sortOrder_of_compare hac⟩
      · exact fun hgt => hab (Value.sortOrder_eq_gt.mp hgt)
      · rw [Value.sortOrder_of_apart hbc]
        decide
  | around hone hother hfirst hlast hgreater =>
      refine ⟨⟨by simp, by simp, by simp⟩, ?_, ?_, hgreater⟩
      · rwa [(hread hone).1]
      · rwa [(hread hother).2]
  | before hone hother hless hlast hgreater =>
      refine ⟨⟨by simp, by simp, by simp⟩, hless, ?_, ?_⟩
      · rwa [(hread hother).1]
      · rwa [(hread hone).1]
  | behind hone hother hfirst hless hgreater =>
      refine ⟨⟨by simp, by simp, by simp⟩, ?_, hless, ?_⟩
      · rwa [(hread hone).2]
      · rwa [(hread hother).2]

/-- Numbers go in a circle only by rounding.  All three stand at one place then, so that both ends
are integers. -/
theorem Value.circular_of_numbers {a b c : Value} {j k l : Int} (ha : a.number? = some j)
    (hb : b.number? = some k) (hc : c.number? = some l) (hab : a.sortOrder b ≠ .gt)
    (hbc : b.sortOrder c ≠ .gt) (hac : a.sortOrder c = .gt) : Value.Circular a b c := by
  have hjk := Value.number_le ha hb hab
  have hkl := Value.number_le hb hc hbc
  have hback : c.sortOrder a ≠ .gt := by
    rw [Value.sortOrder_swap a c, hac]
    decide
  have hlj := Value.number_le hc ha hback
  obtain rfl : j = k := by omega
  obtain rfl : j = l := by omega
  have hequal : ∀ {x y : Value}, x.number? = some j → y.number? = some j →
      (x.integer? = none ∨ y.integer? = none) → x.sqlEq y = true := by
    intro x y hx hy hdouble
    rw [Value.sqlEq, Value.compare_numbers hx hy hdouble, compare_eq_iff_eq.mpr rfl]
    rfl
  have hends : ∀ {x y : Value}, x.number? = some j → y.number? = some j → x.sortOrder y = .gt →
      ∃ n m, x = .integer n ∧ y = .integer m ∧ m < n := by
    intro x y hx hy hgt
    rcases Value.integers_or_not x y with ⟨n, m, rfl, rfl⟩ | hdouble
    · exact ⟨n, m, rfl, rfl, compare_gt_iff_gt.mp hgt⟩
    · rw [Value.sortOrder_of_sqlEq (hequal hx hy hdouble)] at hgt
      cases hgt
  obtain ⟨most, least, rfl, rfl, hless⟩ := hends ha hc hac
  cases b with
  | integer n =>
      have hfirst : most ≤ n := Int.not_lt.mp fun hlt => hab (compare_gt_iff_gt.mpr hlt)
      have hsecond : n ≤ least := Int.not_lt.mp fun hlt => hbc (compare_gt_iff_gt.mpr hlt)
      omega
  | float x => exact .rounded hless (hequal ha hb (Or.inr rfl)) (hequal hb hc (Or.inl rfl))
  | _ => cases hb

/-- A text compares with an instant as the instant that it is read as. -/
theorem Value.compare_text_instant {text : String} {t : Instant} {order : Ordering} :
    (Value.text text).compare (.instant t) = some order ↔
      ∃ u, Instant.parse? text = some u ∧ u.compare t = order := by
  simp [Value.compare]

/-- So does an instant with a text. -/
theorem Value.compare_instant_text {text : String} {t : Instant} {order : Ordering} :
    (Value.instant t).compare (.text text) = some order ↔
      ∃ u, Instant.parse? text = some u ∧ t.compare u = order := by
  simp [Value.compare]

/-- Comparing one of its quantities orders values in a line, so that no three go in a circle. -/
theorem no_circle {α : Type} {order : α → α → Ordering} (h : OrdersOn order fun _ => True)
    {a b c : α} {first second : Ordering} (hab : order a b = first) (hbc : order b c = second)
    (hac : order a c = .gt) (hfirst : first ≠ .gt) (hsecond : second ≠ .gt) : False :=
  h.trans a b c trivial trivial trivial (hab ▸ hfirst) (hbc ▸ hsecond) hac

/-- Texts and instants go in a circle only where two texts are read. -/
theorem Value.circular_of_text {one : String} {b c : Value} {first second : Ordering}
    (hab : (Value.text one).compare b = some first) (hbc : b.compare c = some second)
    (hac : (Value.text one).compare c = some .gt) (hfirst : first ≠ .gt) (hsecond : second ≠ .gt) :
    Value.Circular (.text one) b c := by
  cases b with
  | text other =>
      cases c with
      | text third =>
          exact (no_circle (ordersOn_compare id) (Option.some.inj hab) (Option.some.inj hbc)
            (Option.some.inj hac) hfirst hsecond).elim
      | instant t =>
          obtain ⟨last, hother, rfl⟩ := Value.compare_text_instant.mp hbc
          obtain ⟨moment, hone, hgreater⟩ := Value.compare_text_instant.mp hac
          obtain rfl := Option.some.inj hab
          exact .before hone hother hfirst hsecond hgreater
      | _ => cases hac
  | instant t =>
      obtain ⟨moment, hone, rfl⟩ := Value.compare_text_instant.mp hab
      cases c with
      | text other =>
          obtain ⟨last, hother, rfl⟩ := Value.compare_instant_text.mp hbc
          exact .around hone hother hfirst hsecond (Option.some.inj hac)
      | instant u =>
          obtain ⟨same, hsame, hgreater⟩ := Value.compare_text_instant.mp hac
          obtain rfl := Option.some.inj (hone.symm.trans hsame)
          exact (no_circle Instant.orders rfl (Option.some.inj hbc) hgreater hfirst hsecond).elim
      | _ => cases hac
  | _ => cases hab

/-- Beginning with an instant, values go in a circle only as described. -/
theorem Value.circular_of_instant {t : Instant} {b c : Value} {first second : Ordering}
    (hab : (Value.instant t).compare b = some first) (hbc : b.compare c = some second)
    (hac : (Value.instant t).compare c = some .gt) (hfirst : first ≠ .gt) (hsecond : second ≠ .gt) :
    Value.Circular (.instant t) b c := by
  cases b with
  | text one =>
      obtain ⟨moment, hone, rfl⟩ := Value.compare_instant_text.mp hab
      cases c with
      | text other =>
          obtain ⟨last, hother, hgreater⟩ := Value.compare_instant_text.mp hac
          obtain rfl := Option.some.inj hbc
          exact .behind hone hother hfirst hsecond hgreater
      | instant u =>
          obtain ⟨same, hsame, rfl⟩ := Value.compare_text_instant.mp hbc
          obtain rfl := Option.some.inj (hone.symm.trans hsame)
          exact (no_circle Instant.orders rfl rfl (Option.some.inj hac) hfirst hsecond).elim
      | _ => cases hac
  | instant u =>
      cases c with
      | text other =>
          obtain ⟨last, hother, hgreater⟩ := Value.compare_instant_text.mp hac
          obtain ⟨same, hsame, rfl⟩ := Value.compare_instant_text.mp hbc
          obtain rfl := Option.some.inj (hother.symm.trans hsame)
          exact (no_circle Instant.orders (Option.some.inj hab) rfl hgreater hfirst hsecond).elim
      | instant v =>
          exact (no_circle Instant.orders (Option.some.inj hab) (Option.some.inj hbc)
            (Option.some.inj hac) hfirst hsecond).elim
      | _ => cases hac
  | _ => cases hab

/-- What compares with an integer or a double is a number, and so is this. -/
theorem Value.numbers_of_compare {a b : Value} {order : Ordering} (h : a.compare b = some order)
    (ha : (∃ n, a = .integer n) ∨ ∃ x, a = .float x) :
    (∃ k, a.number? = some k) ∧ ((∃ n, b = .integer n) ∨ ∃ x, b = .float x) ∧
      ∃ l, b.number? = some l := by
  rcases ha with ⟨n, rfl⟩ | ⟨x, rfl⟩
  · cases b with
    | integer m => exact ⟨⟨_, rfl⟩, Or.inl ⟨m, rfl⟩, _, rfl⟩
    | float y =>
        obtain ⟨-, l, -, hy, -⟩ := Binary64.orderKeys_of_compare h
        exact ⟨⟨_, rfl⟩, Or.inr ⟨y, rfl⟩, l, hy⟩
    | _ => cases h
  · cases b with
    | integer m =>
        obtain ⟨k, -, hx, -, -⟩ := Binary64.orderKeys_of_compare h
        exact ⟨⟨k, hx⟩, Or.inl ⟨m, rfl⟩, _, rfl⟩
    | float y =>
        obtain ⟨k, l, hx, hy, -⟩ := Binary64.orderKeys_of_compare h
        exact ⟨⟨k, hx⟩, Or.inr ⟨y, rfl⟩, l, hy⟩
    | _ => cases h

/-- Values that the order used for sorting leads in a circle are of one of these forms. -/
theorem Value.circular_of_order {a b c : Value} (hnull : b ≠ .null) (hab : a.sortOrder b ≠ .gt)
    (hbc : b.sortOrder c ≠ .gt) (hac : a.sortOrder c = .gt) : Value.Circular a b c := by
  have hgreater := Value.sortOrder_eq_gt.mp hac
  cases hfirst : a.compare b with
  | none =>
      exact .apartBefore hnull hfirst (fun hgt => hbc (Value.sortOrder_eq_gt.mpr hgt)) hgreater
  | some first =>
      cases hsecond : b.compare c with
      | none =>
          exact .apartBehind hnull (fun hgt => hab (Value.sortOrder_eq_gt.mpr hgt)) hsecond hgreater
      | some second =>
          have hone : first ≠ .gt := by rwa [← Value.sortOrder_of_compare hfirst]
          have hother : second ≠ .gt := by rwa [← Value.sortOrder_of_compare hsecond]
          have hnumbers : ((∃ n, a = .integer n) ∨ ∃ x, a = .float x) → Value.Circular a b c := by
            intro hnumber
            obtain ⟨⟨j, ha⟩, hnumber, k, hb⟩ := Value.numbers_of_compare hfirst hnumber
            obtain ⟨-, -, l, hc⟩ := Value.numbers_of_compare hsecond hnumber
            exact Value.circular_of_numbers ha hb hc hab hbc hac
          cases a with
          | null => exact absurd rfl (Value.ne_null_of_compare hgreater).1
          | integer n => exact hnumbers (Or.inl ⟨n, rfl⟩)
          | float x => exact hnumbers (Or.inr ⟨x, rfl⟩)
          | text s => exact Value.circular_of_text hfirst hsecond hgreater hone hother
          | instant t => exact Value.circular_of_instant hfirst hsecond hgreater hone hother
          | boolean v =>
              cases b with
              | boolean w =>
                  cases c with
                  | boolean u =>
                      exact (no_circle (ordersOn_compare id) (Option.some.inj hfirst)
                        (Option.some.inj hsecond) (Option.some.inj hgreater) hone hother).elim
                  | _ => cases hsecond
              | _ => cases hfirst

/-- A column is put in order if none of its values go in a circle. -/
theorem Value.ordered_iff (values : List Value) : Value.Ordered values ↔
    ∀ a ∈ values, ∀ b ∈ values, ∀ c ∈ values, ¬ Value.Circular a b c := by
  constructor
  · intro h a ha b hb c hc hcircle
    obtain ⟨⟨hna, hnb, hnc⟩, hab, hbc, hac⟩ := hcircle.spec
    exact h a ha b hb c hc hna hnb hnc hab hbc hac
  · intro h a ha b hb c hc _ hnb _ hab hbc hac
    exact h a ha b hb c hc (Value.circular_of_order hnb hab hbc hac)

/-! ### Sort keys -/

/-- A sort key puts a column in order, in either direction and wherever nulls go, exactly if none of
its values go in a circle. -/
theorem SortKey.orders_iff (key : SortKey) (values : List Value) :
    OrdersOn key.order (· ∈ values) ↔
      ∀ a ∈ values, ∀ b ∈ values, ∀ c ∈ values, ¬ Value.Circular a b c := by
  constructor
  · intro h a ha b hb c hc hcircle
    obtain ⟨⟨hna, hnb, hnc⟩, hab, hbc, hac⟩ := hcircle.spec
    have hforwards := h.trans a b c ha hb hc
    have hbackwards := h.trans c b a hc hb ha
    rw [SortKey.order_of_ne_null hna hnb, SortKey.order_of_ne_null hnb hnc,
      SortKey.order_of_ne_null hna hnc] at hforwards
    rw [SortKey.order_of_ne_null hnc hnb, SortKey.order_of_ne_null hnb hna,
      SortKey.order_of_ne_null hnc hna] at hbackwards
    unfold SortKey.directed at hforwards hbackwards
    cases hdirection : key.direction with
    | ascending =>
        simp only [hdirection] at hforwards
        exact hforwards hab hbc hac
    | descending =>
        simp only [hdirection, ← Value.sortOrder_swap] at hbackwards
        exact hbackwards hbc hab hac
  · intro h
    have hordered := (Value.ordered_iff values).mpr h
    exact @SortKey.orders _ key id values (by rwa [List.map_id])

/-- An order of what items are mapped to is one of the items. -/
theorem OrdersOn.comap {α β : Type} {order : β → β → Ordering} {f : α → β} {items : List α}
    (h : OrdersOn order (· ∈ items.map f)) :
    OrdersOn (fun a b => order (f a) (f b)) (· ∈ items) :=
  ⟨fun a b ha hb => h.swap (f a) (f b) (List.mem_map_of_mem ha) (List.mem_map_of_mem hb),
    fun a b c ha hb hc => h.trans (f a) (f b) (f c) (List.mem_map_of_mem ha)
      (List.mem_map_of_mem hb) (List.mem_map_of_mem hc)⟩

theorem OrdersOn.congr {α : Type} {order other : α → α → Ordering} {items : α → Prop}
    (h : OrdersOn order items) (hsame : ∀ a b, items a → items b → order a b = other a b) :
    OrdersOn other items := by
  constructor
  · intro a b ha hb
    rw [← hsame a b ha hb, ← hsame b a hb ha]
    exact h.swap a b ha hb
  · intro a b c ha hb hc
    rw [← hsame a b ha hb, ← hsame b c hb hc, ← hsame a c ha hc]
    exact h.trans a b c ha hb hc

/-- Sort keys put rows of values in order if they put each of the columns in order. -/
theorem ordersOn_columns {keys : List SortKey} {rows : List (List Value)}
    (hwidth : ∀ row ∈ rows, row.length = keys.length)
    (h : ∀ i < keys.length, Value.Ordered (rows.map (·.getD i .null))) :
    OrdersOn (sortOrder keys) (· ∈ rows) := by
  induction keys generalizing rows with
  | nil => exact ⟨fun _ _ _ _ => by simp [sortOrder], fun _ _ _ _ _ _ _ _ => by simp [sortOrder]⟩
  | cons key rest ih =>
      have hfirst := key.orders (h 0 (Nat.zero_lt_succ _))
      have hrest : OrdersOn (sortOrder rest) (· ∈ rows.map List.tail) := by
        apply ih
        · intro row hrow
          obtain ⟨whole, hwhole, rfl⟩ := List.mem_map.mp hrow
          rw [List.length_tail, hwidth whole hwhole]
          rfl
        · intro i hi
          have hcolumn := h (i + 1) (Nat.succ_lt_succ hi)
          rw [List.map_map]
          refine (congrArg Value.Ordered (List.map_congr_left fun row _ => ?_)).mp hcolumn
          cases row <;> rfl
      refine (hfirst.lex hrest.comap).congr fun one other hone hother => ?_
      have hsome : ∀ row ∈ rows, ∃ value values, row = value :: values := fun row hrow =>
        List.exists_cons_of_length_eq_add_one (hwidth row hrow)
      obtain ⟨value, values, rfl⟩ := hsome one hone
      obtain ⟨second, others, rfl⟩ := hsome other hother
      rfl

/-- The order used for sorting is transitive on values that do not go in a circle, which takes
rounded integers, values that do not compare, or texts beside instants; a sort key puts a column in
order exactly if no values in it do, and several put rows in order if no values in a column do. -/
theorem sort_keys_order_iff {keys : List SortKey} {rows : List (List Value)}
    (hwidth : ∀ row ∈ rows, row.length = keys.length) :
    (∀ a b c : Value, a ≠ .null → b ≠ .null → c ≠ .null →
      (a.sortOrder b ≠ .gt ∧ b.sortOrder c ≠ .gt ∧ a.sortOrder c = .gt ↔ Value.Circular a b c)) ∧
    (∀ (key : SortKey) (values : List Value), OrdersOn key.order (· ∈ values) ↔
      ∀ a ∈ values, ∀ b ∈ values, ∀ c ∈ values, ¬ Value.Circular a b c) ∧
    ((∀ i < keys.length, ∀ a ∈ rows, ∀ b ∈ rows, ∀ c ∈ rows,
        ¬ Value.Circular (a.getD i .null) (b.getD i .null) (c.getD i .null)) →
      OrdersOn (sortOrder keys) (· ∈ rows)) := by
  refine ⟨fun a b c _ hnull _ => ⟨fun ⟨hab, hbc, hac⟩ => ?_, fun h => h.spec.2⟩,
    fun key values => key.orders_iff values, fun h => ?_⟩
  · exact Value.circular_of_order hnull hab hbc hac
  · refine ordersOn_columns hwidth fun i hi => (Value.ordered_iff _).mpr ?_
    simpa only [List.forall_mem_map] using h i hi

/-- Scores that are whole or not, or missing, are put in order. -/
theorem sort_keys_order_iff_scores :
    let key : SortKey := ⟨⟨"Player", "score"⟩, .descending, none⟩
    let rows : List (List Value) :=
      [[.integer 3], [.null], [.float (Binary64.ofInt 3)], [.integer 2]]
    OrdersOn (sortOrder [key]) (· ∈ rows) := by
  intro key rows
  have hcircles : ∀ a ∈ rows, ∀ b ∈ rows, ∀ c ∈ rows,
      ¬ ((a.getD 0 .null).sortOrder (b.getD 0 .null) ≠ .gt ∧
        (b.getD 0 .null).sortOrder (c.getD 0 .null) ≠ .gt ∧
        (a.getD 0 .null).sortOrder (c.getD 0 .null) = .gt ∧ b.getD 0 .null ≠ .null) := by
    decide +kernel
  refine (@sort_keys_order_iff [key] rows (by decide)).2.2 ?_
  intro i hi a ha b hb c hc hcircle
  obtain rfl : i = 0 := Nat.lt_one_iff.mp hi
  obtain ⟨⟨-, hnull, -⟩, hab, hbc, hac⟩ := hcircle.spec
  exact hcircles a ha b hb c hc ⟨hab, hbc, hac, hnull⟩

/-- Three numbers, and a text between two integers: none comes after the next one, but the first
comes after the last. -/
theorem sort_order_circles :
    let double := Value.float (Binary64.ofInt 9007199254740992)
    (Value.sortOrder (.integer 9007199254740993) double ≠ .gt ∧
        double.sortOrder (.integer 9007199254740992) ≠ .gt ∧
        Value.sortOrder (.integer 9007199254740993) (.integer 9007199254740992) = .gt) ∧
      Value.sortOrder (.integer 1) (.text "x") ≠ .gt ∧
        Value.sortOrder (.text "x") (.integer 0) ≠ .gt ∧
        Value.sortOrder (.integer 1) (.integer 0) = .gt := by
  decide +kernel

end NestedQuery
