import NestedQuery.Proofs.DoubleTexts
import NestedQuery.Proofs.InstantTexts
import NestedQuery.Proofs.SortOrder

/-!
# Values and their keys

The key of a value tells its kind and then the value, so two values with the
same key are equal, unless they are null or not a number, which equal nothing.
A whole double shares its key with an integer, which is then the same number.
-/

namespace NestedQuery

/-- An instant is one of the calendar; other values are as they come. -/
def Value.Valid : Value → Prop
  | .instant t => t.Valid
  | _ => True

instance : ∀ value : Value, Decidable value.Valid
  | .instant t => inferInstanceAs (Decidable t.Valid)
  | .null | .boolean _ | .integer _ | .float _ | .text _ => isTrue trivial

/-! ### Doubles -/

namespace Binary64

/-- Doubles compare as their places do. -/
theorem compare_of_orderKeys {x y : Binary64} {k l : Int} (hx : x.orderKey = some k)
    (hy : y.orderKey = some l) : compare x y = some (Ord.compare k l) := by
  rw [compare, hx, hy]
  rfl

/-- Doubles of one place are equal. -/
theorem compare_of_orderKey {x y : Binary64} {k : Int} (hx : x.orderKey = some k)
    (hy : y.orderKey = some k) : compare x y = some .eq :=
  (compare_of_orderKeys hx hy).trans (congrArg some (Std.LawfulEqOrd.compare_eq_iff_eq.mpr rfl))

/-- A whole double is finite; its magnitude is that of the integer, with the same sign. -/
theorem magnitude_of_whole {negative : Bool} {rank : Fin (topRank + 1)} {n : Int}
    (h : whole? (.signed negative rank) = some n) :
    magnitude rank.val = n.natAbs ∧ (n = if negative then -(n.natAbs : Int) else n.natAbs) := by
  unfold whole? at h
  dsimp only at h
  split at h
  · cases h
  · split at h
    · next hfinite hdivides =>
        obtain ⟨m, hm⟩ := Nat.dvd_of_mod_eq_zero hdivides
        have hquotient : (ratio rank.val).num / (ratio rank.val).den = m := by
          rw [hm, Nat.mul_div_cancel_left _ (den_ratio rank.val)]
        have hvalue : magnitude rank.val = m := by
          have hne : ((ratio rank.val).den : ℚ) ≠ 0 := by
            exact_mod_cast (den_ratio rank.val).ne'
          rw [← value_ratio, Ratio.value, hm]
          push_cast
          exact mul_div_cancel_left₀ _ hne
        rw [hquotient, Option.some_inj] at h
        have hmagnitude : n.natAbs = m := by
          cases negative <;> simp only [Bool.false_eq_true, if_true, if_false] at h <;> omega
        rw [hmagnitude]
        exact ⟨hvalue, h.symm⟩
    · cases h

/-- It compares as the integer. -/
theorem orderKey_of_whole {x : Binary64} {n : Int} (h : x.whole? = some n) :
    ∃ k, x.orderKey = some k ∧ (ofInt n).orderKey = some k := by
  cases x with
  | nan => cases h
  | signed negative rank =>
      obtain ⟨hmagnitude, hsign⟩ := magnitude_of_whole h
      have hrank : Ratio.rank ⟨n.natAbs, 1⟩ = rank.val := rank_of_magnitude hmagnitude
      have hleast : min rank.val topRank = rank.val := by omega
      refine ⟨_, rfl, ?_⟩
      rw [ofInt, nearest, hrank, ofRank, orderKey]
      dsimp only
      rw [hleast]
      by_cases hzero : n = 0
      · have hnone : rank.val = 0 := by
          rw [← hrank, hzero]
          rfl
        simp [hnone]
      · cases negative <;> simp only [Bool.false_eq_true, if_true, if_false] at hsign ⊢
        · rw [decide_eq_false (by omega)]
          rfl
        · rw [decide_eq_true (by omega)]
          rfl

/-- Doubles of one whole number are equal to each other and to the number. -/
theorem compare_of_whole {x y : Binary64} {n : Int} (hx : x.whole? = some n)
    (hy : y.whole? = some n) : compare x y = some .eq ∧ compare (ofInt n) x = some .eq ∧
      compare x (ofInt n) = some .eq := by
  obtain ⟨k, hone, hint⟩ := orderKey_of_whole hx
  obtain ⟨l, hother, hsame⟩ := orderKey_of_whole hy
  obtain rfl : k = l := Option.some.inj (hint.symm.trans hsame)
  exact ⟨compare_of_orderKey hone hother, compare_of_orderKey hint hone,
    compare_of_orderKey hone hint⟩

end Binary64

/-! ### Keys -/

/-- The letters with which the key of a value begins. -/
def Value.mark : Value → List Char
  | .null => ['n', 'u']
  | .boolean _ => ['b', ':']
  | .integer _ => ['n', ':']
  | .float x => if (Value.wholeKey? x).isSome then ['n', ':'] else ['f', ':']
  | .text _ => ['s', ':']
  | .instant _ => ['t', ':']

/-- A whole number is the key of a double only if the double is this number. -/
theorem Value.whole_of_wholeKey {x : Binary64} {n : Int} (h : Value.wholeKey? x = some n) :
    x.whole? = some n := by
  unfold Value.wholeKey? at h
  split at h
  · next m hm =>
      split at h
      · exact hm.trans h
      · cases h
  · cases h

/-- The key of a value begins with its mark. -/
theorem Value.take_key (value : Value) : value.key.toList.take 2 = value.mark := by
  have hletter : ∀ (letter : Char) (letters text : String), letters.toList = [letter, ':'] →
      (letters ++ text).toList.take 2 = [letter, ':'] := by
    intro letter letters text hletters
    rw [String.toList_append, hletters]
    rfl
  cases value with
  | null => decide
  | float x =>
      unfold Value.key Value.mark
      dsimp only
      cases Value.wholeKey? x with
      | none => exact hletter 'f' "f:" _ (by decide)
      | some n => exact hletter 'n' "n:" _ (by decide)
  | boolean b => exact hletter 'b' "b:" _ (by decide)
  | integer n => exact hletter 'n' "n:" _ (by decide)
  | text s => exact hletter 's' "s:" _ (by decide)
  | instant t => exact hletter 't' "t:" _ (by decide)

/-- Values of one key are of one mark. -/
theorem Value.mark_eq_of_key {a b : Value} (h : a.key = b.key) : a.mark = b.mark := by
  rw [← Value.take_key, h, Value.take_key]

/-- A text that begins with the key of a value and with the key of null begins with that of null
alone. -/
theorem Value.eq_null_of_append {value : Value} {text rest : String}
    (h : value.key ++ text = Value.null.key ++ rest) : value = .null := by
  have hmark : ∀ value : Value, value.mark.length = 2 ∧ (value.mark = ['n', 'u'] → value = .null) := by
    intro value
    cases value with
    | null => exact ⟨rfl, fun _ => rfl⟩
    | float x =>
        unfold Value.mark
        dsimp only
        split <;> exact ⟨rfl, fun heq => by simp at heq⟩
    | _ => exact ⟨rfl, fun heq => by simp [Value.mark] at heq⟩
  have htake : ∀ (value : Value) (text : String), (value.key ++ text).toList.take 2 = value.mark := by
    intro value text
    have hlength : (value.key.toList.take 2).length = 2 := by
      rw [value.take_key, (hmark value).1]
    rw [List.length_take] at hlength
    rw [String.toList_append, List.take_append_of_le_length (by omega), value.take_key]
  refine (hmark value).2 ?_
  rw [← htake value text, h, htake]
  rfl

/-- Values that have the joint key of nulls are nulls. -/
theorem Value.eq_null_of_jointKey {values : List Value}
    (h : Value.jointKey values = Value.jointKey (values.map fun _ => .null)) :
    ∀ value ∈ values, value = .null := by
  induction values with
  | nil => exact fun value hvalue => nomatch hvalue
  | cons first rest ih =>
      have hfirst : first = .null := by
        unfold Value.jointKey at h
        cases rest with
        | nil =>
            simp only [List.map_cons, List.map_nil, String.intercalate_singleton] at h
            refine @Value.eq_null_of_append first "" "" ?_
            rw [h]
        | cons second others =>
            simp only [List.map_cons, String.intercalate_cons_cons, String.append_assoc] at h
            exact Value.eq_null_of_append h
      refine List.forall_mem_cons.mpr ⟨hfirst, ih ?_⟩
      rw [hfirst] at h
      unfold Value.jointKey at h ⊢
      cases rest with
      | nil => rfl
      | cons second others =>
          simp only [List.map_cons, String.intercalate_cons_cons, String.append_assoc] at h ⊢
          exact String.append_right_inj _ |>.mp (String.append_right_inj _ |>.mp h)

/-- What compares with another value equals itself: it is neither null nor not-a-number. -/
theorem Value.sqlEq_self_of_compare {a b : Value} {order : Ordering}
    (h : a.compare b = some order) : a.sqlEq a = true := by
  have hord : ∀ {α : Type} [Ord α] [Std.LawfulEqOrd α] (x : α),
      (some (Ord.compare x x) == some Ordering.eq) = true := by
    intro α _ _ x
    rw [Std.LawfulEqOrd.compare_eq_iff_eq.mpr rfl]
    rfl
  have hdouble : ∀ {x : Binary64} {k : Int}, x.orderKey = some k →
      (Binary64.compare x x == some Ordering.eq) = true := by
    intro x k hk
    rw [Binary64.compare_of_orderKey hk hk]
    rfl
  cases a with
  | null => cases b <;> cases h
  | boolean v => exact hord v
  | integer n => exact hord n
  | text s => exact hord s
  | instant t =>
      have hself : t.compare t = .eq := by
        rw [Instant.compare, Std.LawfulEqOrd.compare_eq_iff_eq.mpr rfl,
          Std.LawfulEqOrd.compare_eq_iff_eq.mpr rfl]
        rfl
      change (some (t.compare t) == some Ordering.eq) = true
      rw [hself]
      rfl
  | float x =>
      cases hkey : x.orderKey with
      | some k => exact hdouble hkey
      | none =>
          have hnone : ∀ y, Binary64.compare x y = none := by
            intro y
            rw [Binary64.compare, hkey]
            rfl
          cases b with
          | float y => exact absurd ((hnone y).symm.trans h) (by simp)
          | integer m => exact absurd ((hnone _).symm.trans h) (by simp)
          | _ => cases h

/-- A value that equals another equals itself. -/
theorem Value.sqlEq_self {a b : Value} (h : a.sqlEq b = true) : a.sqlEq a = true :=
  Value.sqlEq_self_of_compare (beq_iff_eq.mp h)

/-- The key of a double is that of the integer that it is, or tells which double it is. -/
theorem Value.key_float (x : Binary64) :
    (∃ n, x.whole? = some n ∧ (Value.float x).mark = ['n', ':'] ∧
        (Value.float x).key = (Value.integer n).key) ∨
      (Value.float x).mark = ['f', ':'] ∧ (Value.float x).key = "f:" ++ x.plainText := by
  unfold Value.key Value.mark
  dsimp only
  cases hwhole : Value.wholeKey? x with
  | none => exact Or.inr ⟨rfl, rfl⟩
  | some n => exact Or.inl ⟨n, Value.whole_of_wholeKey hwhole, rfl, rfl⟩

/-- Integers are told by their keys. -/
theorem Value.integer_of_key {n m : Int} (h : (Value.integer n).key = (Value.integer m).key) :
    n = m :=
  toString_int_injective ((String.append_right_inj _).mp h)

/-- An integer equals the whole doubles with its key. -/
theorem Value.compare_integer_float {n : Int} {x : Binary64}
    (h : (Value.integer n).key = (Value.float x).key) :
    (Value.integer n).sqlEq (.float x) = true ∧ (Value.float x).sqlEq (.integer n) = true := by
  have hmark := Value.mark_eq_of_key h
  rcases Value.key_float x with ⟨m, hwhole, -, hkey⟩ | ⟨hother, -⟩
  · obtain rfl := Value.integer_of_key (h.trans hkey)
    obtain ⟨-, hleft, hright⟩ := Binary64.compare_of_whole hwhole hwhole
    exact ⟨beq_iff_eq.mpr hleft, beq_iff_eq.mpr hright⟩
  · rw [hother] at hmark
    cases hmark

/-- Doubles with the same key are equal, if they are numbers. -/
theorem Value.compare_floats {x y : Binary64} (hself : (Value.float x).sqlEq (.float x) = true)
    (h : (Value.float x).key = (Value.float y).key) :
    (Value.float x).sqlEq (.float y) = true := by
  have hmark := Value.mark_eq_of_key h
  rcases Value.key_float x with ⟨n, hone, hmarkOne, hkeyOne⟩ | ⟨hmarkOne, hkeyOne⟩ <;>
    rcases Value.key_float y with ⟨m, hother, hmarkOther, hkeyOther⟩ | ⟨hmarkOther, hkeyOther⟩
  · obtain rfl := Value.integer_of_key (hkeyOne.symm.trans (h.trans hkeyOther))
    exact beq_iff_eq.mpr (Binary64.compare_of_whole hone hother).1
  · rw [hmarkOne, hmarkOther] at hmark
    cases hmark
  · rw [hmarkOne, hmarkOther] at hmark
    cases hmark
  · rw [hkeyOne, hkeyOther, String.append_right_inj] at h
    rwa [Binary64.plainText_injective h] at hself ⊢

/-- Values with the same key are equal, unless they do not even equal themselves. -/
theorem Value.sqlEq_of_key_eq {a b : Value} (ha : a.Valid) (hb : b.Valid)
    (hself : a.sqlEq a = true) (h : a.key = b.key) : a.sqlEq b = true := by
  have hmark := Value.mark_eq_of_key h
  have hfloat : ∀ x, (Value.float x).mark = ['n', ':'] ∨ (Value.float x).mark = ['f', ':'] := by
    intro x
    rcases Value.key_float x with ⟨-, -, hwhole, -⟩ | ⟨hother, -⟩
    · exact Or.inl hwhole
    · exact Or.inr hother
  cases a with
  | null => cases hself
  | integer n =>
      cases b with
      | integer m => rwa [← Value.integer_of_key h]
      | float x => exact (Value.compare_integer_float h).1
      | _ => cases hmark
  | float x =>
      cases b with
      | integer n => exact (Value.compare_integer_float h.symm).2
      | float y => exact Value.compare_floats hself h
      | _ => rcases hfloat x with hx | hx <;> (rw [hx] at hmark; cases hmark)
  | boolean v =>
      cases b with
      | boolean w =>
          have hsame : toString v = toString w := (String.append_right_inj _).mp h
          cases v <;> cases w <;> first | rfl | exact absurd hsame (by decide)
      | float x => rcases hfloat x with hx | hx <;> (rw [hx] at hmark; cases hmark)
      | _ => cases hmark
  | text s =>
      cases b with
      | text t =>
          have hsame : s = t := (String.append_right_inj _).mp h
          rwa [← hsame]
      | float x => rcases hfloat x with hx | hx <;> (rw [hx] at hmark; cases hmark)
      | _ => cases hmark
  | instant s =>
      cases b with
      | instant t =>
          have hsame : s = t := Instant.plainText_injective ha hb ((String.append_right_inj _).mp h)
          rwa [← hsame]
      | float x => rcases hfloat x with hx | hx <;> (rw [hx] at hmark; cases hmark)
      | _ => cases hmark

end NestedQuery
