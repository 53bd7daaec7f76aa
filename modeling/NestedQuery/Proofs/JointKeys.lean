import NestedQuery.Proofs.Nesting
import NestedQuery.Proofs.ValueKeys

/-!
# Joint keys and the keys in them

A joint key is the keys of some values, one after the other, with a separator
between them.  Every key begins with letters that tell the kind of its value, so
a separator of the joint key stands before such letters.  A text may hold the
separator too, and such letters behind it: then a part of the text looks like the
key of another value.  How many such places a joint key has is known from the
number of values and from their texts, and a joint key can only be read in two
ways if the places lie in different texts.
-/

namespace NestedQuery

/-! ### The separator in keys -/

/-- The separator is no digit. -/
theorem AllDigits.separator_notMem {cs : List Char} (h : AllDigits cs) : '\x1f' ∉ cs := by
  intro hmem
  have hdigit := h _ hmem
  cases hdigit

/-- No integer is written with the separator. -/
theorem separator_notMem_integer (n : Int) : '\x1f' ∉ (toString n).toList := by
  have hdigits : ∀ m : Nat, '\x1f' ∉ (toString m).toList := by
    intro m
    rw [toList_toString]
    exact (allDigits_toDigits m).separator_notMem
  cases n with
  | ofNat m => exact hdigits m
  | negSucc m =>
      have htext : (toString (Int.negSucc m)).toList = '-' :: (toString (m + 1)).toList :=
        String.toList_append
      rw [htext, List.mem_cons, not_or]
      exact ⟨by decide, hdigits (m + 1)⟩

/-- Neither is a double. -/
theorem separator_notMem_double (x : Binary64) : '\x1f' ∉ x.plainText.toList := by
  have hplain : ∀ d : Decimal.Digits, '\x1f' ∉ d.plain.toList := by
    intro d
    have hdigits := fun zeros => (allDigits_zeros zeros d.digits).separator_notMem
    rcases Decimal.plain_cases d with ⟨-, htext⟩ | ⟨whole, places, htext, -, -, zeros, hsplit⟩
    · have hzeros := hdigits d.power.toNat
      rw [List.mem_append, not_or] at hzeros
      rw [htext, List.mem_append, not_or]
      exact ⟨hzeros.2, hzeros.1⟩
    · have hzeros := hdigits zeros
      rw [← hsplit, List.mem_append, not_or] at hzeros
      rw [htext, List.mem_append, List.mem_cons, not_or, not_or]
      exact ⟨hzeros.1, by decide, hzeros.2⟩
  cases x with
  | nan => decide
  | signed negative rank =>
      have hsign : '\x1f' ∉ (Binary64.signText negative).toList := by
        cases negative <;> decide
      rw [Binary64.plainText_signed, String.toList_append, List.mem_append, not_or]
      refine ⟨hsign, ?_⟩
      unfold Binary64.magnitudeText
      split
      · decide
      · split
        · decide
        · exact hplain _

/-- Neither is an instant. -/
theorem separator_notMem_instant (t : Instant) : '\x1f' ∉ t.plainText.toList := by
  have hnumber : ∀ width n, '\x1f' ∉ (Instant.padded width n).toList := fun width n =>
    (Instant.allDigits_padded width n).separator_notMem
  have hyear : ∀ year, '\x1f' ∉ (Instant.yearText year).toList := by
    intro year
    rw [Instant.toList_yearText, List.mem_append, not_or]
    refine ⟨?_, hnumber 4 _⟩
    rcases Instant.yearSign_cases year with ⟨h, -⟩ | ⟨h, -⟩ | ⟨h, -⟩ <;> rw [h] <;> decide
  have hfraction : '\x1f' ∉ (Instant.fractionText (t.nanos % 1000000000)).toList := by
    by_cases hzero : t.nanos % 1000000000 = 0
    · rw [hzero]
      decide
    · obtain ⟨width, part, htext, -⟩ :=
        Instant.toList_fractionText hzero (Nat.mod_lt _ (by decide))
      rw [htext, List.mem_cons, not_or]
      exact ⟨by decide, hnumber width part⟩
  rw [Instant.toList_plainText]
  simp only [List.mem_append, List.mem_cons, not_or]
  exact ⟨hyear _, by decide, hnumber _ _, by decide, hnumber _ _, by decide, hnumber _ _, by decide,
    hnumber _ _, by decide, hnumber _ _, hfraction, by decide, by decide⟩

/-- Only the key of a text may hold the separator. -/
theorem Value.separator_notMem_key {value : Value} (h : value.text? = none) :
    '\x1f' ∉ value.key.toList := by
  have hmarked : ∀ {mark text : String}, '\x1f' ∉ mark.toList → '\x1f' ∉ text.toList →
      '\x1f' ∉ (mark ++ text).toList := by
    intro mark text hmark htext
    rw [String.toList_append, List.mem_append, not_or]
    exact ⟨hmark, htext⟩
  cases value with
  | null => decide
  | boolean b => cases b <;> decide
  | integer n => exact hmarked (by decide) (separator_notMem_integer n)
  | float x =>
      unfold Value.key
      dsimp only
      cases Value.wholeKey? x with
      | some n => exact hmarked (by decide) (separator_notMem_integer n)
      | none => exact hmarked (by decide) (separator_notMem_double x)
  | text s => cases h
  | instant t => exact hmarked (by decide) (separator_notMem_instant t)

/-! ### Where a key may begin -/

/-- The letters with which keys begin. -/
def keyMarks : List (List Char) :=
  [['n', 'u'], ['b', ':'], ['n', ':'], ['f', ':'], ['s', ':'], ['t', ':']]

/-- The key of a value begins with one of the marks. -/
theorem Value.mark_mem (value : Value) : value.mark ∈ keyMarks := by
  cases value with
  | float x =>
      unfold Value.mark
      dsimp only
      split <;> decide
  | _ => simp [Value.mark, keyMarks]

/-- In how many places the separator stands before letters with which a key begins. -/
def separatedKeys : List Char → Nat
  | [] => 0
  | c :: rest => (if c = '\x1f' ∧ rest.take 2 ∈ keyMarks then 1 else 0) + separatedKeys rest

/-- How many parts of a text look like the key of another value behind a separator. -/
def Value.innerKeys : Value → Nat
  | .text s => separatedKeys s.toList
  | _ => 0

/-- A separator before a mark counts. -/
theorem separatedKeys_separator {rest : List Char} (h : rest.take 2 ∈ keyMarks) :
    separatedKeys ('\x1f' :: rest) = separatedKeys rest + 1 := by
  rw [separatedKeys, if_pos ⟨rfl, h⟩, Nat.add_comm]

/-- No other character counts. -/
theorem separatedKeys_cons {c : Char} (h : c ≠ '\x1f') (rest : List Char) :
    separatedKeys (c :: rest) = separatedKeys rest := by
  rw [separatedKeys, if_neg (fun hmark => h hmark.1), Nat.zero_add]

/-- A text without separators has no such place. -/
theorem separatedKeys_of_free {cs : List Char} (h : '\x1f' ∉ cs) : separatedKeys cs = 0 := by
  induction cs with
  | nil => rfl
  | cons c rest ih =>
      rw [List.mem_cons, not_or] at h
      rw [separatedKeys_cons (Ne.symm h.1), ih h.2]

/-- The separator is no such letter, so what begins before it begins without it. -/
theorem take_append_mem_keyMarks (cs ds : List Char) :
    (cs ++ '\x1f' :: ds).take 2 ∈ keyMarks ↔ cs.take 2 ∈ keyMarks := by
  match cs with
  | [] => simp [keyMarks]
  | [c] => simp [keyMarks]
  | c :: d :: rest => simp

/-- Such places are counted before and behind a separator. -/
theorem separatedKeys_append (cs ds : List Char) :
    separatedKeys (cs ++ '\x1f' :: ds) = separatedKeys cs + separatedKeys ('\x1f' :: ds) := by
  induction cs with
  | nil => simp [separatedKeys]
  | cons c rest ih =>
      simp only [List.cons_append, separatedKeys.eq_2 c, ih, take_append_mem_keyMarks]
      omega

/-- In a key these places are those of its text. -/
theorem Value.separatedKeys_key (value : Value) :
    separatedKeys value.key.toList = value.innerKeys := by
  cases htext : value.text? with
  | none =>
      rw [separatedKeys_of_free (Value.separator_notMem_key htext)]
      cases value with
      | text s => cases htext
      | _ => rfl
  | some s =>
      cases value with
      | text s =>
          have hkey : (Value.text s).key.toList = 's' :: ':' :: s.toList := String.toList_append
          rw [hkey, separatedKeys_cons (by decide), separatedKeys_cons (by decide)]
          rfl
      | _ => cases htext

/-! ### Joint keys -/

/-- The joint key of two lists is that of each, with the separator between them. -/
theorem Value.jointKey_append {values others : List Value} (hvalues : values ≠ [])
    (hothers : others ≠ []) : Value.jointKey (values ++ others) =
      Value.jointKey values ++ "\x1f" ++ Value.jointKey others := by
  unfold Value.jointKey
  rw [List.map_append, String.intercalate_append_of_ne_nil (by simpa using hvalues)
    (by simpa using hothers)]

/-- What stands before and after values in a joint key tells nothing. -/
theorem Value.jointKey_between (before after : List Value) {values others : List Value}
    (hvalues : values ≠ []) (hothers : others ≠ []) :
    Value.jointKey (before ++ values ++ after) = Value.jointKey (before ++ others ++ after) ↔
      Value.jointKey values = Value.jointKey others := by
  have hbefore : ∀ {values others : List Value}, values ≠ [] → others ≠ [] →
      (Value.jointKey (before ++ values) = Value.jointKey (before ++ others) ↔
        Value.jointKey values = Value.jointKey others) := by
    intro values others hvalues hothers
    by_cases hnone : before = []
    · subst hnone
      rfl
    · rw [Value.jointKey_append hnone hvalues, Value.jointKey_append hnone hothers,
        String.append_right_inj]
  by_cases hnone : after = []
  · subst hnone
    rw [List.append_nil, List.append_nil]
    exact hbefore hvalues hothers
  · rw [Value.jointKey_append (by simp [hvalues]) hnone,
      Value.jointKey_append (by simp [hothers]) hnone, String.append_assoc, String.append_assoc,
      String.append_left_inj]
    exact hbefore hvalues hothers

/-- The first key stands before the joint key of the rest. -/
theorem Value.jointKey_cons (value second : Value) (rest : List Value) :
    (Value.jointKey (value :: second :: rest)).toList =
      value.key.toList ++ '\x1f' :: (Value.jointKey (second :: rest)).toList := by
  simp only [Value.jointKey, List.map_cons, String.intercalate_cons_cons, String.toList_append,
    List.append_assoc]
  rfl

/-- The joint key of one value is its key. -/
theorem Value.jointKey_one (value : Value) : Value.jointKey [value] = value.key := by
  simp [Value.jointKey]

/-- A joint key begins as a key does. -/
theorem Value.take_jointKey (value : Value) (rest : List Value) :
    (Value.jointKey (value :: rest)).toList.take 2 ∈ keyMarks := by
  have hkey : value.key.toList.take 2 ∈ keyMarks := by
    rw [value.take_key]
    exact value.mark_mem
  cases rest with
  | nil => rwa [Value.jointKey_one]
  | cons second others => rwa [Value.jointKey_cons, take_append_mem_keyMarks]

/-- A joint key has such a place before every value but the first, besides those in the texts. -/
theorem Value.separatedKeys_jointKey (value : Value) (rest : List Value) :
    separatedKeys (Value.jointKey (value :: rest)).toList =
      rest.length + ((value :: rest).map Value.innerKeys).sum := by
  induction rest generalizing value with
  | nil =>
      rw [Value.jointKey_one, Value.separatedKeys_key]
      simp
  | cons second others ih =>
      rw [Value.jointKey_cons, separatedKeys_append,
        separatedKeys_separator (Value.take_jointKey second others), ih second,
        Value.separatedKeys_key]
      simp only [List.map_cons, List.sum_cons, List.length_cons]
      omega

/-- A text is cut before a joint key in one place only, if the number of such places is known.  What
the longer of the two has on top would begin with such a place. -/
theorem split_before_jointKey {one other rest more : List Char} (hrest : rest.take 2 ∈ keyMarks)
    (hmore : more.take 2 ∈ keyMarks) (hcount : separatedKeys one = separatedKeys other)
    (h : one ++ '\x1f' :: rest = other ++ '\x1f' :: more) : one = other ∧ rest = more := by
  have hlonger : ∀ {one other rest more between : List Char}, rest.take 2 ∈ keyMarks →
      separatedKeys one = separatedKeys other → other = one ++ between →
      '\x1f' :: rest = between ++ '\x1f' :: more → between = [] := by
    intro one other rest more between hrest hcount hother htail
    cases between with
    | nil => rfl
    | cons c inner =>
        obtain ⟨rfl, hinner⟩ := List.cons.inj htail
        rw [hinner, List.append_eq, take_append_mem_keyMarks] at hrest
        rw [hother, separatedKeys_append, separatedKeys_separator hrest] at hcount
        omega
  rcases List.append_eq_append_iff.mp h with ⟨between, hother, htail⟩ | ⟨between, hone, htail⟩
  · have hnone := hlonger hrest hcount hother htail
    subst hnone
    exact ⟨by simpa using hother.symm, by simpa using htail⟩
  · have hnone := hlonger hmore hcount.symm hone htail
    subst hnone
    exact ⟨by simpa using hone, by simpa using htail.symm⟩

/-- Where corresponding values have as many parts that look like keys, a joint key tells the
keys. -/
theorem Value.keys_of_innerKeys {values others : List Value}
    (hinner : values.map Value.innerKeys = others.map Value.innerKeys)
    (h : Value.jointKey values = Value.jointKey others) :
    values.map Value.key = others.map Value.key := by
  induction values generalizing others with
  | nil =>
      rw [List.map_eq_nil_iff.mp hinner.symm]
  | cons value rest ih =>
      cases others with
      | nil => cases hinner
      | cons other more =>
          obtain ⟨hfirst, hothers⟩ := List.cons.inj hinner
          have hlength : rest.length = more.length := by
            simpa using congrArg List.length hothers
          cases rest with
          | nil =>
              obtain rfl := List.length_eq_zero_iff.mp hlength.symm
              rw [Value.jointKey_one, Value.jointKey_one] at h
              rw [List.map_singleton, List.map_singleton, h]
          | cons second rest =>
              obtain ⟨another, more, rfl⟩ := List.exists_cons_of_length_eq_add_one hlength.symm
              have htext := congrArg String.toList h
              rw [Value.jointKey_cons, Value.jointKey_cons] at htext
              obtain ⟨hkey, htail⟩ := split_before_jointKey (Value.take_jointKey second rest)
                (Value.take_jointKey another more)
                (by rw [Value.separatedKeys_key, Value.separatedKeys_key, hfirst]) htext
              exact congrArg₂ List.cons (String.toList_inj.mp hkey)
                (ih hothers (String.toList_inj.mp htail))

/-- Equally many values of one joint key hold, taken together, equally many parts that look like
keys. -/
theorem Value.sum_innerKeys {values others : List Value} (hlength : values.length = others.length)
    (h : Value.jointKey values = Value.jointKey others) :
    (values.map Value.innerKeys).sum = (others.map Value.innerKeys).sum := by
  cases values with
  | nil =>
      rw [List.length_eq_zero_iff.mp hlength.symm]
  | cons value rest =>
      cases others with
      | nil => cases hlength
      | cons other more =>
          have hone := Value.separatedKeys_jointKey value rest
          have hother := Value.separatedKeys_jointKey other more
          rw [h, hother, Nat.succ.inj hlength] at hone
          omega

/-- Lists with one sum that agree everywhere but in one place agree there, too. -/
theorem eq_of_sum_eq {counts others : List Nat} (hlength : counts.length = others.length)
    {place : Nat} (hplace : ∀ i, i ≠ place → counts[i]? = others[i]?)
    (hsum : counts.sum = others.sum) : counts = others := by
  induction counts generalizing others place with
  | nil => exact (List.length_eq_zero_iff.mp hlength.symm).symm
  | cons count rest ih =>
      obtain ⟨other, more, rfl⟩ := List.exists_cons_of_length_eq_add_one hlength.symm
      rw [List.sum_cons, List.sum_cons] at hsum
      cases place with
      | zero =>
          have hrest : rest = more := List.ext_getElem? fun i => hplace (i + 1) (Nat.succ_ne_zero i)
          subst hrest
          rw [Nat.add_right_cancel hsum]
      | succ place =>
          obtain rfl : count = other := Option.some.inj (hplace 0 (Nat.succ_ne_zero place).symm)
          have hrest : ∀ i, i ≠ place → rest[i]? = more[i]? := fun i hi =>
            hplace (i + 1) fun h => hi (Nat.succ.inj h)
          rw [ih (Nat.succ.inj hlength) hrest (Nat.add_left_cancel hsum)]

/-- Values have equal keys if they have one joint key and equally many parts that look like keys. -/
theorem Value.keys_eq_iff {values others : List Value} :
    values.map Value.key = others.map Value.key ↔
      Value.jointKey values = Value.jointKey others ∧
        values.map Value.innerKeys = others.map Value.innerKeys := by
  constructor
  · intro hkeys
    refine ⟨congrArg (String.intercalate "\x1f") hkeys, ?_⟩
    have hinner : ∀ list : List Value, list.map Value.innerKeys =
        (list.map Value.key).map fun key => separatedKeys key.toList := by
      intro list
      rw [List.map_map]
      exact List.map_congr_left fun value _ => value.separatedKeys_key.symm
    rw [hinner, hinner, hkeys]
  · rintro ⟨hjoint, hinner⟩
    exact Value.keys_of_innerKeys hinner hjoint

/-! ### Telling items apart -/

/-- Items with as many values each have equal keys exactly if they have one joint key and their
texts hold equally many parts that look like keys behind a separator.  If the items differ in that
number in one place at most, the joint key decides alone: items of one group have equal keys, and
for every item the first one with its keys is kept. -/
theorem joint_keys_keep_apart {α : Type} {vector : α → List Value} {items : List α} {width : Nat}
    (hwidth : ∀ item ∈ items, (vector item).length = width) :
    (∀ one ∈ items, ∀ other ∈ items,
      (vector one).map Value.key = (vector other).map Value.key ↔
        Value.jointKey (vector one) = Value.jointKey (vector other) ∧
          (vector one).map Value.innerKeys = (vector other).map Value.innerKeys) ∧
    ∀ place : Nat, (∀ one ∈ items, ∀ other ∈ items, ∀ i, i ≠ place →
        ((vector one).map Value.innerKeys)[i]? = ((vector other).map Value.innerKeys)[i]?) →
      (∀ one ∈ items, ∀ other ∈ items,
        Value.jointKey (vector one) = Value.jointKey (vector other) ↔
          (vector one).map Value.key = (vector other).map Value.key) ∧
      (∀ group ∈ groupsOf (fun item => Value.jointKey (vector item)) items,
        ∀ one ∈ group, ∀ other ∈ group,
          (vector one).map Value.key = (vector other).map Value.key) ∧
      ∀ item ∈ items, ∃ kept ∈ firstOfEach (fun item => Value.jointKey (vector item)) [] items,
        (vector kept).map Value.key = (vector item).map Value.key := by
  refine ⟨fun one _ other _ => Value.keys_eq_iff, fun place hplace => ?_⟩
  have hsame : ∀ one ∈ items, ∀ other ∈ items,
      Value.jointKey (vector one) = Value.jointKey (vector other) ↔
        (vector one).map Value.key = (vector other).map Value.key := by
    intro one hone other hother
    constructor
    · intro hjoint
      have hlength : (vector one).length = (vector other).length := by
        rw [hwidth one hone, hwidth other hother]
      apply Value.keys_eq_iff.mpr
      refine ⟨hjoint, eq_of_sum_eq (by simpa using hlength) (hplace one hone other hother) ?_⟩
      exact Value.sum_innerKeys hlength hjoint
    · exact fun hkeys => (Value.keys_eq_iff.mp hkeys).1
  refine ⟨hsame, fun group hgroup one hone other hother => ?_, fun item hitem => ?_⟩
  · obtain ⟨first, -, rfl⟩ := List.mem_map.mp hgroup
    rw [List.mem_filter, beq_iff_eq] at hone hother
    exact (hsame one hone.1 other hother.1).mp (hone.2.trans hother.2.symm)
  · obtain ⟨kept, hkept, hkey⟩ :=
      (exists_firstOfEach (fun item => Value.jointKey (vector item)) [] hitem).resolve_left
        List.not_mem_nil
    exact ⟨kept, hkept, (hsame kept ((firstOfEach_sublist _ _ _).subset hkept) item hitem).mp hkey⟩

/-- Only the second of these values hold such parts. -/
theorem joint_keys_keep_apart_labels :
    let rows : List (List Value) :=
      [[.integer 1, .text "x"], [.integer 1, .text "x\x1fs:y"], [.null, .text "x"]]
    ∃ kept ∈ firstOfEach Value.jointKey [] rows, kept.map Value.key = ["n:1", "s:x\x1fs:y"] := by
  intro rows
  have hplace : ∀ one ∈ rows, ∀ other ∈ rows, ∀ i, i ≠ 1 →
      (one.map Value.innerKeys)[i]? = (other.map Value.innerKeys)[i]? := by
    intro one hone other hother i hi
    match i with
    | 0 => revert one other; decide
    | 1 => exact absurd rfl hi
    | i + 2 =>
        simp only [rows, List.mem_cons, List.not_mem_nil, or_false] at hone hother
        rcases hone with rfl | rfl | rfl <;> rcases hother with rfl | rfl | rfl <;> rfl
  obtain ⟨-, hapart⟩ := @joint_keys_keep_apart _ id rows 2 (by decide)
  exact (hapart 1 hplace).2.2 [.integer 1, .text "x\x1fs:y"] (by decide)

/-- Two rows of one joint key of which no values have the same key. -/
theorem joint_key_merges_texts :
    Value.jointKey [.text "x\x1fs:y", .text "z"] = Value.jointKey [.text "x", .text "y\x1fs:z"] ∧
      (Value.text "x\x1fs:y").key ≠ (Value.text "x").key ∧
      (Value.text "z").key ≠ (Value.text "y\x1fs:z").key ∧
      (firstOfEach Value.jointKey []
        [[.text "x\x1fs:y", .text "z"], [.text "x", .text "y\x1fs:z"]]).length = 1 := by
  decide

end NestedQuery
