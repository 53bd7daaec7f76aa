import NestedQuery.Proofs.Loading
import NestedQuery.Proofs.RoundedIntegers

/-!
# Equal values and their keys

Follow-up statements select related rows by values that are equal, and what they
yield goes to owners by keys.  Values of one key are equal.  Equal values have
one key, too, unless an integer meets a double that it is not, or is one that is
too large to share its key, or an instant meets a text: an integer meets doubles
rounded, and a text can be read as an instant while it keeps the key of a text.
Where links hold no such values, every row that is selected has an owner.
-/

namespace NestedQuery

variable {schema : Schema} {db : Database}

/-! ### Equal doubles -/

namespace Binary64

/-- Doubles that compare have places among the others, and compare as these do. -/
theorem orderKeys_of_compare {x y : Binary64} {order : Ordering} (h : compare x y = some order) :
    ∃ k l, x.orderKey = some k ∧ y.orderKey = some l ∧ Ord.compare k l = order := by
  unfold compare at h
  cases hx : x.orderKey with
  | none =>
      rw [hx] at h
      cases h
  | some k =>
      cases hy : y.orderKey with
      | none =>
          rw [hx, hy] at h
          cases h
      | some l =>
          rw [hx, hy] at h
          exact ⟨k, l, rfl, rfl, Option.some.inj h⟩

/-- Equal doubles have one place. -/
theorem orderKey_of_compare {x y : Binary64} (h : compare x y = some .eq) :
    ∃ k, x.orderKey = some k ∧ y.orderKey = some k := by
  obtain ⟨k, l, hx, hy, hsame⟩ := orderKeys_of_compare h
  obtain rfl := Std.LawfulEqOrd.compare_eq_iff_eq.mp hsame
  exact ⟨k, hx, hy⟩

/-- Equal doubles are the same or both zero. -/
theorem eq_or_zero_of_orderKey {x y : Binary64} {k : Int} (hx : x.orderKey = some k)
    (hy : y.orderKey = some k) : x = y ∨ x.whole? = some 0 ∧ y.whole? = some 0 := by
  have hzero : ∀ (negative : Bool) {rank : Fin (topRank + 1)}, rank.val = 0 →
      whole? (.signed negative rank) = some 0 := by
    intro negative rank hrank
    have hmagnitude : magnitude rank.val = (0 : Nat) := by
      simp [magnitude, significand, hrank]
    have hwhole := @whole_of_magnitude negative rank 0 (by rw [hrank]; decide) hmagnitude
    rw [hwhole]
    cases negative <;> rfl
  cases x with
  | nan => cases hx
  | signed negative rank =>
      cases y with
      | nan => cases hy
      | signed other more =>
          have hkeys := hx.trans hy.symm
          unfold orderKey at hkeys
          rw [Option.some_inj] at hkeys
          by_cases hsign : negative = other
          · subst hsign
            left
            rw [Binary64.signed.injEq]
            refine ⟨rfl, Fin.ext ?_⟩
            cases negative
            · exact Int.ofNat.inj hkeys
            · exact Int.ofNat.inj (Int.neg_inj.mp hkeys)
          · right
            have hnone : rank.val = 0 ∧ more.val = 0 := by
              cases negative <;> cases other <;>
                simp only [Bool.false_eq_true, if_false, if_true] at hkeys <;>
                first | omega | exact absurd rfl hsign
            exact ⟨hzero negative hnone.1, hzero other hnone.2⟩

/-- Doubles of one place are the same whole number, or none. -/
theorem whole_congr {x y : Binary64} {k : Int} (hx : x.orderKey = some k)
    (hy : y.orderKey = some k) : x.whole? = y.whole? := by
  rcases eq_or_zero_of_orderKey hx hy with rfl | ⟨hone, hother⟩
  · rfl
  · rw [hone, hother]

end Binary64

/-! ### Equal values -/

/-- Whether the two values have one key if they are equal: an integer beside a double has to have a
double of its own key, and an instant must not stand beside a text. -/
def Value.keyedAlike : Value → Value → Bool
  | .integer n, .float _ | .float _, .integer n => Value.wholeKey? (Binary64.ofInt n) == some n
  | .text _, .instant _ | .instant _, .text _ => false
  | _, _ => true

/-- So they have the same whole number as a key, or none. -/
theorem Value.wholeKey_congr {x y : Binary64} {k : Int} (hx : x.orderKey = some k)
    (hy : y.orderKey = some k) : Value.wholeKey? x = Value.wholeKey? y := by
  unfold Value.wholeKey?
  rw [Binary64.whole_congr hx hy]

/-- Equal doubles have one key. -/
theorem Value.key_float_congr {x y : Binary64} (h : Binary64.compare x y = some .eq) :
    (Value.float x).key = (Value.float y).key := by
  obtain ⟨k, hx, hy⟩ := Binary64.orderKey_of_compare h
  have hzero : ∀ z : Binary64, z.whole? = some 0 →
      (Value.float z).key = (Value.integer 0).key := by
    intro z hz
    unfold Value.key Value.wholeKey?
    simp [hz]
  rcases Binary64.eq_or_zero_of_orderKey hx hy with rfl | ⟨hone, hother⟩
  · rfl
  · rw [hzero x hone, hzero y hother]

/-- An integer has the key of a double that is equal to it if the double next to it has its key. -/
theorem Value.key_integer_float {n : Int} {x : Binary64}
    (h : Binary64.compare (Binary64.ofInt n) x = some .eq) :
    (Value.integer n).key = (Value.float x).key ↔
      Value.wholeKey? (Binary64.ofInt n) = some n := by
  obtain ⟨k, hint, hx⟩ := Binary64.orderKey_of_compare h
  rw [Value.wholeKey_congr hint hx]
  constructor
  · intro hkey
    have hmark := Value.mark_eq_of_key hkey
    cases hwhole : Value.wholeKey? x with
    | some m =>
        have hsame : (Value.float x).key = (Value.integer m).key := by
          unfold Value.key
          simp [hwhole]
        rw [Value.integer_of_key (hkey.trans hsame)]
    | none =>
        rw [Value.mark, Value.mark, hwhole] at hmark
        cases hmark
  · intro hwhole
    unfold Value.key
    simp [hwhole]

/-- Instants that compare as equal are the same. -/
theorem Instant.eq_of_compare {s t : Instant} (h : s.compare t = .eq) : s = t := by
  rw [Instant.compare, Ordering.then_eq_eq] at h
  obtain ⟨hseconds, hnanos⟩ := h
  cases s
  cases t
  rw [Instant.mk.injEq]
  exact ⟨Std.LawfulEqOrd.compare_eq_iff_eq.mp hseconds, Std.LawfulEqOrd.compare_eq_iff_eq.mp hnanos⟩

/-- Equal values have one key exactly if they are keyed alike. -/
theorem Value.key_iff_of_sqlEq {a b : Value} (h : a.sqlEq b = true) :
    a.key = b.key ↔ a.keyedAlike b = true := by
  have hcompare : a.compare b = some .eq := beq_iff_eq.mp h
  have hapart : ∀ (s : String) (t : Instant), (Value.text s).key ≠ (Value.instant t).key := by
    intro s t hkey
    cases Value.mark_eq_of_key hkey
  cases a with
  | null => cases b <;> cases hcompare
  | boolean v =>
      cases b with
      | boolean w =>
          rw [Std.LawfulEqOrd.compare_eq_iff_eq.mp (Option.some.inj hcompare)]
          exact iff_of_true rfl rfl
      | _ => cases hcompare
  | integer n =>
      cases b with
      | integer m =>
          rw [Std.LawfulEqOrd.compare_eq_iff_eq.mp (Option.some.inj hcompare)]
          exact iff_of_true rfl rfl
      | float x =>
          rw [Value.key_integer_float hcompare]
          exact beq_iff_eq.symm
      | _ => cases hcompare
  | float x =>
      cases b with
      | integer m =>
          have hother : Binary64.compare (Binary64.ofInt m) x = some .eq := by
            rw [Binary64.compare_swap, show Binary64.compare x (Binary64.ofInt m) = _ from hcompare]
            rfl
          rw [eq_comm, Value.key_integer_float hother]
          exact beq_iff_eq.symm
      | float y => exact iff_of_true (Value.key_float_congr hcompare) rfl
      | _ => cases hcompare
  | text s =>
      cases b with
      | text u =>
          rw [Std.LawfulEqOrd.compare_eq_iff_eq.mp (Option.some.inj hcompare)]
          exact iff_of_true rfl rfl
      | instant t => exact iff_of_false (hapart s t) Bool.false_ne_true
      | _ => cases hcompare
  | instant t =>
      cases b with
      | text s => exact iff_of_false (hapart s t).symm Bool.false_ne_true
      | instant u =>
          rw [Instant.eq_of_compare (Option.some.inj hcompare)]
          exact iff_of_true rfl rfl
      | _ => cases hcompare

/-- A value that is neither null nor not-a-number equals itself. -/
theorem Value.sqlEq_self_of_number {a : Value} (hnull : a ≠ .null) (hnan : a ≠ .float .nan) :
    a.sqlEq a = true := by
  have hcompare : ∃ order, a.compare a = some order := by
    cases a with
    | null => exact absurd rfl hnull
    | float x =>
        cases x with
        | nan => exact absurd rfl hnan
        | signed negative rank => exact ⟨_, rfl⟩
    | _ => exact ⟨_, rfl⟩
  obtain ⟨order, hcompare⟩ := hcompare
  exact Value.sqlEq_self_of_compare hcompare

/-- Values have one key if they are equal and keyed alike. -/
theorem Value.key_eq_iff_sqlEq {a b : Value} (ha : a.Valid) (hb : b.Valid) (hnull : a ≠ .null)
    (hnan : a ≠ .float .nan) : a.key = b.key ↔ a.sqlEq b = true ∧ a.keyedAlike b = true := by
  constructor
  · intro hkey
    have hequal := Value.sqlEq_of_key_eq ha hb (Value.sqlEq_self_of_number hnull hnan) hkey
    exact ⟨hequal, (Value.key_iff_of_sqlEq hequal).mp hkey⟩
  · rintro ⟨hequal, halike⟩
    exact (Value.key_iff_of_sqlEq hequal).mpr halike

/-! ### Batches -/

/-- Of the values that a relation compares the equal ones are keyed alike: those of its target and
those of a batch, or either of them and those of the links between. -/
structure Relation.KeyedAlike (db : Database) (relation : Relation) (values : List Value) :
    Prop where
  direct : relation.junction = none → ∀ row ∈ db.rows relation.target, ∀ value ∈ values,
    (row.value relation.toColumn).sqlEq value = true →
      (row.value relation.toColumn).keyedAlike value = true
  owners : ∀ junction, relation.junction = some junction → ∀ link ∈ db.rows junction.table,
    ∀ value ∈ values, (link.value junction.fromColumn).sqlEq value = true →
      (link.value junction.fromColumn).keyedAlike value = true
  targets : ∀ junction, relation.junction = some junction → ∀ row ∈ db.rows relation.target,
    ∀ link ∈ db.rows junction.table,
      (row.value relation.toColumn).sqlEq (link.value junction.toColumn) = true →
        (row.value relation.toColumn).keyedAlike (link.value junction.toColumn) = true

/-- The keys by which the target of a relation is asked for a batch of values. -/
def Relation.targetKeys (db : Database) (relation : Relation) (values : List Value) : List Value :=
  match relation.junction with
  | none => distinctKeys values
  | some junction => junction.targetKeys db values

/-- A value that equals one of the distinct keys of a batch has the key of one of its values. -/
theorem Value.owner_of_any {values : List Value} {value : Value}
    (halike : ∀ one ∈ values, value.sqlEq one = true → value.keyedAlike one = true)
    (h : (distinctKeys values).any value.sqlEq = true) :
    ∃ one ∈ values, one ≠ .null ∧ value.key = one.key := by
  obtain ⟨key, hkey, hequal⟩ := List.any_eq_true.mp h
  obtain ⟨hmem, hnull⟩ := mem_distinctKeys hkey
  exact ⟨key, hmem, hnull, (Value.key_iff_of_sqlEq hequal).mpr (halike key hmem hequal)⟩

/-- What the statement for related rows yields are rows of the target whose link is one of the
keys. -/
theorem mem_relatedRows {target : Table} {branch : Branch} {link : String} {keys : List Value}
    {rows : List Row} (hrun : db.run (relatedStatement schema target branch link keys) = .ok rows)
    {row : Row} (hrow : row ∈ rows) : ∃ source ∈ db.rows target.name,
      row.keyIn link = (source.value link).key ∧ keys.any (source.value link).sqlEq = true := by
  rw [run_relatedStatement] at hrun
  obtain rfl := Except.ok.inj hrun
  obtain ⟨source, hsource, rfl⟩ := List.mem_map.mp hrow
  obtain ⟨hmem, hpasses⟩ := List.mem_filter.mp ((selected_perm_filter _ _ _).mem_iff.mp hsource)
  rw [Branch.condition, passes_andWhere? (keyedBy_scoped (List.mem_singleton_self _))
    (predicate?_scoped List.mem_cons_self (noTables_within _) 0) (List.Subset.refl _),
    passes_keyedBy, Bool.and_eq_true] at hpasses
  exact ⟨source, hmem, keyIn_only source (mem_withHidden.mpr (Or.inr List.mem_cons_self)),
    hpasses.1⟩

/-- The end of a link that is one of the keys of the target belongs to an owner of the batch. -/
theorem Relation.KeyedAlike.end_of_any {relation : Relation} {junction : Junction}
    {values : List Value} (h : relation.KeyedAlike db values)
    (hjunction : relation.junction = some junction) {row : Row}
    (hrow : row ∈ db.rows relation.target)
    (hany : (junction.targetKeys db values).any (row.value relation.toColumn).sqlEq = true) :
    ∃ pair ∈ junction.ends db (distinctKeys values),
      pair.2.key = (row.value relation.toColumn).key ∧
        ∃ value ∈ values, value ≠ .null ∧ pair.1.key = value.key := by
  have hlinks : ∀ value ∈ (junction.ends db (distinctKeys values)).map (·.2),
      (row.value relation.toColumn).sqlEq value = true →
        (row.value relation.toColumn).keyedAlike value = true := by
    intro value hvalue
    obtain ⟨pair, hpair, rfl⟩ := List.mem_map.mp hvalue
    obtain ⟨link, hlink, rfl⟩ := List.mem_map.mp hpair
    exact h.targets junction hjunction row hrow link (List.mem_filter.mp hlink).1
  obtain ⟨reached, hreached, -, hkey⟩ := Value.owner_of_any hlinks hany
  obtain ⟨pair, hpair, rfl⟩ := List.mem_map.mp hreached
  refine ⟨pair, hpair, hkey.symm, ?_⟩
  obtain ⟨link, hlink, rfl⟩ := List.mem_map.mp hpair
  obtain ⟨hmem, hselected⟩ := List.mem_filter.mp hlink
  exact Value.owner_of_any (h.owners junction hjunction link hmem)
    (Bool.and_eq_true_iff.mp hselected).1

/-- The row is among the related records of a batch, under the key of one of its values. -/
def Row.Owned (row : Row) (values : List Value) (related : List Related) : Prop :=
  ∃ value ∈ values, value ≠ .null ∧
    row.toRecord ∈ (related.filter (·.owner == value.key)).map (·.record)

/-- A related record with the key of a value belongs to it. -/
theorem Row.owned_of_mem {row : Row} {values : List Value} {related : List Related}
    {owner : String} (hmem : ⟨owner, row.toRecord⟩ ∈ related)
    (howner : ∃ value ∈ values, value ≠ .null ∧ owner = value.key) : row.Owned values related := by
  obtain ⟨value, hvalue, hnull, rfl⟩ := howner
  exact ⟨value, hvalue, hnull,
    List.mem_map.mpr ⟨_, List.mem_filter.mpr ⟨hmem, beq_self_eq_true _⟩, rfl⟩⟩

section Fetching

variable {relation : Relation} {branch : Branch} {target : Table} {values : List Value}
  {rows : List Row} (htarget : schema.table? relation.target = some target)
  (hname : target.name = relation.target) (h : relation.KeyedAlike db values)
  (hrun : db.run (relatedStatement schema target branch relation.toColumn
    (relation.targetKeys db values)) = .ok rows)

include htarget hname h hrun

/-- Every row that a batch of a direct relation yields is found again under the key of an owner. -/
theorem fetchDirect_owned (hjunction : relation.junction = none) :
    ∃ related, (fetchDirect schema relation branch (distinctKeys values)).resultFrom db.run =
        .ok related ∧ ∀ row ∈ rows, row.Owned values related := by
  have hkeys : relation.targetKeys db values = distinctKeys values := by
    rw [Relation.targetKeys, hjunction]
  rw [hkeys] at hrun
  refine ⟨rows.map fun row => ⟨row.keyIn relation.toColumn, row.toRecord⟩, ?_, ?_⟩
  · rw [fetchDirect, htarget]
    exact Load.resultFrom_ask hrun
  · intro row hrow
    obtain ⟨source, hsource, hkey, hany⟩ := mem_relatedRows hrun hrow
    rw [hname] at hsource
    have howner := Value.owner_of_any (h.direct hjunction source hsource) hany
    rw [← hkey] at howner
    exact Row.owned_of_mem (List.mem_map.mpr ⟨row, hrow, rfl⟩) howner

/-- So is every row of a batch through a junction. -/
theorem fetchLinked_owned {junction : Junction} (hjunction : relation.junction = some junction) :
    ∃ related, (fetchLinked schema relation junction branch (distinctKeys values)).resultFrom
        db.run = .ok related ∧ ∀ row ∈ rows, row.Owned values related := by
  have hkeys : relation.targetKeys db values = junction.targetKeys db values := by
    rw [Relation.targetKeys, hjunction]
  rw [hkeys] at hrun
  have hlinks : db.run (linkStatement junction (distinctKeys values)) = _ :=
    run_keyed junction.table junction.fromColumn (List.cons_ne_nil _ _) _
  unfold fetchLinked
  rw [Load.resultFrom_ask hlinks, linkEnds_ends]
  dsimp only
  by_cases hempty :
      (distinctKeys ((junction.ends db (distinctKeys values)).map (·.2))).isEmpty = true
  · rw [if_pos hempty]
    refine ⟨[], rfl, fun row hrow => ?_⟩
    obtain ⟨source, -, -, hany⟩ := mem_relatedRows hrun hrow
    rw [Junction.targetKeys, List.isEmpty_iff.mp hempty] at hany
    cases hany
  · rw [if_neg hempty, htarget]
    refine ⟨_, Load.resultFrom_ask hrun, fun row hrow => ?_⟩
    obtain ⟨source, hsource, hrowKey, hany⟩ := mem_relatedRows hrun hrow
    rw [hname] at hsource
    obtain ⟨pair, hpair, hkey, howner⟩ := h.end_of_any hjunction hsource hany
    have hreaches : (pair.2.key == row.keyIn relation.toColumn) = true := by
      rw [hkey, hrowKey, beq_self_eq_true]
    exact Row.owned_of_mem (List.mem_flatMap.mpr ⟨row, hrow, List.mem_map.mpr
      ⟨pair, List.mem_filter.mpr ⟨hpair, hreaches⟩, rfl⟩⟩) howner

/-- So is every row that the statement of any batch yields.  If nothing is asked, nothing would be
yielded. -/
theorem fetch_owned :
    ∃ related, (fetch schema relation branch (distinctKeys values)).resultFrom db.run =
        .ok related ∧ ∀ row ∈ rows, row.Owned values related := by
  unfold fetch
  by_cases hempty : (distinctKeys values).isEmpty = true
  · rw [if_pos hempty]
    refine ⟨[], rfl, fun row hrow => ?_⟩
    have howned : ∃ related, row.Owned values related := by
      cases hjunction : relation.junction with
      | none =>
          obtain ⟨related, -, hall⟩ := fetchDirect_owned htarget hname h hrun hjunction
          exact ⟨related, hall row hrow⟩
      | some junction =>
          obtain ⟨related, -, hall⟩ := fetchLinked_owned htarget hname h hrun hjunction
          exact ⟨related, hall row hrow⟩
    obtain ⟨_, value, hvalue, hnull, -⟩ := howned
    obtain ⟨key, hkey, -⟩ := exists_distinctKey hvalue hnull
    rw [List.isEmpty_iff.mp hempty] at hkey
    cases hkey
  · rw [if_neg hempty]
    cases hjunction : relation.junction with
    | none => exact fetchDirect_owned htarget hname h hrun hjunction
    | some junction => exact fetchLinked_owned htarget hname h hrun hjunction

end Fetching

/-- Values that are neither null nor not-a-number have one key exactly if they are equal and keyed
alike.  Where the equal values of a relation are keyed alike, the rows that a batch asks for are all
found again under the keys of its owners. -/
theorem equal_values_meet (hschema : schema.Consistent) {relation : Relation} {target : Table}
    (htarget : schema.table? relation.target = some target) (branch : Branch)
    (values : List Value) :
    (∀ a b : Value, a.Valid → b.Valid → a ≠ .null → b ≠ .null →
      a ≠ .float .nan → b ≠ .float .nan →
      (a.key = b.key ↔ a.sqlEq b = true ∧ a.keyedAlike b = true)) ∧
    (relation.KeyedAlike db values → ∃ rows related,
      db.run (relatedStatement schema target branch relation.toColumn
        (relation.targetKeys db values)) = .ok rows ∧
      (fetch schema relation branch (distinctKeys values)).resultFrom db.run = .ok related ∧
      ∀ row ∈ rows, row.Owned values related) := by
  refine ⟨fun a b ha hb hnull _ hnan _ => Value.key_eq_iff_sqlEq ha hb hnull hnan, fun halike => ?_⟩
  have hrun := @run_relatedStatement schema db target branch relation.toColumn
    (relation.targetKeys db values)
  obtain ⟨related, hfetched, howned⟩ :=
    fetch_owned htarget (hschema.table_name htarget) halike hrun
  exact ⟨_, related, hrun, hfetched, howned⟩

/-- The posts of the blog refer to authors by integers. -/
theorem equal_values_meet_posts :
    let schema := Schema.ofDecls blogTables
    let posts : Relation :=
      { name := "posts", kind := .oneToMany, target := "Post", fromColumn := "id",
        toColumn := "authorId" }
    let branch : Branch := { shape := ⟨["title"], [], []⟩ }
    let values : List Value := [.integer 1, .float (Binary64.ofInt 2)]
    ((Value.integer 2).key = (Value.float (Binary64.ofInt 2)).key ↔
      (Value.integer 2).sqlEq (.float (Binary64.ofInt 2)) = true ∧
        (Value.integer 2).keyedAlike (.float (Binary64.ofInt 2)) = true) ∧
    ∃ target, schema.table? "Post" = some target ∧ ∃ rows related,
      blogRows.run (relatedStatement schema target branch posts.toColumn
        (posts.targetKeys blogRows values)) = .ok rows ∧
      (fetch schema posts branch (distinctKeys values)).resultFrom blogRows.run = .ok related ∧
      ∀ row ∈ rows, row.Owned values related := by
  intro schema posts branch values
  have hsome : (schema.table? "Post").isSome := by decide +kernel
  obtain ⟨target, htarget⟩ := Option.isSome_iff_exists.mp hsome
  have halike : posts.KeyedAlike blogRows values := by
    refine ⟨fun _ => by decide +kernel, ?_, ?_⟩ <;> (intro junction hjunction; cases hjunction)
  obtain ⟨hkeys, hfound⟩ :=
    @equal_values_meet schema blogRows reachable_blog.consistent posts target htarget branch values
  exact ⟨hkeys _ _ trivial trivial (by decide) (by decide) (by decide) (by decide +kernel), target,
    htarget, hfound halike⟩

/-- Equal values of different keys: an integer beside a double that it is rounded to, the least
integer beside the double that it is, and an instant beside its text. -/
theorem equal_values_of_two_keys :
    ((Value.integer 9007199254740993).sqlEq (.float (Binary64.ofInt 9007199254740992)) = true ∧
        (Value.integer 9007199254740993).key ≠
          (Value.float (Binary64.ofInt 9007199254740992)).key) ∧
      ((Value.integer (-9223372036854775808)).sqlEq
          (.float (Binary64.ofInt (-9223372036854775808))) = true ∧
        (Value.integer (-9223372036854775808)).key ≠
          (Value.float (Binary64.ofInt (-9223372036854775808))).key) ∧
      (Value.instant ⟨0, 0⟩).sqlEq (.text "1970-01-01T00:00:00Z") = true ∧
        (Value.instant ⟨0, 0⟩).key ≠ (Value.text "1970-01-01T00:00:00Z").key := by
  decide +kernel

end NestedQuery
