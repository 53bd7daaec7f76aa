import NestedQuery.Proofs.JointKeys
import NestedQuery.Proofs.RevisedPlans
import NestedQuery.Proofs.StoredRows

/-!
# Distinct columns that are declared

The distinct columns of a relation are not compared with the columns that its
target declares.  A column that is not declared is null in every record, so it
adds the same key to the joint key of each of them.  Where declared columns stand
next to each other in the list, the others only put the same text before and after
their joint key; elsewhere they come between, which makes no difference as long as
the separator of joint keys is in no text.  But at least one declared column has to
be there: by undeclared columns alone all records are the same.
-/

namespace NestedQuery

variable {schema : Schema} {db : Database}

/-! ### Joint keys -/

/-- The separator of joint keys is not in the key of the value; it may be in that of a text. -/
def Value.FreeOfSeparator (value : Value) : Prop :=
  '\x1f' ∉ value.key.toList

instance : DecidablePred Value.FreeOfSeparator :=
  fun value => inferInstanceAs (Decidable ('\x1f' ∉ value.key.toList))

/-- No value of the database has the separator of joint keys in its key. -/
def Database.FreeOfSeparator (db : Database) : Prop :=
  ∀ table ∈ db, ∀ row ∈ table.2, ∀ entry ∈ row, entry.2.FreeOfSeparator

instance : DecidablePred Database.FreeOfSeparator := fun db => inferInstanceAs
  (Decidable (∀ table ∈ db, ∀ row ∈ table.2, ∀ entry ∈ row, Value.FreeOfSeparator entry.2))

theorem Database.FreeOfSeparator.rows (h : db.FreeOfSeparator) (source : String) :
    ∀ row ∈ db.rows source, ∀ entry ∈ row, entry.2.FreeOfSeparator := by
  intro row hrow
  unfold Database.rows at hrow
  cases hfound : db.lookup source with
  | none => simp [hfound] at hrow
  | some rows => exact h _ (Dict.mem_of_lookup hfound) row (by simpa [hfound] using hrow)

/-- Where the separator is in no key, a joint key tells the keys. -/
theorem Value.keys_of_jointKey {values others : List Value}
    (hlength : values.length = others.length) (hvalues : ∀ value ∈ values, value.FreeOfSeparator)
    (hothers : ∀ value ∈ others, value.FreeOfSeparator)
    (h : Value.jointKey values = Value.jointKey others) :
    values.map Value.key = others.map Value.key := by
  have hnone : ∀ {values : List Value}, (∀ value ∈ values, value.FreeOfSeparator) →
      values.map Value.innerKeys = List.replicate values.length 0 := by
    intro values hvalues
    rw [List.eq_replicate_iff, List.length_map]
    refine ⟨rfl, List.forall_mem_map.mpr fun value hvalue => ?_⟩
    rw [← value.separatedKeys_key, separatedKeys_of_free (hvalues value hvalue)]
  apply Value.keys_of_innerKeys _ h
  rw [hnone hvalues, hnone hothers, hlength]

/-! ### Declared columns -/

/-- The columns of the list that the table declares. -/
def Schema.declaredOf (schema : Schema) (table : String) (columns : List String) : List String :=
  columns.filter (schema.hasColumn table)

/-- The declared columns of the list tell records apart just as the list does: there are some, and
they stand next to each other or no value has the separator of joint keys in its key. -/
structure Schema.ToldByDeclared (schema : Schema) (db : Database) (table : String)
    (columns : List String) : Prop where
  some : schema.declaredOf table columns ≠ []
  apart : schema.declaredOf table columns <:+: columns ∨ db.FreeOfSeparator

instance (table : String) (columns : List String) :
    Decidable (schema.ToldByDeclared db table columns) :=
  decidable_of_iff (schema.declaredOf table columns ≠ [] ∧
    (schema.declaredOf table columns <:+: columns ∨ db.FreeOfSeparator))
    ⟨fun ⟨hsome, hapart⟩ => ⟨hsome, hapart⟩, fun ⟨hsome, hapart⟩ => ⟨hsome, hapart⟩⟩

/-- The record has no value for a column that the table does not declare, and no separator in a key
if there is none in the database. -/
structure Record.Within (schema : Schema) (db : Database) (table : String) (record : Record) :
    Prop where
  undeclared : ∀ column, schema.hasColumn table column = false → record.scalar column = .null
  free : db.FreeOfSeparator → ∀ column, (record.scalar column).FreeOfSeparator

/-- The columns around a run of columns that holds all declared ones are not declared. -/
theorem Schema.undeclared_around {table : String} {before middle after : List String}
    (h : schema.declaredOf table (before ++ middle ++ after) = middle) :
    ∀ column ∈ before ++ after, schema.hasColumn table column = false := by
  have hmiddle : schema.declaredOf table middle = middle := by
    rw [← h, Schema.declaredOf, Schema.declaredOf, List.filter_filter]
    simp only [Bool.and_self]
  unfold Schema.declaredOf at h hmiddle
  have hlength := congrArg List.length h
  simp only [List.filter_append, List.length_append, hmiddle] at hlength
  have hnone : (before ++ after).filter (schema.hasColumn table) = [] := by
    rw [← List.length_eq_zero_iff, List.filter_append, List.length_append]
    omega
  intro column hcolumn
  simpa using List.filter_eq_nil_iff.mp hnone column hcolumn

section Within

variable {table : String} {columns : List String} (htold : schema.ToldByDeclared db table columns)

include htold

/-- Two records have the same key in such a list if they have it in its declared columns.  Before
and after the declared columns both records have the same nulls. -/
theorem Schema.ToldByDeclared.jointKey_iff {one other : Record}
    (hone : one.Within schema db table) (hother : other.Within schema db table) :
    Value.jointKey (columns.map one.scalar) = Value.jointKey (columns.map other.scalar) ↔
      Value.jointKey ((schema.declaredOf table columns).map one.scalar) =
        Value.jointKey ((schema.declaredOf table columns).map other.scalar) := by
  rcases htold.apart with ⟨before, after, hcolumns⟩ | hfree
  · have haround := @Schema.undeclared_around schema table before _ after
      (show schema.declaredOf table (before ++ schema.declaredOf table columns ++ after) = _ by
        rw [hcolumns])
    have hsame : ∀ {part : List String}, part ⊆ before ++ after →
        part.map other.scalar = part.map one.scalar := by
      intro part hpart
      refine List.map_congr_left fun column hcolumn => ?_
      rw [hone.undeclared column (haround column (hpart hcolumn)),
        hother.undeclared column (haround column (hpart hcolumn))]
    have hsplit : ∀ record : Record, columns.map record.scalar = before.map record.scalar ++
        (schema.declaredOf table columns).map record.scalar ++ after.map record.scalar := by
      intro record
      conv_lhs => rw [← hcolumns]
      rw [List.map_append, List.map_append]
    rw [hsplit one, hsplit other, hsame (List.subset_append_left _ _),
      hsame (List.subset_append_right _ _)]
    exact Value.jointKey_between _ _ (by simpa using htold.some) (by simpa using htold.some)
  · have hkeys : ∀ part : List String,
        Value.jointKey (part.map one.scalar) = Value.jointKey (part.map other.scalar) ↔
          ∀ column ∈ part, (one.scalar column).key = (other.scalar column).key := by
      intro part
      constructor
      · intro hjoint
        have hmap := Value.keys_of_jointKey (by simp)
          (List.forall_mem_map.mpr fun column _ => hone.free hfree column)
          (List.forall_mem_map.mpr fun column _ => hother.free hfree column) hjoint
        rw [List.map_map, List.map_map] at hmap
        exact List.map_inj_left.mp hmap
      · intro hsame
        unfold Value.jointKey
        rw [List.map_map, List.map_map]
        exact congrArg _ (List.map_congr_left hsame)
    rw [hkeys, hkeys]
    refine ⟨fun hall column hcolumn => hall column (List.mem_filter.mp hcolumn).1,
      fun hall column hcolumn => ?_⟩
    cases hdeclared : schema.hasColumn table column with
    | true => exact hall column (List.mem_filter.mpr ⟨hcolumn, hdeclared⟩)
    | false => rw [hone.undeclared column hdeclared, hother.undeclared column hdeclared]

end Within

/-- Apart from each other declared columns leave room for a null between them, which a text may
hold. -/
example :
    Value.jointKey [.text "x", .null, .text "y\x1fnull\x1fs:z"] =
        Value.jointKey [.text "x\x1fnull\x1fs:y", .null, .text "z"] ∧
      Value.jointKey [.text "x", .text "y\x1fnull\x1fs:z"] ≠
        Value.jointKey [.text "x\x1fnull\x1fs:y", .text "z"] := by
  decide

/-! ### Pages -/

/-- Which items are the first of their keys depends on which items have the same key. -/
theorem firstOfEach_congr {α : Type} {key other : α → String} : ∀ {items : List α}
    {seen known : List String}, (∀ item ∈ items, key item ∈ seen ↔ other item ∈ known) →
    (∀ a ∈ items, ∀ b ∈ items, key a = key b ↔ other a = other b) →
    firstOfEach key seen items = firstOfEach other known items
  | [], _, _, _, _ => rfl
  | first :: rest, seen, known, hseen, hkeys => by
      obtain ⟨hfirst, hrest⟩ := List.forall_mem_cons.mp hseen
      have hlater : ∀ a ∈ rest, ∀ b ∈ rest, key a = key b ↔ other a = other b := fun a ha b hb =>
        hkeys a (List.mem_cons_of_mem _ ha) b (List.mem_cons_of_mem _ hb)
      rw [firstOfEach, firstOfEach]
      simp only [List.contains_iff_mem, hfirst]
      split
      · exact firstOfEach_congr hrest hlater
      · refine congrArg (first :: ·) (firstOfEach_congr (fun item hitem => ?_) hlater)
        rw [List.mem_cons, List.mem_cons, hrest item hitem,
          hkeys item (List.mem_cons_of_mem _ hitem) first List.mem_cons_self]

/-- Leaves the undeclared columns out of a distinct list where the declared ones tell records apart
just as well. -/
def Revision.declaring (schema : Schema) (db : Database) : Revision schema where
  distinct target distinct :=
    if schema.ToldByDeclared db target (distinct.getD []) then
      some (schema.declaredOf target (distinct.getD []))
    else distinct
  distinct_none target := if_neg fun htold => htold.some rfl
  declared target columns := by
    split
    · exact List.filter_filter.trans (by simp only [Bool.and_self])
    · rfl

/-- Records are made distinct alike by the columns that are left. -/
theorem distinctBy_declaring {table : String} (distinct : Option (List String))
    {records : List Record} (hrecords : ∀ record ∈ records, record.Within schema db table) :
    distinctBy (((Revision.declaring schema db).distinct table distinct).getD []) records =
      distinctBy (distinct.getD []) records := by
  unfold Revision.declaring
  dsimp only
  split
  · next htold =>
      have hsome : distinct.getD [] ≠ [] := fun hnone => htold.some (by rw [hnone]; rfl)
      unfold distinctBy
      rw [Option.getD_some, if_neg (by simpa using htold.some), if_neg (by simpa using hsome)]
      refine (firstOfEach_congr (fun _ _ => by simp) fun one hone other hother => ?_).symm
      exact htold.jointKey_iff (hrecords one hone) (hrecords other hother)
  · rfl

/-- So the page of related records is the same. -/
theorem page_declaring (branch : Branch) {target : String} {records : List Record}
    (hrecords : ∀ record ∈ records, record.Within schema db target) :
    (branch.revised (Revision.declaring schema db) target).page records = branch.page records := by
  unfold BranchOf.page BranchOf.revised
  simp only [distinctBy_declaring branch.distinct hrecords]

end NestedQuery
