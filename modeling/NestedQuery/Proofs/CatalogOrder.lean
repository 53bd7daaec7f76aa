import Mathlib.Data.List.Find
import Mathlib.Data.List.Nodup
import NestedQuery.Proofs.RepeatedTables

/-!
# The order of a catalog

Scanning a catalog looks at its declarations one after the other, and the first
table of a name and the first relation offered under a name are kept.  Where no
name is declared or offered twice there is nothing to be first of.  The tables
registered are then the same in every order, so every foreign key offers the
same, and every name gets the one relation that is offered under it.
-/

namespace NestedQuery

namespace Schema

/-- The tables of the catalog have different names. -/
def TablesApart (decls : List TableDecl) : Prop :=
  ((decls.filter TableDecl.isTable).map TableDecl.name).Nodup

instance (decls : List TableDecl) : Decidable (TablesApart decls) :=
  inferInstanceAs (Decidable (List.Nodup _))

/-- No two relations are offered to one table under one name. -/
def OffersApart (decls : List TableDecl) : Prop :=
  ∀ one ∈ offers decls, ∀ other ∈ offers decls, one.table = other.table →
    one.relation.name = other.relation.name → one = other

instance (decls : List TableDecl) : Decidable (OffersApart decls) :=
  inferInstanceAs (Decidable (∀ one ∈ offers decls, ∀ other ∈ offers decls,
    one.table = other.table → one.relation.name = other.relation.name → one = other))

/-! ### Tables -/

/-- A declaration makes a table under its name, if that is free. -/
theorem table?_register (schema : Schema) (decl : TableDecl) (name : String) :
    (schema.register decl).table? name = (schema.table? name).or
      (if decl.isTable && decl.name == name then some (.ofDecl decl) else none) := by
  by_cases hdeclares : decl.isTable ∧ decl.name = name
  · obtain ⟨htable, rfl⟩ := hdeclares
    rw [if_pos (by simpa using htable)]
    cases hknown : schema.table? decl.name with
    | some known => rw [register_of_known (by rw [hknown]; rfl), hknown, Option.some_or]
    | none =>
        have hfree : schema.tables.binds decl.name = false := by
          rw [Dict.binds_eq]
          exact Option.isSome_eq_false_iff.mpr (Option.isNone_iff_eq_none.mpr hknown)
        rw [register, if_pos (by simp [htable, hfree]), table?, Dict.lookup_put_self]
        rfl
  · rw [if_neg (by simpa using hdeclares), Option.or_none, register]
    split
    · next hnew =>
        have hne : name ≠ decl.name := by
          rintro rfl
          exact hdeclares ⟨(Bool.and_eq_true_iff.mp hnew).1, rfl⟩
        rw [table?, Dict.lookup_put_of_ne hne]
        rfl
    · rfl

/-- The table registered under a name is that of the first table declared under it. -/
theorem table?_registered (decls : List TableDecl) (name : String) :
    (registered decls).table? name =
      (decls.find? fun decl => decl.isTable && decl.name == name).map Table.ofDecl := by
  have hfold : ∀ schema : Schema, (decls.foldl register schema).table? name =
      (schema.table? name).or
        ((decls.find? fun decl => decl.isTable && decl.name == name).map Table.ofDecl) := by
    induction decls with
    | nil => intro schema; simp
    | cons decl rest ih =>
        intro schema
        rw [List.foldl_cons, ih, table?_register, Option.or_assoc, List.find?_cons]
        cases decl.isTable && decl.name == name <;> rfl
  exact hfold {}

variable {decls other : List TableDecl}

/-- The order of tables with different names does not matter to what is registered. -/
theorem registered_sameTables (htables : TablesApart decls) (h : decls.Perm other) :
    (registered other).SameTables (registered decls) := by
  intro name
  have hone : {decl ∈ decls | decl.isTable && decl.name == name}.Subsingleton := by
    rintro first ⟨hfirst, hfound⟩ second ⟨hsecond, hknown⟩
    obtain ⟨htable, hname⟩ : first.isTable ∧ first.name = name := by simpa using hfound
    obtain ⟨hmore, hsame⟩ : second.isTable ∧ second.name = name := by simpa using hknown
    exact List.inj_on_of_nodup_map htables (List.mem_filter.mpr ⟨hfirst, htable⟩)
      (List.mem_filter.mpr ⟨hsecond, hmore⟩) (hname.trans hsame.symm)
  rw [table?_registered, table?_registered, List.find?_eq_find?_of_perm h hone]

/-! ### Relations -/

/-- What a declaration offers depends on the columns and keys of the tables only. -/
theorem SameTables.declOffers {one base : Schema} (h : one.SameTables base) :
    one.declOffers = base.declOffers := by
  have hkeys : one.keyOffers = base.keyOffers := by
    funext owner key
    rw [keyOffers, keyOffers, h.keyRelations?]
  funext decl
  rw [Schema.declOffers, Schema.declOffers, hkeys]

/-- In another order a catalog offers the same relations. -/
theorem offers_perm (htables : TablesApart decls) (h : decls.Perm other) :
    (offers decls).Perm (offers other) := by
  rw [offers, offers, (registered_sameTables htables h).declOffers]
  exact h.flatMap_right _

/-- The first relation offered under a name. -/
theorem head?_offersTo (decls : List TableDecl) (table name : String) :
    (offersTo decls table name).head? = ((offers decls).find? fun offer =>
      offer.table == table && offer.relation.name == name).map (·.relation) := by
  rw [offersTo, List.head?_map, List.head?_filter]

/-- **Catalogs in any order.**  If the tables of a catalog have different names and no two relations
are offered to one table under one name, then the catalog has the same schema in every order of its
declarations: the same tables with the same columns, keys and relations. -/
theorem ofDecls_perm (htables : TablesApart decls) (hoffers : OffersApart decls)
    (h : decls.Perm other) : ofDecls other = ofDecls decls := by
  have hsame : (ofDecls other).SameTables (ofDecls decls) := by
    intro name
    rw [sameTables_ofDecls other name, sameTables_ofDecls decls name,
      registered_sameTables htables h name]
  refine (reachable_ofDecls other).eq_of_same (reachable_ofDecls decls) rfl hsame ?_
  intro table name
  have hone : {offer ∈ offers decls |
      offer.table == table && offer.relation.name == name}.Subsingleton := by
    rintro first ⟨hfirst, hfound⟩ second ⟨hsecond, hknown⟩
    obtain ⟨hto, hunder⟩ : first.table = table ∧ first.relation.name = name := by
      simpa using hfound
    obtain ⟨hsameTable, hsameName⟩ : second.table = table ∧ second.relation.name = name := by
      simpa using hknown
    exact hoffers first hfirst second hsecond (hto.trans hsameTable.symm)
      (hunder.trans hsameName.symm)
  rw [relation?_ofDecls, relation?_ofDecls, head?_offersTo, head?_offersTo,
    List.find?_eq_find?_of_perm (offers_perm htables h) hone]

/-- The catalog of the blog may be read from its end. -/
theorem ofDecls_perm_blog :
    TablesApart blogTables ∧ OffersApart blogTables ∧ blogTables.Perm blogTables.reverse ∧
      ofDecls blogTables.reverse = ofDecls blogTables := by
  have htables : TablesApart blogTables := by decide +kernel
  have hoffers : OffersApart blogTables := by decide +kernel
  have hperm : blogTables.Perm blogTables.reverse := (List.reverse_perm blogTables).symm
  exact ⟨htables, hoffers, hperm, ofDecls_perm htables hoffers hperm⟩

end Schema

end NestedQuery
