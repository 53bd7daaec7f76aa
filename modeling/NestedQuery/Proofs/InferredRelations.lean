import NestedQuery.Proofs.SchemaRuns

/-!
# Inferred relations

Scanning a catalog offers relations: every foreign key that can be resolved
offers one to its own table and then one back to its target.  A table takes an
offer if the name of the relation is free, so under each name it ends up with
the first relation that it was offered.  Hence a relation of many to one has a
relation back exactly if that one was the first of its name on the target.
-/

namespace NestedQuery

/-- A relation offered to a table. -/
structure Offer where
  table : String
  relation : Relation
  deriving DecidableEq, Repr

/-- Whether the relation leads back to `table`, to the many rows from which `relation` leads to
one. -/
def Relation.LeadsBack (found : Relation) (table : String) (relation : Relation) : Prop :=
  found.kind = .oneToMany ∧ found.target = table ∧
    found.fromColumn = relation.toColumn ∧ found.toColumn = relation.fromColumn

instance (found : Relation) (table : String) (relation : Relation) :
    Decidable (found.LeadsBack table relation) := by
  unfold Relation.LeadsBack
  infer_instance

namespace Schema

variable {schema : Schema}

/-! ### Offers -/

/-- What a foreign key of `owner` offers: a relation to its own table, then one to the target. -/
def keyOffers (schema : Schema) (owner : String) (key : ForeignKey) : List Offer :=
  match schema.keyRelations? owner key with
  | some made => [⟨owner, made.forward⟩, ⟨key.table, made.backward⟩]
  | none => []

/-- What the foreign keys of a declaration offer, one after the other. -/
def declOffers (schema : Schema) (decl : TableDecl) : List Offer :=
  if decl.isTable then decl.allKeys.flatMap (schema.keyOffers decl.name) else []

/-- The tables of a catalog, still without relations. -/
def registered (decls : List TableDecl) : Schema :=
  decls.foldl register {}

/-- All that a catalog offers, in the order of its declarations and their keys. -/
def offers (decls : List TableDecl) : List Offer :=
  decls.flatMap (registered decls).declOffers

/-- The relations that a catalog offers a table under a name, in order. -/
def offersTo (decls : List TableDecl) (table name : String) : List Relation :=
  ((offers decls).filter fun offer =>
    offer.table == table && offer.relation.name == name).map (·.relation)

/-- The schema after an offer, which is taken if the name is free. -/
def accept (schema : Schema) (offer : Offer) : Schema :=
  schema.adjust offer.table (·.defineIfFree offer.relation)

theorem mem_offersTo {decls : List TableDecl} {table name : String} {relation : Relation} :
    relation ∈ offersTo decls table name ↔
      ⟨table, relation⟩ ∈ offers decls ∧ relation.name = name := by
  unfold offersTo
  constructor
  · intro h
    obtain ⟨⟨known, found⟩, hmem, rfl⟩ := List.mem_map.mp h
    obtain ⟨hoffer, hnames⟩ := List.mem_filter.mp hmem
    obtain ⟨rfl, rfl⟩ : known = table ∧ found.name = name := by simpa using hnames
    exact ⟨hoffer, rfl⟩
  · rintro ⟨hoffer, rfl⟩
    exact List.mem_map.mpr ⟨_, List.mem_filter.mpr ⟨hoffer, by simp⟩, rfl⟩

/-! ### What a foreign key makes -/

/-- The relations between the tables of a foreign key, by the names of its columns. -/
def keyed (owner column target foreign : String) (single optional : Bool) : KeyRelations where
  forward := {
    name := Naming.forward column owner target
    kind := if single then .oneToOne else .manyToOne
    target, fromColumn := column, toColumn := foreign, isOptional := optional }
  backward :=
    if single then
      { Relation.oneToOne (Naming.backwardOne owner) owner foreign column with isOptional := true }
    else .oneToMany (Naming.backwardMany owner) owner foreign column

/-- A foreign key that can be resolved relates two known tables. -/
theorem keyRelations?_eq_some {owner : String} {key : ForeignKey} {made : KeyRelations}
    (h : schema.keyRelations? owner key = some made) :
    (schema.table? owner).isSome ∧ (schema.table? key.table).isSome ∧
      ∃ column foreign single optional,
        made = keyed owner column key.table foreign single optional := by
  unfold keyRelations? at h
  split at h
  · next columnName foreignName _ =>
      obtain ⟨ownerTable, howner, h⟩ := Option.bind_eq_some_iff.mp h
      obtain ⟨column, -, h⟩ := Option.bind_eq_some_iff.mp h
      obtain ⟨target, htarget, h⟩ := Option.bind_eq_some_iff.mp h
      by_cases hforeign : target.hasColumn foreignName
      · simp only [hforeign, Bool.not_true, Bool.false_eq_true, if_false] at h
        cases h
        exact ⟨by simp [howner], by simp [htarget], columnName, foreignName, _, column.nullable,
          rfl⟩
      · simp [hforeign] at h
  · cases h

/-- Two schemas know the same tables with the same columns and keys. -/
def SameTables (one other : Schema) : Prop :=
  ∀ name, (one.table? name).map (fun table => (table.key, table.columns)) =
    (other.table? name).map fun table => (table.key, table.columns)

theorem SameTables.isSome {one other : Schema} (h : one.SameTables other) (name : String) :
    (one.table? name).isSome = (other.table? name).isSome := by
  simpa using congrArg Option.isSome (h name)

/-- What foreign keys make does not depend on relations that are there. -/
theorem SameTables.keyRelations? {one other : Schema} (h : one.SameTables other) (owner : String)
    (key : ForeignKey) : one.keyRelations? owner key = other.keyRelations? owner key := by
  have howner := h owner
  have htarget := h key.table
  unfold Schema.keyRelations?
  split
  · cases hone : one.table? owner <;> cases hother : other.table? owner <;>
      simp only [hone, hother, Option.map_some, Option.map_none, Option.some.injEq, reduceCtorEq,
        Prod.mk.injEq] at howner
    · rfl
    · cases hfirst : one.table? key.table <;> cases hsecond : other.table? key.table <;>
        simp only [hfirst, hsecond, Option.map_some, Option.map_none, Option.some.injEq,
          reduceCtorEq, Prod.mk.injEq] at htarget
      · simp [Table.column?]
      · simp [Table.column?, Table.hasColumn, howner, htarget]
  · rfl

/-- Taking an offer changes relations only. -/
theorem accept_sameTables {base : Schema} (h : schema.SameTables base) (offer : Offer) :
    (schema.accept offer).SameTables base := by
  intro name
  rw [← h name, accept, table?_adjust, Option.map_map]
  apply Option.map_congr
  intro table _
  rcases defineIfFree_cases table offer.relation with heq | heq <;>
    by_cases hname : name = offer.table <;> simp [hname, heq, Table.define]

/-! ### The first offer holds -/

/-- Under every name a table keeps what it has, else takes what it is offered. -/
theorem relation?_accept (offer : Offer) (hknown : (schema.table? offer.table).isSome)
    (table name : String) :
    (schema.accept offer).relation? table name =
      (schema.relation? table name).or
        (if offer.table == table && offer.relation.name == name then some offer.relation
          else none) := by
  obtain ⟨owner, relation⟩ := offer
  obtain ⟨known, hknown⟩ := Option.isSome_iff_exists.mp hknown
  unfold accept relation?
  rw [table?_adjust]
  by_cases htable : table = owner
  · subst htable
    simp only [hknown, Option.map_some, if_true, Option.bind_some, beq_self_eq_true, Bool.true_and,
      Table.defineIfFree, Dict.binds_eq]
    split
    · next htaken =>
        by_cases hname : relation.name = name
        · subst hname
          have hsome : (known.relation? relation.name).isSome := htaken
          obtain ⟨found, hfound⟩ := Option.isSome_iff_exists.mp hsome
          simp [hfound]
        · simp [hname]
    · next hfree =>
        rw [relation?_define]
        by_cases hname : name = relation.name
        · subst hname
          have hnone : known.relation? relation.name = none :=
            Option.not_isSome_iff_eq_none.mp hfree
          simp [hnone]
        · simp [hname, Ne.symm hname]
  · have hne : (owner == table) = false := by simpa using fun heq : owner = table => htable heq.symm
    simp [htable, hne]

/-- So after several offers it has what it had, else the first of the offers. -/
theorem relation?_foldl_accept {offered : List Offer}
    (hknown : ∀ offer ∈ offered, (schema.table? offer.table).isSome) (table name : String) :
    (offered.foldl accept schema).relation? table name =
      (schema.relation? table name).or
        ((offered.filter fun offer =>
          offer.table == table && offer.relation.name == name).map (·.relation)).head? := by
  induction offered generalizing schema with
  | nil => simp
  | cons offer rest ih =>
      have hsame : (schema.accept offer).SameTables schema :=
        accept_sameTables (fun _ => rfl) offer
      have hrest : ∀ other ∈ rest, ((schema.accept offer).table? other.table).isSome := by
        intro other hother
        rw [hsame.isSome]
        exact hknown other (List.mem_cons_of_mem _ hother)
      rw [List.foldl_cons, ih hrest, relation?_accept offer (hknown offer List.mem_cons_self),
        Option.or_assoc, List.filter_cons]
      split <;> simp

/-! ### Scanning as a run of offers -/

/-- Inferring relations from the keys of a declaration takes what they offer. -/
theorem inferAll_eq_accept {base : Schema} (h : schema.SameTables base) (decl : TableDecl) :
    schema.inferAll decl = (base.declOffers decl).foldl accept schema ∧
      (schema.inferAll decl).SameTables base := by
  unfold inferAll declOffers
  split
  · generalize decl.allKeys = keys
    induction keys generalizing schema with
    | nil => exact ⟨rfl, h⟩
    | cons key rest ih =>
        have hinfer : schema.infer decl.name key =
            (base.keyOffers decl.name key).foldl accept schema := by
          unfold infer keyOffers
          rw [h.keyRelations?]
          cases base.keyRelations? decl.name key <;> rfl
        have hsame : (schema.infer decl.name key).SameTables base := by
          rw [hinfer]
          generalize base.keyOffers decl.name key = offered
          clear hinfer ih
          induction offered generalizing schema with
          | nil => exact h
          | cons offer others ih => exact ih (accept_sameTables h offer)
        obtain ⟨hrest, hkept⟩ := ih hsame
        refine ⟨?_, hkept⟩
        rw [List.foldl_cons, hrest, List.flatMap_cons, List.foldl_append, hinfer]
  · exact ⟨rfl, h⟩

theorem foldl_inferAll_eq_accept {base : Schema} (h : schema.SameTables base)
    (decls : List TableDecl) :
    decls.foldl inferAll schema = (decls.flatMap base.declOffers).foldl accept schema := by
  induction decls generalizing schema with
  | nil => rfl
  | cons decl rest ih =>
      obtain ⟨hdecl, hsame⟩ := inferAll_eq_accept h decl
      rw [List.foldl_cons, ih hsame, List.flatMap_cons, List.foldl_append, hdecl]

/-- An offer comes from a foreign key between known tables, which offers both of them a relation. -/
theorem mem_offers {decls : List TableDecl} {offer : Offer} (h : offer ∈ offers decls) :
    ∃ owner column target foreign single optional,
      let made := keyed owner column target foreign single optional
      ((registered decls).table? owner).isSome ∧ ((registered decls).table? target).isSome ∧
        ⟨owner, made.forward⟩ ∈ offers decls ∧ ⟨target, made.backward⟩ ∈ offers decls ∧
        (offer = ⟨owner, made.forward⟩ ∨ offer = ⟨target, made.backward⟩) := by
  obtain ⟨decl, hdecl, hoffer⟩ := List.mem_flatMap.mp h
  have hall : (registered decls).declOffers decl ⊆ offers decls :=
    fun other hother => List.mem_flatMap.mpr ⟨decl, hdecl, hother⟩
  unfold declOffers at hoffer hall
  split at hoffer
  · next htable =>
      rw [if_pos htable] at hall
      obtain ⟨key, hkey, hoffer⟩ := List.mem_flatMap.mp hoffer
      have hkeys : (registered decls).keyOffers decl.name key ⊆ offers decls :=
        fun other hother => hall (List.mem_flatMap.mpr ⟨key, hkey, hother⟩)
      unfold keyOffers at hoffer hkeys
      split at hoffer
      · next made hmade =>
          simp only [hmade] at hkeys
          obtain ⟨howner, htarget, column, foreign, single, optional, rfl⟩ :=
            keyRelations?_eq_some hmade
          exact ⟨decl.name, column, key.table, foreign, single, optional, howner, htarget,
            hkeys (by simp), hkeys (by simp), by simpa using hoffer⟩
      · cases hoffer
  · cases hoffer

/-- Relations are offered to tables of the catalog only. -/
theorem offers_known {decls : List TableDecl} {offer : Offer} (h : offer ∈ offers decls) :
    ((registered decls).table? offer.table).isSome := by
  obtain ⟨owner, column, target, foreign, single, optional, howner, htarget, -, -, rfl | rfl⟩ :=
    mem_offers h
  · exact howner
  · exact htarget

/-- Tables that are registered have no relations yet. -/
theorem bare_registered (decls : List TableDecl) : (registered decls).Bare := by
  have hfold : ∀ schema : Schema, schema.Bare → (decls.foldl register schema).Bare := by
    induction decls with
    | nil => exact fun schema hbare => hbare
    | cons decl rest ih => exact fun schema hbare => ih _ (hbare.register decl)
  apply hfold
  intro name table htable
  cases htable

/-- Under every name a table of a catalog has the first relation that it is offered. -/
theorem relation?_ofDecls (decls : List TableDecl) (table name : String) :
    (ofDecls decls).relation? table name = (offersTo decls table name).head? := by
  have hnone : (registered decls).relation? table name = none := by
    unfold relation?
    cases htable : (registered decls).table? table with
    | none => rfl
    | some known =>
        rw [Option.bind_some, Table.relation?, (bare_registered decls table known htable).2]
        rfl
  change (decls.foldl inferAll (registered decls)).relation? table name = _
  rw [foldl_inferAll_eq_accept fun _ => rfl]
  change ((offers decls).foldl accept (registered decls)).relation? table name = _
  rw [relation?_foldl_accept fun offer => offers_known, hnone, Option.none_or]
  rfl

/-! ### Relations back -/

theorem reachable_ofDecls (decls : List TableDecl) : (ofDecls decls).Reachable :=
  Reachable.fresh.scan decls

/-- An inferred relation comes from a foreign key. -/
theorem inferred_from {decls : List TableDecl} {table name : String} {relation : Relation}
    (h : (ofDecls decls).relation? table name = some relation) :
    relation.name = name ∧ ⟨table, relation⟩ ∈ offers decls := by
  rw [relation?_ofDecls] at h
  obtain ⟨hoffer, hname⟩ := mem_offersTo.mp (List.mem_of_mem_head? h)
  exact ⟨hname, hoffer⟩

/-- A table that is offered a relation of many to one offers its target the relation back. -/
theorem offers_back {decls : List TableDecl} {table : String} {relation : Relation}
    (h : ⟨table, relation⟩ ∈ offers decls) (hkind : relation.kind = .manyToOne) :
    ⟨relation.target, .oneToMany (Naming.backwardMany table) table relation.toColumn
      relation.fromColumn⟩ ∈ offers decls := by
  obtain ⟨owner, column, target, foreign, single, optional, -, -, -, hback, hfrom⟩ := mem_offers h
  cases single with
  | true => rcases hfrom with hfrom | hfrom <;> cases hfrom <;> cases hkind
  | false =>
      rcases hfrom with hforward | hbackward
      · cases hforward
        exact hback
      · cases hbackward
        cases hkind

/-- What is offered as a relation to many leads back to its owner under the name of the owner in the
plural. -/
theorem eq_of_offered_many {decls : List TableDecl} {table : String} {relation : Relation}
    (h : ⟨table, relation⟩ ∈ offers decls) (hkind : relation.kind = .oneToMany) :
    relation = .oneToMany (Naming.backwardMany relation.target) relation.target
      relation.fromColumn relation.toColumn := by
  obtain ⟨owner, column, target, foreign, single, optional, -, -, -, -, hfrom⟩ := mem_offers h
  cases single with
  | true => rcases hfrom with hfrom | hfrom <;> cases hfrom <;> cases hkind
  | false =>
      rcases hfrom with hforward | hbackward
      · cases hforward
        cases hkind
      · cases hbackward
        rfl

/-- **Relations back.**  To every inferred relation of many to one the target is offered the
relation back, named after the owner in the plural, and of all relations that the catalog offers it
under that name it has the first.  So it has a relation back exactly if the first one offered under
that name is it. -/
theorem leadsBack_iff (decls : List TableDecl) {table name : String} {relation : Relation}
    (h : (ofDecls decls).relation? table name = some relation)
    (hkind : relation.kind = .manyToOne) :
    let schema := ofDecls decls
    let back := Relation.oneToMany (Naming.backwardMany table) table relation.toColumn
      relation.fromColumn
    let offered := offersTo decls relation.target (Naming.backwardMany table)
    back ∈ offered ∧
      schema.relation? relation.target (Naming.backwardMany table) = offered.head? ∧
      ((∃ found ∈ schema.relations relation.target, found.LeadsBack table relation) ↔
        offered.head? = some back) := by
  obtain ⟨-, hoffer⟩ := inferred_from h
  have hoffered := offers_back hoffer hkind
  have hmade : ∀ found : Relation, ⟨relation.target, found⟩ ∈ offers decls →
      found.LeadsBack table relation → found = .oneToMany (Naming.backwardMany table) table
        relation.toColumn relation.fromColumn := by
    rintro found hfound ⟨hmany, htarget, hfrom, hto⟩
    have hshape := eq_of_offered_many hfound hmany
    rwa [htarget, hfrom, hto] at hshape
  generalize Naming.backwardMany table = plural at hoffered hmade ⊢
  intro schema back offered
  have hfirst : schema.relation? relation.target plural = offered.head? :=
    relation?_ofDecls decls relation.target plural
  refine ⟨mem_offersTo.mpr ⟨hoffered, rfl⟩, hfirst, ?_⟩
  constructor
  · rintro ⟨found, hfound, hback⟩
    have hlisted : schema.relation? relation.target found.name = some found :=
      (reachable_ofDecls decls).found_of_listed hfound
    rw [hmade found (inferred_from hlisted).2 hback] at hlisted
    exact hfirst.symm.trans hlisted
  · intro hback
    exact ⟨back, mem_relations (hfirst.trans hback), rfl, rfl, rfl, rfl⟩

/-- Authors of the blog lead back to their posts. -/
theorem leadsBack_iff_blog :
    let schema := ofDecls blogTables
    ∃ relation, schema.relation? "Post" "author" = some relation ∧ relation.kind = .manyToOne ∧
      ∃ found ∈ schema.relations relation.target, found.LeadsBack "Post" relation := by
  intro schema
  have hauthor : schema.relation? "Post" "author" = some
      { name := "author", kind := .manyToOne, target := "Author"
        fromColumn := "authorId", toColumn := "id" } := by
    decide +kernel
  exact ⟨_, hauthor, rfl, (leadsBack_iff blogTables hauthor rfl).2.2.mpr (by decide +kernel)⟩

/-- Contracts with two foreign keys to the same table. -/
def reviewedContracts : List TableDecl :=
  [{ name := "Mentor", columns := [{ name := "id", type := .integer, primary := true }] },
   { name := "Contract"
     columns := [
       { name := "id", type := .integer, primary := true },
       { name := "mentorId", type := .integer, references := some ⟨"Mentor", "id"⟩ },
       { name := "reviewer_id", type := .integer, references := some ⟨"Mentor", "id"⟩ }] }]

/-- Both keys offer a relation back under one name, so the second one has none. -/
theorem second_key_lacks_back :
    let schema := ofDecls reviewedContracts
    ∃ relation, schema.relation? "Contract" "reviewer" = some relation ∧
      relation.kind = .manyToOne ∧
      ¬ ∃ found ∈ schema.relations relation.target, found.LeadsBack "Contract" relation := by
  intro schema
  have hreviewer : schema.relation? "Contract" "reviewer" = some
      { name := "reviewer", kind := .manyToOne, target := "Mentor"
        fromColumn := "reviewer_id", toColumn := "id" } := by
    decide +kernel
  exact ⟨_, hreviewer, rfl, by decide +kernel⟩

end Schema

end NestedQuery
