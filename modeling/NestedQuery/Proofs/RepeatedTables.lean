import NestedQuery.Proofs.InferredRelations

/-!
# Repeated tables

A table that a catalog declares again is not registered again: its first
declaration decides on its columns and its key.  Its foreign keys are read once
more, though, on the columns of the first declaration, and what they offer is
taken like any other offer.  So the repeated tables of a catalog are without
effect exactly if under every name the first offer stays the same without them,
which is so when they repeat no more than foreign keys too.
-/

namespace NestedQuery

/-- Whether the declaration makes a table under a name that a table before it has. -/
def TableDecl.repeats (decl : TableDecl) (before : List TableDecl) : Bool :=
  decl.isTable && before.any fun earlier => earlier.isTable && earlier.name == decl.name

/-- The declarations without those that repeat a table, `before` being those before them. -/
def withoutRepeats (before : List TableDecl) : List TableDecl → List TableDecl
  | [] => []
  | decl :: rest =>
    if decl.repeats before then withoutRepeats (before ++ [decl]) rest
    else decl :: withoutRepeats (before ++ [decl]) rest

/-- A table repeats if one of its name has been declared before. -/
theorem TableDecl.repeats_iff {decl : TableDecl} {before : List TableDecl} :
    decl.repeats before ↔
      decl.isTable ∧ ∃ earlier ∈ before, earlier.isTable ∧ earlier.name = decl.name := by
  simp [TableDecl.repeats]

namespace Schema

variable {schema : Schema}

/-! ### Tables -/

/-- The tables declared are registered under their names. -/
def Holds (schema : Schema) (decls : List TableDecl) : Prop :=
  ∀ decl ∈ decls, decl.isTable → (schema.table? decl.name).isSome

/-- Registering a table again changes nothing. -/
theorem register_of_known {decl : TableDecl} (h : (schema.table? decl.name).isSome) :
    schema.register decl = schema := by
  have hbinds : schema.tables.binds decl.name = true := by rw [Dict.binds_eq]; exact h
  simp [register, hbinds]

/-- Registering a table, a schema holds one more declaration. -/
theorem Holds.register {before : List TableDecl} (h : schema.Holds before) (decl : TableDecl) :
    (schema.register decl).Holds (before ++ [decl]) := by
  have hkept : ∀ name, (schema.table? name).isSome →
      ((schema.register decl).table? name).isSome := by
    intro name hname
    unfold Schema.register
    split
    · rw [table?, Dict.lookup_put]
      split
      · rfl
      · exact hname
    · exact hname
  intro one hone htable
  rcases List.mem_append.mp hone with hbefore | hlast
  · exact hkept one.name (h one hbefore htable)
  · obtain rfl : one = decl := List.mem_singleton.mp hlast
    by_cases hknown : (schema.table? one.name).isSome
    · exact hkept one.name hknown
    · have hfree : schema.tables.binds one.name = false := by
        rw [Dict.binds_eq]
        exact Bool.eq_false_iff.mpr hknown
      simp [Schema.register, htable, hfree, table?, Dict.lookup_put_self]

/-- Registering the tables of a catalog passes over the repeated ones. -/
theorem foldl_register_withoutRepeats {before : List TableDecl} (h : schema.Holds before)
    (decls : List TableDecl) :
    (withoutRepeats before decls).foldl register schema = decls.foldl register schema := by
  induction decls generalizing before schema with
  | nil => rfl
  | cons decl rest ih =>
      have hrest := ih (h.register decl)
      rw [List.foldl_cons, withoutRepeats]
      split
      · next hrepeats =>
          obtain ⟨-, earlier, hearlier, htable, hname⟩ := TableDecl.repeats_iff.mp hrepeats
          have hknown : schema.register decl = schema :=
            register_of_known (hname ▸ h earlier hearlier htable)
          rw [hknown] at hrest ⊢
          exact hrest
      · exact hrest

/-- The tables registered are those of the catalog without the repeated ones. -/
theorem registered_withoutRepeats (decls : List TableDecl) :
    registered (withoutRepeats [] decls) = registered decls :=
  foldl_register_withoutRepeats (fun decl hdecl => by cases hdecl) decls

/-! ### Relations -/

/-- The relations that a declaration offers a table under a name. -/
def declOffersTo (schema : Schema) (table name : String) (decl : TableDecl) : List Relation :=
  ((schema.declOffers decl).filter fun offer =>
    offer.table == table && offer.relation.name == name).map (·.relation)

/-- Declarations make their offers one after the other. -/
theorem offersTo_eq_flatMap (decls : List TableDecl) (table name : String) :
    offersTo decls table name = decls.flatMap ((registered decls).declOffersTo table name) := by
  rw [offersTo, offers, List.filter_flatMap, List.map_flatMap]
  rfl

/-- Without the repeated tables, what is offered is offered by the same tables. -/
theorem offersTo_withoutRepeats (decls : List TableDecl) (table name : String) :
    offersTo (withoutRepeats [] decls) table name =
      (withoutRepeats [] decls).flatMap ((registered decls).declOffersTo table name) := by
  rw [offersTo_eq_flatMap, registered_withoutRepeats]

theorem withoutRepeats_sublist (before decls : List TableDecl) :
    (withoutRepeats before decls).Sublist decls := by
  induction decls generalizing before with
  | nil => exact .slnil
  | cons decl rest ih =>
      rw [withoutRepeats]
      split
      · exact (ih _).cons decl
      · exact (ih _).cons_cons decl

/-- What is offered without the repeated tables is offered with them. -/
theorem offersTo_withoutRepeats_subset (decls : List TableDecl) (table name : String) :
    offersTo (withoutRepeats [] decls) table name ⊆ offersTo decls table name := by
  rw [offersTo_withoutRepeats, offersTo_eq_flatMap]
  intro relation hrelation
  obtain ⟨decl, hdecl, hoffered⟩ := List.mem_flatMap.mp hrelation
  exact List.mem_flatMap.mpr ⟨decl, (withoutRepeats_sublist [] decls).subset hdecl, hoffered⟩

/-- The first offer stays the same without the repeated tables, if a repeated table offers nothing
that no table before it offers.  A repeated table that is left out offers nothing, or is not the
first to offer. -/
theorem head?_flatMap_withoutRepeats {offered : TableDecl → List Relation}
    {before decls : List TableDecl}
    (h : ∀ between decl after, decls = between ++ decl :: after →
      decl.repeats (before ++ between) → offered decl ≠ [] →
        ∃ earlier ∈ before ++ between, offered earlier ≠ []) :
    ((before ++ withoutRepeats before decls).flatMap offered).head? =
      ((before ++ decls).flatMap offered).head? := by
  induction decls generalizing before with
  | nil => rfl
  | cons decl rest ih =>
      have hrest := @ih (before ++ [decl]) fun between other after hsplit hrepeats => by
        have hother := h (decl :: between) other after (by rw [hsplit, List.cons_append])
        rw [List.append_cons before decl between] at hother
        exact hother hrepeats
      rw [List.append_cons before decl rest, ← hrest, withoutRepeats]
      split
      · next hrepeats =>
          have hfirst : ((before ++ [decl]).flatMap offered).head? =
              (before.flatMap offered).head? := by
            rw [List.flatMap_append, List.head?_append, List.flatMap_singleton]
            by_cases hnone : offered decl = []
            · rw [hnone, List.head?_nil, Option.or_none]
            · obtain ⟨earlier, hearlier, hsome⟩ :=
                h [] decl rest rfl (by rwa [List.append_nil]) hnone
              rw [List.append_nil] at hearlier
              cases hbefore : before.flatMap offered with
              | nil => exact absurd (List.flatMap_eq_nil_iff.mp hbefore earlier hearlier) hsome
              | cons one others => rfl
          rw [List.flatMap_append, List.flatMap_append, List.head?_append, List.head?_append,
            hfirst]
      · rw [← List.append_cons]

/-- A repeated table without a foreign key of its own offers only what its first declaration
offers. -/
theorem declOffersTo_subset {table name : String} {earlier decl : TableDecl}
    (htable : earlier.isTable) (hname : earlier.name = decl.name)
    (hkeys : decl.allKeys ⊆ earlier.allKeys) :
    schema.declOffersTo table name decl ⊆ schema.declOffersTo table name earlier := by
  have hoffers : schema.declOffers decl ⊆ schema.declOffers earlier := by
    unfold declOffers
    rw [if_pos htable, hname]
    split
    · intro offer hoffer
      obtain ⟨key, hkey, hmade⟩ := List.mem_flatMap.mp hoffer
      exact List.mem_flatMap.mpr ⟨key, hkeys hkey, hmade⟩
    · exact List.nil_subset _
  exact List.map_subset _ (List.filter_subset _ hoffers)

/-! ### The effect of repeated tables -/

/-- Schemas that come about are told apart by their tables and relations, and by whether they have
been scanned. -/
theorem Reachable.eq_of_same {one other : Schema} (hone : one.Reachable) (hother : other.Reachable)
    (hscanned : one.isScanned = other.isScanned) (htables : one.SameTables other)
    (hrelations : ∀ table name, one.relation? table name = other.relation? table name) :
    one = other := by
  have hlookup : ∀ name, one.tables.lookup name = other.tables.lookup name := by
    intro name
    have hsame := htables name
    change one.table? name = other.table? name
    cases hfirst : one.table? name with
    | none =>
        cases hsecond : other.table? name with
        | none => rfl
        | some second => simp [hfirst, hsecond] at hsame
    | some first =>
        cases hsecond : other.table? name with
        | none => simp [hfirst, hsecond] at hsame
        | some second =>
            rw [hfirst, hsecond, Option.map_some, Option.map_some, Option.some.injEq,
              Prod.mk.injEq] at hsame
            have hnames : first.name = second.name :=
              (hone.consistent.table_name hfirst).trans (hother.consistent.table_name hsecond).symm
            have hdefined : first.relations = second.relations := by
              refine (hone.listed.relations hfirst).ext (hother.listed.relations hsecond) ?_
              intro key
              have hkey := hrelations name key
              rwa [relation?, relation?, hfirst, hsecond] at hkey
            obtain ⟨firstName, firstKey, firstColumns, firstRelations⟩ := first
            obtain ⟨secondName, secondKey, secondColumns, secondRelations⟩ := second
            dsimp only at hsame hnames hdefined
            rw [hnames, hsame.1, hsame.2, hdefined]
  obtain ⟨oneTables, oneScanned⟩ := one
  obtain ⟨otherTables, otherScanned⟩ := other
  have heq : oneTables = otherTables := hone.listed.tables.ext hother.listed.tables hlookup
  dsimp only at hscanned
  rw [heq, hscanned]

/-- The tables of the schema of a catalog are those registered. -/
theorem sameTables_ofDecls (decls : List TableDecl) :
    (ofDecls decls).SameTables (registered decls) := by
  have hinferred : ∀ (rest : List TableDecl) {known : Schema}, known.SameTables (registered decls) →
      (rest.foldl inferAll known).SameTables (registered decls) := by
    intro rest
    induction rest with
    | nil => exact fun h => h
    | cons decl rest ih => exact fun h => ih (inferAll_eq_accept h decl).2
  exact hinferred decls fun _ => rfl

/-- **Repeated tables.**  The schema of a catalog has the tables, with their columns and keys, that
it has without the repeated ones, and a relation under every name under which it has one without
them.  It is the same schema exactly if under every name the first offer is the same without them;
and so it is if every repeated table has only foreign keys that a table before it of that name
has. -/
theorem ofDecls_withoutRepeats (decls : List TableDecl) :
    let plain := withoutRepeats [] decls
    (ofDecls decls).SameTables (ofDecls plain) ∧
      (∀ table name, (ofDecls plain).hasRelation table name →
        (ofDecls decls).hasRelation table name) ∧
      (ofDecls decls = ofDecls plain ↔ ∀ table name,
        (offersTo decls table name).head? = (offersTo plain table name).head?) ∧
      ((∀ before decl after, decls = before ++ decl :: after → decl.repeats before →
        ∃ earlier ∈ before, earlier.isTable ∧ earlier.name = decl.name ∧
          decl.allKeys ⊆ earlier.allKeys) → ofDecls decls = ofDecls plain) := by
  intro plain
  have htables : (ofDecls decls).SameTables (ofDecls plain) := by
    intro name
    rw [sameTables_ofDecls decls name, sameTables_ofDecls plain name, registered_withoutRepeats]
  have hsame : ofDecls decls = ofDecls plain ↔ ∀ table name,
      (offersTo decls table name).head? = (offersTo plain table name).head? := by
    constructor
    · intro heq table name
      rw [← relation?_ofDecls, ← relation?_ofDecls, heq]
    · intro hfirst
      refine (reachable_ofDecls decls).eq_of_same (reachable_ofDecls plain) rfl htables ?_
      intro table name
      rw [relation?_ofDecls, relation?_ofDecls, hfirst]
  refine ⟨htables, ?_, hsame, ?_⟩
  · intro table name hrelation
    rw [hasRelation, relation?_ofDecls] at hrelation ⊢
    obtain ⟨relation, hfirst⟩ := Option.isSome_iff_exists.mp hrelation
    have hoffered : relation ∈ offersTo decls table name :=
      offersTo_withoutRepeats_subset decls table name (List.mem_of_mem_head? hfirst)
    exact List.isSome_head?.mpr (List.ne_nil_of_mem hoffered)
  · intro hkeys
    refine hsame.mpr fun table name => ?_
    rw [offersTo_eq_flatMap, offersTo_withoutRepeats]
    refine (@head?_flatMap_withoutRepeats _ [] _ ?_).symm
    intro before decl after hsplit hrepeats hoffers
    obtain ⟨earlier, hearlier, htable, hname, hsubset⟩ := hkeys before decl after hsplit hrepeats
    refine ⟨earlier, hearlier, fun hnone => hoffers ?_⟩
    exact List.subset_nil.mp (hnone ▸ declOffersTo_subset htable hname hsubset)

/-- The declaration of contracts, with or without a foreign key to mentors. -/
def contractDecl (references : Option ColumnReference) : TableDecl :=
  { name := "Contract"
    columns := [{ name := "id", type := .integer, primary := true },
      { name := "mentorId", type := .integer, references }] }

/-- Mentors, and contracts declared twice. -/
def repeatedContracts (first second : Option ColumnReference) : List TableDecl :=
  [{ name := "Mentor", columns := [{ name := "id", type := .integer, primary := true }] },
   contractDecl first, contractDecl second]

/-- Contracts declared once more without their foreign key keep their mentor, and nothing else
changes. -/
theorem ofDecls_withoutRepeats_contracts :
    let decls := repeatedContracts (some ⟨"Mentor", "id"⟩) none
    (ofDecls decls).hasRelation "Contract" "mentor" ∧
      ofDecls decls = ofDecls (withoutRepeats [] decls) := by
  intro decls
  obtain ⟨-, hbound, -, hunchanged⟩ := ofDecls_withoutRepeats decls
  refine ⟨hbound "Contract" "mentor" (by decide +kernel), hunchanged ?_⟩
  intro before decl after hsplit hrepeats
  rcases before with _ | ⟨mentor, _ | ⟨contract, _ | ⟨again, others⟩⟩⟩ <;>
    simp only [decls, repeatedContracts, List.nil_append, List.cons_append, List.cons.injEq,
      reduceCtorEq, List.nil_eq, List.append_eq_nil_iff, and_false] at hsplit
  · exact absurd hrepeats (by obtain ⟨rfl, -⟩ := hsplit; decide +kernel)
  · exact absurd hrepeats (by obtain ⟨rfl, rfl, -⟩ := hsplit; decide +kernel)
  · obtain ⟨-, rfl, rfl, -⟩ := hsplit
    exact ⟨_, List.mem_cons_of_mem _ List.mem_cons_self, by decide +kernel⟩

/-- A foreign key that only the repeated declaration has makes a relation, which the catalog
without it lacks. -/
theorem repeated_contract_adds_mentor :
    let decls := repeatedContracts none (some ⟨"Mentor", "id"⟩)
    withoutRepeats [] decls ≠ decls ∧
      ((ofDecls decls).relation? "Contract" "mentor").isSome ∧
      (ofDecls (withoutRepeats [] decls)).relation? "Contract" "mentor" = none ∧
      ofDecls decls ≠ ofDecls (withoutRepeats [] decls) := by
  decide +kernel

end Schema

end NestedQuery
