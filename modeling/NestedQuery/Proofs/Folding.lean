import NestedQuery.Engine.Assembly
import NestedQuery.Proofs.OutputNames
import NestedQuery.Proofs.RecordShape

/-!
# Folding rows that were flattened

A record of joined tables is flattened into rows: its own columns, beside every
combination of rows of its relations, and beside nulls where a relation is
empty.  Folding gives back the records, in order.  What makes the induction go
through is that rows may repeat on either side: in the rows of one relation
those of the relations before it repeat the whole, and those of the relations
after it repeat every row.
-/

namespace NestedQuery

/-! ### Output names -/

theorem labelled_name (qualifier column output : String) :
    (labelled qualifier column output).name = output := by
  unfold labelled
  split
  · next heq => exact heq.symm
  · rfl

mutual

/-- The outputs of a layout have its output names. -/
theorem Layout.names_projection : ∀ {layout : Layout}, layout.Named →
    layout.projection.map Output.name = layout.outputNames
  | ⟨_, qualifier, _, _, columns, outputs, _, _, relations, _⟩, h => by
      rw [Layout.Named] at h
      rw [Layout.projection, Layout.outputNames, List.map_append, names_branchProjections h.2.2,
        List.map_map]
      congr 1
      have hsecond : (columns.zip outputs).map Prod.snd = outputs :=
        List.map_snd_zip (Nat.le_of_eq h.1)
      conv_rhs => rw [← hsecond]
      exact List.map_congr_left fun pair _ => labelled_name qualifier pair.1 pair.2

/-- Beneath joined relations the outputs are named as the layout has it. -/
theorem names_branchProjections : ∀ {relations : List (JoinedBranchOf Layout)},
    branchesNamed relations →
    (branchProjections relations).map Output.name = branchOutputNames relations
  | [], h => by
      rw [branchProjections, branchOutputNames]
      rfl
  | ⟨_, _, _, layout⟩ :: rest, h => by
      rw [branchesNamed] at h
      rw [branchProjections, branchOutputNames, List.map_append, Layout.names_projection h.1,
        names_branchProjections h.2]

end

/-! ### Groups -/

section Groups

variable {α γ ρ : Type} {key : ρ → String}

/-- Items whose keys have been seen are skipped. -/
theorem firstOfEach_skip {seen : List String} {items : List ρ}
    (h : ∀ item ∈ items, key item ∈ seen) (more : List ρ) :
    firstOfEach key seen (items ++ more) = firstOfEach key seen more := by
  induction items with
  | nil => rfl
  | cons item rest ih =>
      rw [List.cons_append, firstOfEach,
        if_pos (List.contains_iff_mem.mpr (h item List.mem_cons_self))]
      exact ih fun other hother => h other (List.mem_cons_of_mem _ hother)

/-- Of a block of items with one new key, the first item is first. -/
theorem firstOfEach_block {seen : List String} {block : List ρ} (hsome : block ≠ [])
    {name : String} (hblock : ∀ item ∈ block, key item = name) (hnew : name ∉ seen)
    (more : List ρ) :
    (firstOfEach key seen (block ++ more)).map key =
      name :: (firstOfEach key (name :: seen) more).map key := by
  cases block with
  | nil => exact absurd rfl hsome
  | cons first rest =>
      have hfirst := hblock first List.mem_cons_self
      have hrest : ∀ item ∈ rest, key item ∈ name :: seen := by
        intro item hitem
        rw [hblock item (List.mem_cons_of_mem _ hitem)]
        exact List.mem_cons_self
      rw [List.cons_append, firstOfEach, hfirst, if_neg (by simpa using hnew), List.map_cons,
        hfirst, firstOfEach_skip hrest]

/-- Blocks with distinct new keys have their keys, in order. -/
theorem firstOfEach_blocks {seen : List String} {items : List γ} {name : γ → String}
    {block : γ → List ρ} (hsome : ∀ item ∈ items, block item ≠ [])
    (hblock : ∀ item ∈ items, ∀ row ∈ block item, key row = name item)
    (hnodup : (items.map name).Nodup) (hnew : ∀ item ∈ items, name item ∉ seen)
    (more : List ρ) :
    (firstOfEach key seen (items.flatMap block ++ more)).map key =
      items.map name ++ (firstOfEach key ((items.map name).reverse ++ seen) more).map key := by
  induction items generalizing seen with
  | nil => rfl
  | cons item rest ih =>
      rw [List.map_cons, List.nodup_cons] at hnodup
      have hrestNew : ∀ other ∈ rest, name other ∉ name item :: seen := by
        intro other hother hmem
        rcases List.mem_cons.mp hmem with heq | hseen
        · exact hnodup.1 (heq ▸ List.mem_map_of_mem hother)
        · exact hnew other (List.mem_cons_of_mem _ hother) hseen
      rw [List.flatMap_cons, List.append_assoc,
        firstOfEach_block (hsome item List.mem_cons_self) (hblock item List.mem_cons_self)
          (hnew item List.mem_cons_self),
        ih (fun other hother => hsome other (List.mem_cons_of_mem _ hother))
          (fun other hother => hblock other (List.mem_cons_of_mem _ hother)) hnodup.2 hrestNew]
      simp

/-- Of blocks with distinct keys, the rows with the key of one are its own. -/
theorem filter_blocks {items : List γ} {name : γ → String} {block : γ → List ρ}
    (hblock : ∀ item ∈ items, ∀ row ∈ block item, key row = name item)
    (hnodup : (items.map name).Nodup) {item : γ} (hitem : item ∈ items) :
    (items.flatMap block).filter (fun row => key row == name item) = block item := by
  have hother : ∀ other ∈ items, name other ≠ name item →
      (block other).filter (fun row => key row == name item) = [] := by
    intro other hmem hne
    refine List.filter_eq_nil_iff.mpr ?_
    intro row hrow heq
    exact hne ((hblock other hmem row hrow).symm.trans (beq_iff_eq.mp heq))
  have hself : (block item).filter (fun row => key row == name item) = block item := by
    refine List.filter_eq_self.mpr ?_
    intro row hrow
    exact beq_iff_eq.mpr (hblock item hitem row hrow)
  induction items with
  | nil => cases hitem
  | cons first rest ih =>
      rw [List.map_cons, List.nodup_cons] at hnodup
      rw [List.flatMap_cons, List.filter_append]
      rcases List.mem_cons.mp hitem with rfl | hmem
      · have hnone : (rest.flatMap block).filter (fun row => key row == name item) = [] := by
          rw [List.filter_flatMap]
          refine List.flatMap_eq_nil_iff.mpr ?_
          intro other hmem
          refine hother other (List.mem_cons_of_mem _ hmem) ?_
          intro heq
          exact hnodup.1 (heq ▸ List.mem_map_of_mem hmem)
        rw [hself, hnone, List.append_nil]
      · have hne : name first ≠ name item :=
          fun heq => hnodup.1 (heq ▸ List.mem_map_of_mem hmem)
        rw [hother first List.mem_cons_self hne, List.nil_append]
        exact ih (fun other hother => hblock other (List.mem_cons_of_mem _ hother)) hnodup.2 hmem
          (fun other hmem => hother other (List.mem_cons_of_mem _ hmem))

/-- Blocks with distinct keys, repeated any number of times, make a group each. -/
theorem groupsOf_blocks {heads : List α} (hheads : heads ≠ []) {items : List γ}
    {name : γ → String} {block : α → γ → List ρ}
    (hsome : ∀ head ∈ heads, ∀ item ∈ items, block head item ≠ [])
    (hblock : ∀ head ∈ heads, ∀ item ∈ items, ∀ row ∈ block head item, key row = name item)
    (hnodup : (items.map name).Nodup) :
    groupsOf key (heads.flatMap fun head => items.flatMap (block head)) =
      items.map fun item => heads.flatMap fun head => block head item := by
  have hkeys : (firstOfEach key [] (heads.flatMap fun head => items.flatMap (block head))).map
      key = items.map name := by
    cases heads with
    | nil => exact absurd rfl hheads
    | cons head rest =>
        have hseen : ∀ row ∈ rest.flatMap (fun head => items.flatMap (block head)),
            key row ∈ (items.map name).reverse ++ [] := by
          intro row hrow
          obtain ⟨other, hother, hmem⟩ := List.mem_flatMap.mp hrow
          obtain ⟨item, hitem, hrow⟩ := List.mem_flatMap.mp hmem
          rw [hblock other (List.mem_cons_of_mem _ hother) item hitem row hrow]
          simpa using ⟨item, hitem, rfl⟩
        have hskip : firstOfEach key ((items.map name).reverse ++ [])
            (rest.flatMap fun head => items.flatMap (block head)) = [] := by
          simpa [firstOfEach] using firstOfEach_skip hseen []
        rw [List.flatMap_cons, firstOfEach_blocks (hsome head List.mem_cons_self)
          (hblock head List.mem_cons_self) hnodup (fun item _ => List.not_mem_nil), hskip]
        exact List.append_nil _
  have hgroups : ∀ rows : List ρ, groupsOf key rows =
      ((firstOfEach key [] rows).map key).map fun name =>
        rows.filter fun row => key row == name := by
    intro rows
    rw [groupsOf, List.map_map]
    rfl
  rw [hgroups, hkeys, List.map_map]
  refine List.map_congr_left ?_
  intro item hitem
  rw [Function.comp_apply, List.filter_flatMap]
  exact List.flatMap_congr fun head hhead => filter_blocks (hblock head hhead) hnodup hitem

end Groups

/-! ### Flattening -/

/-- The columns of a record under the output names of a layout. -/
def Layout.own (layout : Layout) (record : Record) : List (String × Value) :=
  (layout.columns.zip layout.outputs).map fun (column, output) => (output, record.scalar column)

/-- The records under a name of a record. -/
def Record.children (record : Record) (name : String) : List Record :=
  ((record.lookup name).map Node.records).getD []

/-- The rows, or one of nulls if there are none. -/
def orNulls (names : List String) (rows : List (List (String × Value))) :
    List (List (String × Value)) :=
  if rows.isEmpty then [names.map (·, .null)] else rows

/-- The values that tell a record apart. -/
def Layout.identityOf (layout : Layout) (record : Record) : List Value :=
  Row.valuesOf (layout.own record) layout.identity

mutual

/-- The rows of a record, as values by output name. -/
def Layout.flatten : Layout → Record → List (List (String × Value))
  | ⟨_, _, _, _, columns, outputs, _, _, relations, _⟩, record =>
    (flattenBranches relations record).map
      ((columns.zip outputs).map (fun (column, output) => (output, record.scalar column)) ++ ·)

/-- Every combination of rows of the relations of a record, with nulls for an empty one. -/
def flattenBranches : List (JoinedBranchOf Layout) → Record → List (List (String × Value))
  | [], _ => [[]]
  | ⟨name, _, _, layout⟩ :: rest, record =>
    (orNulls layout.outputNames ((record.children name).flatMap layout.flatten)).flatMap
      fun pairs => (flattenBranches rest record).map (pairs ++ ·)

end

/-- The identities of the records are distinct, and those of joined records are not all null. -/
structure Layout.ToldApart (layout : Layout) (records : List Record) : Prop where
  keys : (records.map fun record => Value.jointKey (layout.identityOf record)).Nodup
  matched : ∀ record ∈ records, layout.isBase ∨ ∃ value ∈ layout.identityOf record, value ≠ .null

mutual

/-- Every column has an output name, the identity is made of these, no relation is joined twice, and
tables joined beneath another are not first. -/
def Layout.Sound : Layout → Prop
  | ⟨_, _, _, _, columns, outputs, _, identity, relations, _⟩ =>
    outputs.length = columns.length ∧ identity ⊆ outputs ∧ (relations.map (·.name)).Nodup ∧
      branchesSound relations

def branchesSound : List (JoinedBranchOf Layout) → Prop
  | [] => True
  | ⟨_, _, _, layout⟩ :: rest => (layout.isBase = false ∧ layout.Sound) ∧ branchesSound rest

end

mutual

/-- The record has just the columns of the layout and its joined relations, and under each of
these all of its records, which are told apart and are such records in turn. -/
def Layout.Folded : Layout → Record → Prop
  | ⟨_, _, _, _, columns, _, _, _, relations, _⟩, record =>
    record.Carries columns ∧
      (∀ name ∈ Dict.names record, name ∈ columns ∨ name ∈ relations.map (·.name)) ∧
      branchesFolded relations record

def branchesFolded : List (JoinedBranchOf Layout) → Record → Prop
  | [], _ => True
  | ⟨name, isToMany, branch, layout⟩ :: rest, record =>
    (∃ node, record.lookup name = some node ∧ node.OfKind isToMany ∧
      branch.page node.records = node.records ∧ layout.ToldApart node.records ∧
      ∀ child ∈ node.records, layout.Folded child) ∧
    branchesFolded rest record

end

/-! ### What rows hold -/

/-- A record shows its own columns under the outputs of the layout. -/
theorem names_own (layout : Layout) (h : layout.outputs.length = layout.columns.length)
    (record : Record) : Dict.names (layout.own record) = layout.outputs := by
  unfold Layout.own Dict.names
  rw [List.map_map]
  exact List.map_snd_zip (Nat.le_of_eq h)

/-- Rows of some names have these names, and so has the one that stands for none of them. -/
theorem names_orNulls {names : List String} {rows : List (List (String × Value))}
    (h : ∀ pairs ∈ rows, Dict.names pairs = names) :
    ∀ pairs ∈ orNulls names rows, Dict.names pairs = names := by
  intro pairs hpairs
  unfold orNulls at hpairs
  split at hpairs
  · rw [List.mem_singleton.mp hpairs, Dict.names, List.map_map]
    exact List.map_id _
  · exact h pairs hpairs

mutual

/-- Every row of a record has the output names of the layout. -/
theorem Layout.names_flatten : ∀ {layout : Layout}, layout.Sound → ∀ {record : Record},
    ∀ pairs ∈ layout.flatten record, Dict.names pairs = layout.outputNames
  | ⟨table, qualifier, lead, fields, columns, outputs, key, identity, relations, deferred⟩, h,
      record, pairs, hpairs => by
      rw [Layout.Sound] at h
      rw [Layout.flatten] at hpairs
      obtain ⟨beneath, hbeneath, rfl⟩ := List.mem_map.mp hpairs
      rw [Layout.outputNames, Dict.names_append, names_flattenBranches h.2.2.2 beneath hbeneath]
      congr 1
      exact names_own ⟨table, qualifier, lead, fields, columns, outputs, key, identity, relations,
        deferred⟩ h.1 record

/-- Every flattened row has the names of the outputs beneath. -/
theorem names_flattenBranches : ∀ {relations : List (JoinedBranchOf Layout)},
    branchesSound relations → ∀ {record : Record}, ∀ pairs ∈ flattenBranches relations record,
      Dict.names pairs = branchOutputNames relations
  | [], _, _, pairs, hpairs => by
      rw [flattenBranches] at hpairs
      rw [List.mem_singleton.mp hpairs, branchOutputNames]
      rfl
  | ⟨name, isToMany, branch, layout⟩ :: rest, h, record, pairs, hpairs => by
      rw [branchesSound] at h
      rw [flattenBranches] at hpairs
      obtain ⟨beneath, hbeneath, hmem⟩ := List.mem_flatMap.mp hpairs
      obtain ⟨others, hothers, rfl⟩ := List.mem_map.mp hmem
      rw [branchOutputNames, Dict.names_append, names_flattenBranches h.2 others hothers]
      congr 1
      refine names_orNulls ?_ beneath hbeneath
      intro pairs hpairs
      obtain ⟨child, -, hchild⟩ := List.mem_flatMap.mp hpairs
      exact Layout.names_flatten h.1.2 pairs hchild

end

/-- There is always a row, of nulls if there is no other. -/
theorem orNulls_ne_nil (names : List String) (rows : List (List (String × Value))) :
    orNulls names rows ≠ [] := by
  unfold orNulls
  split
  · exact List.cons_ne_nil _ _
  · next hrows =>
      rintro rfl
      exact hrows rfl

mutual

/-- Every record has a row. -/
theorem Layout.flatten_ne_nil : ∀ (layout : Layout) (record : Record), layout.flatten record ≠ []
  | ⟨_, _, _, _, _, _, _, _, relations, _⟩, record => by
      rw [Layout.flatten]
      simpa using flattenBranches_ne_nil relations record

/-- So a record is flattened to one row at least. -/
theorem flattenBranches_ne_nil : ∀ (relations : List (JoinedBranchOf Layout)) (record : Record),
    flattenBranches relations record ≠ []
  | [], record => by
      rw [flattenBranches]
      exact List.cons_ne_nil _ _
  | ⟨name, isToMany, branch, layout⟩ :: rest, record => by
      rw [flattenBranches]
      obtain ⟨pairs, hpairs⟩ := List.exists_mem_of_ne_nil _
        (orNulls_ne_nil layout.outputNames ((record.children name).flatMap layout.flatten))
      obtain ⟨others, hothers⟩ := List.exists_mem_of_ne_nil _ (flattenBranches_ne_nil rest record)
      exact List.ne_nil_of_mem
        (List.mem_flatMap.mpr ⟨pairs, hpairs, List.mem_map_of_mem hothers⟩)

end

/-- Records have rows, which stand for themselves. -/
theorem orNulls_flatten (layout : Layout) {records : List Record} (hsome : records ≠ []) :
    orNulls layout.outputNames (records.flatMap layout.flatten) =
      records.flatMap layout.flatten := by
  obtain ⟨record, hrecord⟩ := List.exists_mem_of_ne_nil _ hsome
  obtain ⟨pairs, hpairs⟩ := List.exists_mem_of_ne_nil _ (layout.flatten_ne_nil record)
  rw [orNulls, if_neg]
  rw [List.isEmpty_iff]
  exact List.ne_nil_of_mem (List.mem_flatMap.mpr ⟨record, hrecord, hpairs⟩)

/-! ### Repeated rows -/

/-- A way for rows of some names to be repeated as parts of larger rows: the heads repeat the rows
as a whole, the tails each of them.  A larger row holds under the names what its part holds. -/
structure Repetition (names : List String) where
  {Head : Type}
  {Tail : Type}
  heads : List Head
  tails : List Tail
  row : Head → List (String × Value) → Tail → Row
  heads_ne_nil : heads ≠ []
  tails_ne_nil : tails ≠ []
  lookup_row : ∀ head ∈ heads, ∀ pairs, Dict.names pairs = names → ∀ tail ∈ tails,
    ∀ name ∈ names, (row head pairs tail).lookup name = pairs.lookup name

namespace Repetition

variable {names first second : List String}

/-- The larger rows. -/
def rows (repetition : Repetition names) (parts : List (List (String × Value))) : List Row :=
  repetition.heads.flatMap fun head =>
    parts.flatMap fun pairs => repetition.tails.map (repetition.row head pairs)

/-- A larger row holds what one of the parts holds. -/
theorem lookup_of_mem (repetition : Repetition names) {parts : List (List (String × Value))}
    (hnames : ∀ pairs ∈ parts, Dict.names pairs = names) {made : Row}
    (hmade : made ∈ repetition.rows parts) :
    ∃ pairs ∈ parts, ∀ name ∈ names, made.lookup name = pairs.lookup name := by
  obtain ⟨head, hhead, hmem⟩ := List.mem_flatMap.mp hmade
  obtain ⟨pairs, hpairs, hmem⟩ := List.mem_flatMap.mp hmem
  obtain ⟨tail, htail, rfl⟩ := List.mem_map.mp hmem
  exact ⟨pairs, hpairs, repetition.lookup_row head hhead pairs (hnames pairs hpairs) tail htail⟩

/-- Repeating rows leaves some if there are any. -/
theorem rows_ne_nil (repetition : Repetition names) {parts : List (List (String × Value))}
    (hsome : parts ≠ []) : repetition.rows parts ≠ [] := by
  obtain ⟨head, hhead⟩ := List.exists_mem_of_ne_nil _ repetition.heads_ne_nil
  obtain ⟨pairs, hpairs⟩ := List.exists_mem_of_ne_nil _ hsome
  obtain ⟨tail, htail⟩ := List.exists_mem_of_ne_nil _ repetition.tails_ne_nil
  exact List.ne_nil_of_mem (List.mem_flatMap.mpr
    ⟨head, hhead, List.mem_flatMap.mpr ⟨pairs, hpairs, List.mem_map_of_mem htail⟩⟩)

/-- Rows on their own, once. -/
def once (hnodup : names.Nodup) : Repetition names where
  heads := [()]
  tails := [()]
  row := fun _ pairs _ => Dict.ofPairs pairs
  heads_ne_nil := List.cons_ne_nil _ _
  tails_ne_nil := List.cons_ne_nil _ _
  lookup_row := by
    intro _ _ pairs hpairs _ _ name _
    rw [Dict.lookup_ofPairs, Dict.lookup_reverse (hpairs ▸ hnodup)]

/-- Repeated once, rows on their own stay as they are. -/
theorem rows_once (hnodup : names.Nodup) (parts : List (List (String × Value))) :
    (once hnodup).rows parts = parts.map Dict.ofPairs := by
  simp [rows, once, List.map_eq_flatMap]

/-- What follows rows repeats each of them. -/
def followed (repetition : Repetition (first ++ second)) (others : List (List (String × Value)))
    (hsome : others ≠ []) (hothers : ∀ pairs ∈ others, Dict.names pairs = second) :
    Repetition first where
  heads := repetition.heads
  tails := others.flatMap fun other => repetition.tails.map (other, ·)
  row := fun head pairs tail => repetition.row head (pairs ++ tail.1) tail.2
  heads_ne_nil := repetition.heads_ne_nil
  tails_ne_nil := by
    obtain ⟨other, hother⟩ := List.exists_mem_of_ne_nil _ hsome
    obtain ⟨tail, htail⟩ := List.exists_mem_of_ne_nil _ repetition.tails_ne_nil
    exact List.ne_nil_of_mem (List.mem_flatMap.mpr ⟨other, hother, List.mem_map_of_mem htail⟩)
  lookup_row := by
    intro head hhead pairs hpairs tail htail name hname
    obtain ⟨other, hother, hmem⟩ := List.mem_flatMap.mp htail
    obtain ⟨last, hlast, rfl⟩ := List.mem_map.mp hmem
    have hnames : Dict.names (pairs ++ other) = first ++ second := by
      rw [Dict.names_append, hpairs, hothers other hother]
    rw [repetition.lookup_row head hhead _ hnames last hlast name (List.mem_append_left _ hname)]
    exact Dict.lookup_append_of_mem (hpairs ▸ hname) other

/-- To repeat rows before others is to repeat them with each of the others behind. -/
theorem rows_followed (repetition : Repetition (first ++ second))
    {others : List (List (String × Value))} (hsome : others ≠ [])
    (hothers : ∀ pairs ∈ others, Dict.names pairs = second)
    (parts : List (List (String × Value))) :
    (repetition.followed others hsome hothers).rows parts =
      repetition.rows (parts.flatMap fun pairs => others.map (pairs ++ ·)) := by
  unfold rows followed
  refine List.flatMap_congr ?_
  intro head _
  rw [List.flatMap_assoc]
  refine List.flatMap_congr ?_
  intro pairs _
  rw [List.flatMap_map, List.map_flatMap]
  refine List.flatMap_congr ?_
  intro other _
  rw [List.map_map]
  rfl

/-- What precedes rows repeats them as a whole. -/
def preceded (repetition : Repetition (first ++ second)) (others : List (List (String × Value)))
    (hsome : others ≠ []) (hothers : ∀ pairs ∈ others, Dict.names pairs = first)
    (hapart : ∀ name ∈ first, name ∉ second) : Repetition second where
  heads := repetition.heads.flatMap fun head => others.map (head, ·)
  tails := repetition.tails
  row := fun head pairs tail => repetition.row head.1 (head.2 ++ pairs) tail
  heads_ne_nil := by
    obtain ⟨head, hhead⟩ := List.exists_mem_of_ne_nil _ repetition.heads_ne_nil
    obtain ⟨other, hother⟩ := List.exists_mem_of_ne_nil _ hsome
    exact List.ne_nil_of_mem (List.mem_flatMap.mpr ⟨head, hhead, List.mem_map_of_mem hother⟩)
  tails_ne_nil := repetition.tails_ne_nil
  lookup_row := by
    intro head hhead pairs hpairs tail htail name hname
    obtain ⟨start, hstart, hmem⟩ := List.mem_flatMap.mp hhead
    obtain ⟨other, hother, rfl⟩ := List.mem_map.mp hmem
    have hnames : Dict.names (other ++ pairs) = first ++ second := by
      rw [Dict.names_append, hpairs, hothers other hother]
    have hnew : name ∉ Dict.names other := by
      rw [hothers other hother]
      exact fun hold => hapart name hold hname
    rw [repetition.lookup_row start hstart _ hnames tail htail name
      (List.mem_append_right _ hname)]
    exact Dict.lookup_append_of_notMem hnew pairs

/-- To repeat rows behind others is to repeat them with each of the others in front. -/
theorem rows_preceded (repetition : Repetition (first ++ second))
    {others : List (List (String × Value))} (hsome : others ≠ [])
    (hothers : ∀ pairs ∈ others, Dict.names pairs = first)
    (hapart : ∀ name ∈ first, name ∉ second) (parts : List (List (String × Value))) :
    (repetition.preceded others hsome hothers hapart).rows parts =
      repetition.rows (others.flatMap fun other => parts.map (other ++ ·)) := by
  unfold rows preceded
  rw [List.flatMap_assoc]
  refine List.flatMap_congr ?_
  intro head _
  rw [List.flatMap_assoc, List.flatMap_map]
  refine List.flatMap_congr ?_
  intro other _
  rw [List.flatMap_map]

end Repetition

/-! ### Folding -/

/-- An entry holds the records that it is made of. -/
theorem Node.ofRelated_records {isToMany : Bool} {node : Node} (h : node.OfKind isToMany) :
    Node.ofRelated isToMany node.records = node := by
  cases node with
  | list records =>
      cases h
      rfl
  | object record =>
      cases h
      rfl
  | scalar value =>
      obtain ⟨rfl, rfl⟩ := h
      rfl

/-- The entries of the joined relations of a record. -/
def entriesOf (relations : List (JoinedBranchOf Layout)) (record : Record) : List (String × Node) :=
  relations.map fun joined => (joined.name, (record.lookup joined.name).getD (.scalar .null))

/-- A record of just its columns and its joined relations is made of these. -/
theorem putAll_entriesOf {columns outputs : List String} {relations : List (JoinedBranchOf Layout)}
    {record : Record} (hlength : outputs.length = columns.length)
    (hnodup : (relations.map (·.name)).Nodup)
    (hcarries : record.Carries columns)
    (hnames : ∀ name ∈ Dict.names record, name ∈ columns ∨ name ∈ relations.map (·.name))
    (hrelations : ∀ joined ∈ relations, (record.lookup joined.name).isSome) :
    Dict.putAll (Dict.ofPairs ((columns.zip outputs).map fun (column, _) =>
      (column, .scalar (record.scalar column)))) (entriesOf relations record) = record := by
  have hentries : (entriesOf relations record).map (·.1) = relations.map (·.name) := by
    unfold entriesOf
    rw [List.map_map]
    rfl
  have hcolumnsOnly : ∀ name, (Dict.ofPairs ((columns.zip outputs).map fun (column, _) =>
      (column, Node.scalar (record.scalar column)))).lookup name =
        if name ∈ columns then some (.scalar (record.scalar name)) else none := by
    intro name
    have hzip : (columns.zip outputs).map (fun (column, _) =>
        (column, Node.scalar (record.scalar column))) =
          columns.map fun column => (column, Node.scalar (record.scalar column)) := by
      have hfirst : (columns.zip outputs).map Prod.fst = columns :=
        List.map_fst_zip (Nat.le_of_eq hlength.symm)
      conv_rhs => rw [← hfirst, List.map_map]
      rfl
    rw [hzip, Dict.lookup_ofPairs_map]
  refine Dict.Sorted.ext ((Dict.sorted_ofPairs _).putAll _) hcarries.sorted ?_
  intro name
  rw [Dict.lookup_putAll, Dict.lookup_reverse (by rw [Dict.names, hentries]; exact hnodup),
    hcolumnsOnly]
  by_cases hrelation : name ∈ relations.map (·.name)
  · obtain ⟨joined, hjoined, rfl⟩ := List.mem_map.mp hrelation
    obtain ⟨node, hnode⟩ := Option.isSome_iff_exists.mp (hrelations joined hjoined)
    have hmem : (joined.name, node) ∈ entriesOf relations record := by
      refine List.mem_map.mpr ⟨joined, hjoined, ?_⟩
      rw [hnode]
      rfl
    rw [Dict.lookup_of_mem (by rw [Dict.names, hentries]; exact hnodup) hmem, hnode]
    rfl
  · have hnone : (entriesOf relations record).lookup name = none := by
      refine Dict.lookup_eq_none_iff.mpr ?_
      rw [Dict.names, hentries]
      exact hrelation
    rw [hnone, Option.none_or]
    by_cases hcolumn : name ∈ columns
    · obtain ⟨value, hvalue⟩ := hcarries.bound name hcolumn
      rw [if_pos hcolumn, Record.scalar, hvalue]
      rfl
    · rw [if_neg hcolumn]
      symm
      refine Dict.lookup_eq_none_iff.mpr ?_
      intro hmem
      exact (hnames name hmem).elim hcolumn hrelation

/-- A row that holds the columns of a record has its identity. -/
theorem valuesOf_identity {layout : Layout} (hidentity : layout.identity ⊆ layout.outputs)
    {record : Record} {row : Row}
    (hrow : ∀ name ∈ layout.outputs, row.lookup name = (layout.own record).lookup name) :
    row.valuesOf layout.identity = layout.identityOf record := by
  unfold Layout.identityOf Row.valuesOf
  refine List.map_congr_left ?_
  intro name hname
  rw [hrow name (hidentity hname)]

/-- A group of rows that hold the columns of a record gives them back. -/
theorem columnValues_own {layout : Layout} (hlength : layout.outputs.length = layout.columns.length)
    (hnodup : layout.outputs.Nodup) {record : Record} {group : List Row} (hsome : group ≠ [])
    (hgroup : ∀ row ∈ group, ∀ name ∈ layout.outputs,
      row.lookup name = (layout.own record).lookup name) :
    layout.columnValues group =
      Dict.ofPairs ((layout.columns.zip layout.outputs).map fun (column, _) =>
        (column, .scalar (record.scalar column))) := by
  unfold Layout.columnValues
  congr 1
  refine List.map_congr_left ?_
  rintro ⟨column, output⟩ hpair
  cases group with
  | nil => exact absurd rfl hsome
  | cons row rest =>
      have houtput : output ∈ layout.outputs := (List.of_mem_zip hpair).2
      have hown : (output, record.scalar column) ∈ layout.own record :=
        List.mem_map.mpr ⟨(column, output), hpair, rfl⟩
      have hlookup := Dict.lookup_of_mem (by rw [names_own layout hlength]; exact hnodup) hown
      simp only [List.head?_cons, Option.bind_some, hgroup row List.mem_cons_self output houtput,
        hlookup, Option.getD_some]

/-- The identity of a sound layout is read off its own outputs. -/
theorem Layout.Sound.identity_subset {layout : Layout} (h : layout.Sound) :
    layout.identity ⊆ layout.outputs := by
  obtain ⟨table, qualifier, lead, fields, columns, outputs, key, identity, relations, deferred⟩ :=
    layout
  rw [Layout.Sound] at h
  exact h.2.1

/-- Its own outputs are among all of its outputs. -/
theorem Layout.outputs_subset_names (layout : Layout) : layout.outputs ⊆ layout.outputNames := by
  obtain ⟨table, qualifier, lead, fields, columns, outputs, key, identity, relations, deferred⟩ :=
    layout
  rw [Layout.outputNames]
  exact List.subset_append_left _ _

/-- Under each of the names a row of nulls holds null. -/
theorem lookup_nulls {names : List String} {name : String} (h : name ∈ names) :
    (names.map (·, Value.null)).lookup name = some .null := by
  have hbound : name ∈ Dict.names (names.map (·, Value.null)) := by
    rw [Dict.names, List.map_map]
    simpa using h
  obtain ⟨value, hvalue⟩ := Option.isSome_iff_exists.mp (Dict.lookup_isSome_iff.mpr hbound)
  obtain ⟨known, -, heq⟩ := List.mem_map.mp (Dict.mem_of_lookup hvalue)
  cases heq
  exact hvalue

/-- Rows without a match make no records. -/
theorem assemble_unmatched {layout : Layout} {rows : List Row}
    (h : ∀ row ∈ rows, layout.isMatched row = false) : layout.assemble rows = [] := by
  obtain ⟨table, qualifier, lead, fields, columns, outputs, key, identity, relations, deferred⟩ :=
    layout
  rw [Layout.assemble, Layout.groups, List.filter_eq_nil_iff.mpr fun row hrow => by simp [h row hrow]]
  rfl

/-- Rows of nulls have no match in a table that is joined. -/
theorem isMatched_nulls {layout : Layout} (hbase : layout.isBase = false) {row : Row}
    (hrow : ∀ name ∈ layout.identity, row.lookup name = some .null) :
    layout.isMatched row = false := by
  have hnulls : (row.valuesOf layout.identity).all Value.isNull = true := by
    rw [Row.valuesOf, List.all_map]
    refine List.all_eq_true.mpr ?_
    intro name hname
    rw [Function.comp_apply, hrow name hname]
    rfl
  rw [Layout.isMatched, hbase, hnulls]
  rfl

/-- The rows of a record hold its columns. -/
theorem Layout.lookup_rows {layout : Layout} (hsound : layout.Sound)
    (repetition : Repetition layout.outputNames) {record : Record} {made : Row}
    (hmade : made ∈ repetition.rows (layout.flatten record)) :
    ∀ output ∈ layout.outputs, made.lookup output = (layout.own record).lookup output := by
  obtain ⟨pairs, hpairs, hlookup⟩ :=
    repetition.lookup_of_mem (Layout.names_flatten hsound) hmade
  obtain ⟨table, qualifier, lead, fields, columns, outputs, key, identity, relations, deferred⟩ :=
    layout
  rw [Layout.Sound] at hsound
  rw [Layout.flatten] at hpairs
  obtain ⟨beneath, -, rfl⟩ := List.mem_map.mp hpairs
  intro output houtput
  rw [hlookup output (by rw [Layout.outputNames]; exact List.mem_append_left _ houtput)]
  refine Dict.lookup_append_of_mem ?_ beneath
  exact (names_own ⟨table, qualifier, lead, fields, columns, outputs, key, identity, relations,
    deferred⟩ hsound.1 record).symm ▸ houtput

/-- The rows of records told apart, repeated any number of times, make a group for each of these. -/
theorem Layout.groups_rows {layout : Layout} (hsound : layout.Sound)
    (repetition : Repetition layout.outputNames) {records : List Record}
    (hapart : layout.ToldApart records) :
    layout.groups (repetition.rows (records.flatMap layout.flatten)) =
      records.map fun record => repetition.rows (layout.flatten record) := by
  have hvalues : ∀ record, ∀ made ∈ repetition.rows (layout.flatten record),
      made.valuesOf layout.identity = layout.identityOf record :=
    fun record made hmade =>
      valuesOf_identity hsound.identity_subset (Layout.lookup_rows hsound repetition hmade)
  have hblocks : repetition.rows (records.flatMap layout.flatten) =
      repetition.heads.flatMap fun head => records.flatMap fun record =>
        (layout.flatten record).flatMap fun pairs =>
          repetition.tails.map (repetition.row head pairs) :=
    List.flatMap_congr fun head _ => List.flatMap_assoc
  have hblock : ∀ head ∈ repetition.heads, ∀ record, ∀ made ∈ (layout.flatten record).flatMap
      (fun pairs => repetition.tails.map (repetition.row head pairs)),
        made ∈ repetition.rows (layout.flatten record) :=
    fun head hhead record made hmade => List.mem_flatMap.mpr ⟨head, hhead, hmade⟩
  have hmatched : (repetition.rows (records.flatMap layout.flatten)).filter layout.isMatched =
      repetition.rows (records.flatMap layout.flatten) := by
    refine List.filter_eq_self.mpr ?_
    intro made hmade
    rw [hblocks] at hmade
    obtain ⟨head, hhead, hmem⟩ := List.mem_flatMap.mp hmade
    obtain ⟨record, hrecord, hmem⟩ := List.mem_flatMap.mp hmem
    rw [Layout.isMatched, hvalues record made (hblock head hhead record made hmem),
      Bool.or_eq_true]
    refine (hapart.matched record hrecord).imp_right ?_
    rintro ⟨value, hvalue, hne⟩
    rw [Bool.not_eq_true', List.all_eq_false]
    exact ⟨value, hvalue, by rw [Value.isNull_eq_false.mpr hne]; exact Bool.false_ne_true⟩
  rw [Layout.groups, hmatched, hblocks]
  refine groupsOf_blocks repetition.heads_ne_nil ?_ ?_ hapart.keys
  · intro head _ record _
    obtain ⟨pairs, hpairs⟩ := List.exists_mem_of_ne_nil _ (layout.flatten_ne_nil record)
    obtain ⟨tail, htail⟩ := List.exists_mem_of_ne_nil _ repetition.tails_ne_nil
    exact List.ne_nil_of_mem (List.mem_flatMap.mpr ⟨pairs, hpairs, List.mem_map_of_mem htail⟩)
  · intro head hhead record _ made hmade
    rw [hvalues record made (hblock head hhead record made hmade)]

/-- Every joined relation of a record has an entry. -/
theorem isSome_of_branchesFolded {relations : List (JoinedBranchOf Layout)} {record : Record}
    (h : branchesFolded relations record) :
    ∀ joined ∈ relations, (record.lookup joined.name).isSome := by
  induction relations with
  | nil => exact fun joined hjoined => by cases hjoined
  | cons first rest ih =>
      obtain ⟨name, isToMany, branch, layout⟩ := first
      rw [branchesFolded] at h
      obtain ⟨⟨node, hnode, -⟩, hrest⟩ := h
      intro joined hjoined
      rcases List.mem_cons.mp hjoined with rfl | hmem
      · rw [hnode]
        rfl
      · exact ih hrest joined hmem

/-- Where a relation is empty its rows are nulls, from which no record is made. -/
theorem assemble_nulls {layout : Layout} (hsound : layout.Sound) (hbase : layout.isBase = false)
    (repetition : Repetition layout.outputNames) :
    layout.assemble (repetition.rows (orNulls layout.outputNames [])) = [] := by
  refine assemble_unmatched ?_
  intro made hmade
  obtain ⟨pairs, hpairs, hlookup⟩ :=
    repetition.lookup_of_mem (names_orNulls fun pairs hpairs => by cases hpairs) hmade
  refine isMatched_nulls hbase ?_
  intro name hname
  have hmem := layout.outputs_subset_names (hsound.identity_subset hname)
  rw [hlookup name hmem, List.mem_singleton.mp hpairs]
  exact lookup_nulls hmem

mutual

/-- Folding the rows of records gives these back, however often the rows are repeated. -/
theorem Layout.assemble_rows : ∀ {layout : Layout}, layout.Sound → layout.outputNames.Nodup →
    ∀ {records : List Record}, layout.ToldApart records →
    (∀ record ∈ records, layout.Folded record) → ∀ (repetition : Repetition layout.outputNames),
    layout.assemble (repetition.rows (records.flatMap layout.flatten)) = records
  | ⟨table, qualifier, lead, fields, columns, outputs, key, identity, relations, deferred⟩, hsound,
      hnodup, records, hapart, hfolded, repetition => by
      let layout : Layout :=
        ⟨table, qualifier, lead, fields, columns, outputs, key, identity, relations, deferred⟩
      change Repetition layout.outputNames at repetition
      change layout.assemble (repetition.rows (records.flatMap layout.flatten)) = records
      have hgroups := Layout.groups_rows hsound repetition hapart
      have hholds := fun record => @Layout.lookup_rows layout hsound repetition record
      rw [Layout.Sound] at hsound
      rw [Layout.outputNames] at hnodup
      obtain ⟨hlength, hidentity, hrelationNames, hbranches⟩ := hsound
      obtain ⟨hnodupOwn, hnodupBranches, hdisjoint⟩ := List.nodup_append.mp hnodup
      rw [Layout.assemble, hgroups, List.map_map]
      refine (List.map_congr_left ?_).trans (List.map_id _)
      intro record hrecord
      rw [Function.comp_apply, id]
      have hcolumns := columnValues_own hlength hnodupOwn
        (repetition.rows_ne_nil (layout.flatten_ne_nil record)) fun made => hholds record
      have hfoldedRecord := hfolded record hrecord
      rw [Layout.Folded] at hfoldedRecord
      obtain ⟨hcarries, honly, hfoldedBranches⟩ := hfoldedRecord
      have hbeneath : assembleBranches relations (repetition.rows (layout.flatten record)) =
          entriesOf relations record := by
        have hnames : layout.outputNames = outputs ++ branchOutputNames relations := by
          rw [Layout.outputNames]
        have hflatten : layout.flatten record = [layout.own record].flatMap fun own =>
            (flattenBranches relations record).map (own ++ ·) := by
          rw [Layout.flatten, List.flatMap_singleton]
          rfl
        have hown : ∀ own ∈ [layout.own record], Dict.names own = outputs := by
          intro own hown
          rw [List.mem_singleton.mp hown]
          exact names_own layout hlength record
        rw [hflatten]
        generalize layout.outputNames = names at repetition hnames
        subst hnames
        rw [← repetition.rows_preceded (List.cons_ne_nil _ _) hown
          fun name hold hnew => hdisjoint name hold name hnew rfl]
        exact assembleBranches_rows hbranches hnodupBranches hfoldedBranches _
      rw [hcolumns, hbeneath]
      exact putAll_entriesOf hlength hrelationNames hcarries honly
        (isSome_of_branchesFolded hfoldedBranches)

/-- The relations of a layout are folded one after the other: for the first of them what follows
repeats each row, for the others what precedes them repeats all. -/
theorem assembleBranches_rows : ∀ {relations : List (JoinedBranchOf Layout)},
    branchesSound relations → (branchOutputNames relations).Nodup →
    ∀ {record : Record}, branchesFolded relations record →
    ∀ (repetition : Repetition (branchOutputNames relations)),
    assembleBranches relations (repetition.rows (flattenBranches relations record)) =
      entriesOf relations record
  | [], hsound, hnodup, record, hfolded, repetition => by
      rw [assembleBranches]
      rfl
  | ⟨name, isToMany, branch, layout⟩ :: rest, hsound, hnodup, record, hfolded, repetition => by
      rw [branchesSound] at hsound
      rw [branchesFolded] at hfolded
      have hnames : branchOutputNames (⟨name, isToMany, branch, layout⟩ :: rest) =
          layout.outputNames ++ branchOutputNames rest := by
        rw [branchOutputNames]
      generalize branchOutputNames (⟨name, isToMany, branch, layout⟩ :: rest) = names
        at hnodup repetition hnames
      subst hnames
      obtain ⟨⟨hbase, hlayout⟩, hrest⟩ := hsound
      obtain ⟨⟨node, hnode, hkind, hpage, hapart, hchildren⟩, hothers⟩ := hfolded
      obtain ⟨hnodupFirst, hnodupRest, hdisjoint⟩ := List.nodup_append.mp hnodup
      have hrecords : record.children name = node.records := by
        rw [Record.children, hnode]
        rfl
      rw [assembleBranches, flattenBranches, hrecords]
      have hfirst : layout.assemble (repetition.rows ((orNulls layout.outputNames
          (node.records.flatMap layout.flatten)).flatMap fun pairs =>
            (flattenBranches rest record).map (pairs ++ ·))) = node.records := by
        rw [← repetition.rows_followed (flattenBranches_ne_nil rest record)
          (names_flattenBranches hrest)]
        by_cases hnone : node.records = []
        · rw [hnone]
          exact assemble_nulls hlayout hbase _
        · rw [orNulls_flatten layout hnone]
          exact Layout.assemble_rows hlayout hnodupFirst hapart hchildren _
      have hbeneath : assembleBranches rest (repetition.rows ((orNulls layout.outputNames
          (node.records.flatMap layout.flatten)).flatMap fun pairs =>
            (flattenBranches rest record).map (pairs ++ ·))) = entriesOf rest record := by
        have hparts : ∀ pairs ∈ orNulls layout.outputNames (node.records.flatMap layout.flatten),
            Dict.names pairs = layout.outputNames := by
          refine names_orNulls ?_
          intro pairs hpairs
          obtain ⟨child, -, hchild⟩ := List.mem_flatMap.mp hpairs
          exact Layout.names_flatten hlayout pairs hchild
        rw [← repetition.rows_preceded (orNulls_ne_nil _ _) hparts
          fun name hold hnew => hdisjoint name hold name hnew rfl]
        exact assembleBranches_rows hrest hnodupRest hothers _
      rw [hfirst, hbeneath, hpage, Node.ofRelated_records hkind]
      simp only [entriesOf, List.map_cons, hnode, Option.getD_some]

end

/-- Folding the rows of records that are told apart gives the records back. -/
theorem Layout.assemble_flatten {layout : Layout} (hsound : layout.Sound)
    (hnodup : layout.outputNames.Nodup) {records : List Record} (hapart : layout.ToldApart records)
    (hfolded : ∀ record ∈ records, layout.Folded record) :
    layout.assemble ((records.flatMap layout.flatten).map Dict.ofPairs) = records := by
  rw [← Repetition.rows_once hnodup]
  exact Layout.assemble_rows hsound hnodup hapart hfolded _

end NestedQuery
