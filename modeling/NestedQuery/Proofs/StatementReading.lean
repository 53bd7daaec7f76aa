import NestedQuery.Proofs.ClauseReading

/-!
# Reading a statement off its text

No two statements have the same text and the same parameters in a style with
placeholders, but for windows that have neither count nor offset, which are not
written at all.  The signs of a statement are read from the left.  An expression
begins with a core that is known by its first signs and ends where it says, and
goes on with tests that are written behind it without parentheses; of two
expressions that begin a text one is the other with some more tests behind it.
What may stand behind an expression is never read as a test of it.
-/

namespace NestedQuery

/-! ### Statements that are written alike -/

mutual

/-- The expression without windows that have neither count nor offset. -/
def Expr.trimmed : Expr → Expr
  | .column ref => .column ref
  | .literal value => .literal value
  | .compare left op right => .compare left.trimmed op right.trimmed
  | .connect left op right => .connect left.trimmed op right.trimmed
  | .not inner => .not inner.trimmed
  | .like subject pattern insensitive => .like subject.trimmed pattern insensitive
  | .oneOf subject values negated => .oneOf subject.trimmed values negated
  | .isNull subject negated => .isNull subject.trimmed negated
  | .exists statement => .exists (trimmedSelect statement)

def trimmedSelect : SelectOf Expr → SelectOf Expr
  | ⟨outputs, table, label, joins, filter, groupBy, orderBy, window⟩ =>
    ⟨outputs, table, label, trimmedJoins joins, trimmedFilter filter, groupBy, orderBy,
      trimmedWindow window⟩

def trimmedJoins : List (JoinOf Expr) → List (JoinOf Expr)
  | [] => []
  | ⟨kind, table, label, on⟩ :: rest => ⟨kind, table, label, on.trimmed⟩ :: trimmedJoins rest

def trimmedFilter : Option Expr → Option Expr
  | none => none
  | some condition => some condition.trimmed

end

/-- The statement without windows that have neither count nor offset, its own and those of the
statements in its predicates. -/
def SelectOf.trimmed (statement : Select) : Select :=
  trimmedSelect statement

mutual

/-- Windows that have neither count nor offset are not written. -/
theorem Expr.pieces_trimmed : ∀ expr : Expr, expr.trimmed.pieces = expr.pieces
  | .column _ => by rw [Expr.trimmed]
  | .literal _ => by rw [Expr.trimmed]
  | .compare left _ right => by
      rw [Expr.trimmed, Expr.pieces, Expr.pieces, left.pieces_trimmed, right.pieces_trimmed]
  | .connect left _ right => by
      rw [Expr.trimmed, Expr.pieces, Expr.pieces, left.pieces_trimmed, right.pieces_trimmed]
  | .not inner => by rw [Expr.trimmed, Expr.pieces, Expr.pieces, inner.pieces_trimmed]
  | .like subject _ _ => by rw [Expr.trimmed, Expr.pieces, Expr.pieces, subject.pieces_trimmed]
  | .oneOf subject _ _ => by rw [Expr.trimmed, Expr.pieces, Expr.pieces, subject.pieces_trimmed]
  | .isNull subject _ => by rw [Expr.trimmed, Expr.pieces, Expr.pieces, subject.pieces_trimmed]
  | .exists statement => by
      rw [Expr.trimmed, Expr.pieces, Expr.pieces, selectPieces_trimmed statement]

/-- So a statement is written alike without them. -/
theorem selectPieces_trimmed : ∀ statement : SelectOf Expr,
    selectPieces (trimmedSelect statement) = selectPieces statement
  | ⟨_, _, _, joins, filter, _, _, window⟩ => by
      rw [trimmedSelect, selectPieces, selectPieces, joinPieces_trimmed joins,
        wherePieces_trimmed filter, windowPieces_trimmed window]

/-- Joins are written alike without the windows in their conditions that are not written. -/
theorem joinPieces_trimmed : ∀ joins : List (JoinOf Expr),
    joinPieces (trimmedJoins joins) = joinPieces joins
  | [] => by rw [trimmedJoins]
  | ⟨_, _, _, on⟩ :: rest => by
      rw [trimmedJoins, joinPieces, joinPieces, on.pieces_trimmed, joinPieces_trimmed rest]

/-- So is a predicate. -/
theorem wherePieces_trimmed : ∀ filter : Option Expr,
    wherePieces (trimmedFilter filter) = wherePieces filter
  | none => by rw [trimmedFilter]
  | some condition => by rw [trimmedFilter, wherePieces, wherePieces, condition.pieces_trimmed]

end

/-- The whole statement is written alike without its windows that are not written. -/
theorem SelectOf.pieces_trimmed (statement : Select) :
    statement.trimmed.pieces = statement.pieces :=
  selectPieces_trimmed statement

/-! ### Tests behind an expression -/

/-- A scalar is written as a placeholder, unless it is null. -/
theorem signs_value (value : Value) (rest : List Sign) : signs [.value value] ++ rest =
    (if value.isNull then chars "NULL" else [.slot value]) ++ rest := by
  rw [signs_cons, signs_nil, List.append_nil, Piece.signs]

/-- A scalar is told whatever stands behind it: nulls by their word, the others by their
placeholder. -/
theorem value_read {one other : Value} {rest more : List Sign}
    (h : signs [.value one] ++ rest = signs [.value other] ++ more) : one = other ∧ rest = more := by
  have hnull : ∀ {value : Value}, value.isNull = true → value = .null := by
    intro value hvalue
    cases value <;> first | rfl | cases hvalue
  rw [signs_value, signs_value] at h
  cases hone : one.isNull with
  | true =>
      cases hother : other.isNull with
      | true =>
          rw [hone, hother] at h
          exact ⟨(hnull hone).trans (hnull hother).symm, List.append_cancel_left h⟩
      | false =>
          rw [hone, hother] at h
          cases (List.cons.inj h).1
  | false =>
      cases hother : other.isNull with
      | true =>
          rw [hone, hother] at h
          cases (List.cons.inj h).1
      | false =>
          rw [hone, hother] at h
          obtain ⟨hsign, hends⟩ := List.cons.inj h
          exact ⟨Sign.slot.inj hsign, hends⟩

/-- No scalar begins with a closing parenthesis, so a list with elements is told from the empty
one. -/
theorem value_start (value : Value) (more : List Sign) :
    ¬ Opens [")"] (signs [.value value] ++ more) := by
  rw [signs_value]
  split
  · exact fun hopens => hopens.ne (by decide) more rfl
  · exact not_opens_of_isChar (by decide) rfl more

/-- The kinds of tests that are written behind their subject without parentheses. -/
inductive TestKind where
  | like
  | oneOf (negated : Bool)
  | isNull (negated : Bool)
  deriving DecidableEq

/-- The words that a test begins with. -/
def TestKind.word : TestKind → String
  | .like => " LIKE "
  | .oneOf negated => if negated then " NOT IN (" else " IN ("
  | .isNull negated => if negated then " IS NOT NULL" else " IS NULL"

/-- The words that tests begin with. -/
def testWords : List String :=
  [" LIKE ", " NOT IN (", " IN (", " IS NOT NULL", " IS NULL"]

/-- Every kind of test begins with one of the words of tests. -/
theorem TestKind.word_mem (kind : TestKind) : kind.word ∈ testWords := by
  rcases kind with _ | ⟨_ | _⟩ | ⟨_ | _⟩ <;> decide

/-- Tests of two kinds begin with words of which neither begins with the other. -/
theorem TestKind.apart (one other : TestKind) (h : one ≠ other) : WordsApart one.word other.word := by
  rcases one with _ | ⟨_ | _⟩ | ⟨_ | _⟩ <;> rcases other with _ | ⟨_ | _⟩ | ⟨_ | _⟩ <;>
    first | exact absurd rfl h | decide

/-- A test that is written behind its subject without parentheses. -/
inductive Test where
  | like (pattern : String)
  | oneOf (values : List Value) (negated : Bool)
  | isNull (negated : Bool)

namespace Test

def kind : Test → TestKind
  | .like _ => .like
  | .oneOf _ negated => .oneOf negated
  | .isNull negated => .isNull negated

/-- What stands behind the words of the test. -/
def operand : Test → List Piece
  | .like pattern => [.value (.text pattern)]
  | .oneOf values _ => commaSeparated (values.map fun value => [.value value]) ++ [.fixed ")"]
  | .isNull _ => []

def signs (test : Test) : List Sign :=
  chars test.kind.word ++ NestedQuery.signs test.operand

/-- Where a test ends does not depend on what stands behind it. -/
theorem read {one other : Test} {rest more : List Sign}
    (h : one.signs ++ rest = other.signs ++ more) : one = other ∧ rest = more := by
  rw [signs, signs, List.append_assoc, List.append_assoc] at h
  obtain ⟨hkind, h⟩ := word_read TestKind.word TestKind.apart h
  cases one with
  | like pattern =>
      cases other with
      | like found =>
          obtain ⟨hvalue, hends⟩ := value_read h
          rw [Value.text.inj hvalue]
          exact ⟨rfl, hends⟩
      | _ => cases hkind
  | oneOf values negated =>
      cases other with
      | oneOf found known =>
          cases hkind
          rw [operand, operand, signs_append, signs_append, List.append_assoc, List.append_assoc] at h
          have hend : ∀ rest, Opens [")"] (NestedQuery.signs [.fixed ")"] ++ rest) := by
            intro rest
            rw [signs_cons, List.append_assoc]
            exact opens_chars List.mem_cons_self _
          obtain ⟨rfl, hends⟩ := commaSeparated_read (by decide) (.of_any value_read)
            value_start (hend _) (hend _) h
          exact ⟨rfl, List.append_cancel_left hends⟩
      | _ => cases hkind
  | isNull negated =>
      cases other with
      | isNull known =>
          cases hkind
          exact ⟨rfl, h⟩
      | _ => cases hkind

end Test

/-- The expression with a test behind it. -/
def Expr.tested (subject : Expr) : Test → Expr
  | .like pattern => .like subject pattern false
  | .oneOf values negated => .oneOf subject values negated
  | .isNull negated => .isNull subject negated

/-- The expression with tests behind it, the first one next to it. -/
def Expr.underTests (subject : Expr) (tests : List Test) : Expr :=
  tests.foldl Expr.tested subject

/-- A test is written behind its subject. -/
theorem signs_tested (subject : Expr) (test : Test) :
    signs (subject.tested test).pieces = signs subject.pieces ++ test.signs := by
  cases test with
  | like pattern =>
      rw [Expr.tested, Expr.pieces, if_neg (by decide), signs_append]
      rfl
  | oneOf values negated =>
      rw [Expr.tested, Expr.pieces, List.append_assoc, signs_append]
      rfl
  | isNull negated =>
      rw [Expr.tested, Expr.pieces, signs_append]
      rfl

/-- Several tests are written behind their subject, one after the other. -/
theorem signs_underTests (subject : Expr) (tests : List Test) :
    signs (subject.underTests tests).pieces = signs subject.pieces ++ tests.flatMap Test.signs := by
  induction tests generalizing subject with
  | nil => exact (List.append_nil _).symm
  | cons test tests ih =>
      rw [Expr.underTests, List.foldl_cons, ← Expr.underTests, ih, signs_tested,
        List.append_assoc, List.flatMap_cons]

/-- Windows are left out of the subject of a test as of any other expression. -/
theorem trimmed_tested (subject : Expr) (test : Test) :
    (subject.tested test).trimmed = subject.trimmed.tested test := by
  cases test <;> rw [Expr.tested, Expr.trimmed] <;> rfl

/-- So they are of the subject of several tests. -/
theorem trimmed_underTests (subject : Expr) (tests : List Test) :
    (subject.underTests tests).trimmed = subject.trimmed.underTests tests := by
  induction tests generalizing subject with
  | nil => rfl
  | cons test tests ih =>
      rw [Expr.underTests, List.foldl_cons, ← Expr.underTests, ih, trimmed_tested]
      rfl

/-- What an expression that is no test begins with. -/
inductive Start where
  | column
  | value
  | pair
  | not
  | like
  | exists
  deriving DecidableEq

/-- What the expression begins with, unless it is a test of another. -/
def Expr.start? : Expr → Option Start
  | .column _ => some .column
  | .literal _ => some .value
  | .compare _ _ _ | .connect _ _ _ => some .pair
  | .not _ => some .not
  | .like _ _ true => some .like
  | .exists _ => some .exists
  | .like _ _ false | .oneOf _ _ _ | .isNull _ _ => none

/-- The expressions that begin so. -/
def Start.Begins : Start → Expr → Prop
  | .column, expr => ∃ ref, expr = .column ref
  | .value, expr => ∃ value, expr = .literal value
  | .pair, expr =>
    (∃ left op right, expr = .compare left op right) ∨ ∃ left op right, expr = .connect left op right
  | .not, expr => ∃ inner, expr = .not inner
  | .like, expr => ∃ subject pattern, expr = .like subject pattern true
  | .exists, expr => ∃ statement, expr = .exists statement

/-- An expression that is no test begins as its form has it. -/
theorem Expr.begins_of_start? {expr : Expr} {start : Start} (h : some start = expr.start?) :
    start.Begins expr := by
  cases expr with
  | column ref => cases h; exact ⟨ref, rfl⟩
  | literal value => cases h; exact ⟨value, rfl⟩
  | compare left op right => cases h; exact .inl ⟨left, op, right, rfl⟩
  | connect left op right => cases h; exact .inr ⟨left, op, right, rfl⟩
  | not inner => cases h; exact ⟨inner, rfl⟩
  | like subject pattern insensitive =>
      cases insensitive with
      | true => cases h; exact ⟨subject, pattern, rfl⟩
      | false => cases h
  | oneOf subject values negated => cases h
  | isNull subject negated => cases h
  | «exists» statement => cases h; exact ⟨statement, rfl⟩

/-- The expression is one that is no test, with tests behind it. -/
def Expr.HasCore (expr : Expr) : Prop :=
  ∃ core tests, (Expr.start? core).isSome = true ∧ expr = core.underTests tests

/-- One test more leaves the core as it is. -/
theorem Expr.HasCore.tested {subject : Expr} (h : subject.HasCore) (test : Test) :
    (subject.tested test).HasCore := by
  obtain ⟨core, tests, hstart, rfl⟩ := h
  refine ⟨core, tests ++ [test], hstart, ?_⟩
  rw [Expr.underTests, Expr.underTests, List.foldl_append]
  rfl

/-- Every expression is a core with tests behind it. -/
theorem Expr.hasCore : ∀ expr : Expr, expr.HasCore
  | .like subject pattern false => subject.hasCore.tested (.like pattern)
  | .oneOf subject values negated => subject.hasCore.tested (.oneOf values negated)
  | .isNull subject negated => subject.hasCore.tested (.isNull negated)
  | .like subject pattern true => ⟨.like subject pattern true, [], rfl, rfl⟩
  | .column ref => ⟨.column ref, [], rfl, rfl⟩
  | .literal value => ⟨.literal value, [], rfl, rfl⟩
  | .compare left op right => ⟨.compare left op right, [], rfl, rfl⟩
  | .connect left op right => ⟨.connect left op right, [], rfl, rfl⟩
  | .not inner => ⟨.not inner, [], rfl, rfl⟩
  | .exists statement => ⟨.exists statement, [], rfl, rfl⟩

/-- No test stands at the beginning. -/
def Untested (rest : List Sign) : Prop :=
  ∀ (test : Test) (more : List Sign), rest ≠ test.signs ++ more

/-- What begins with a word that is apart from those of all tests begins with no test. -/
theorem Opens.untested {words : List String} {rest : List Sign} (h : Opens words rest)
    (hwords : ∀ test ∈ testWords, ∀ word ∈ words, WordsApart word test) : Untested rest := by
  intro test more
  rw [Test.signs, List.append_assoc]
  refine h.ne ⟨?_, hwords _ test.kind.word_mem⟩ _
  have hsome : ∀ word ∈ testWords, word ≠ "" := by decide
  exact hsome _ test.kind.word_mem

/-! ### The first signs of an expression -/

/-- What two expressions with a word between them, in parentheses, are written as. -/
def pairSigns (left : Expr) (word : String) (right : Expr) (rest : List Sign) : List Sign :=
  chars "(" ++ (signs left.pieces ++ (chars (" " ++ word ++ " ") ++
    (signs right.pieces ++ (chars ")" ++ rest))))

/-- A comparison is written as a pair, with its operator as the word between. -/
theorem signs_compare (left right : Expr) (op : Comparison) (rest : List Sign) :
    signs (Expr.compare left op right).pieces ++ rest = pairSigns left op.word right rest := by
  simp only [Expr.pieces, List.cons_append, List.append_assoc, signs_cons, signs_append, Piece.signs,
    signs_nil, List.append_nil, pairSigns]

/-- So is a connection. -/
theorem signs_connect (left right : Expr) (op : Connective) (rest : List Sign) :
    signs (Expr.connect left op right).pieces ++ rest = pairSigns left op.word right rest := by
  simp only [Expr.pieces, List.cons_append, List.append_assoc, signs_cons, signs_append, Piece.signs,
    signs_nil, List.append_nil, pairSigns]

/-- A negation is written in front of its inner expression in parentheses. -/
theorem signs_not (inner : Expr) (rest : List Sign) : signs (Expr.not inner).pieces ++ rest =
    chars "NOT (" ++ (signs inner.pieces ++ (chars ")" ++ rest)) := by
  simp only [Expr.pieces, List.cons_append, List.append_assoc, signs_cons, signs_append, Piece.signs,
    signs_nil, List.append_nil]

/-- A match without regard to case is written with both sides in lower case. -/
theorem signs_like (subject : Expr) (pattern : String) (rest : List Sign) :
    signs (Expr.like subject pattern true).pieces ++ rest =
      chars "LOWER(" ++ (signs subject.pieces ++ (chars ") LIKE LOWER(" ++
        .slot (.text pattern) :: (chars ")" ++ rest))) := by
  simp only [Expr.pieces, List.cons_append, List.append_assoc, signs_cons, signs_append, Piece.signs,
    signs_nil, List.append_nil, if_true, Value.isNull, Bool.false_eq_true, if_false, List.nil_append]

/-- An existence test is written in front of its statement in parentheses. -/
theorem signs_exists (statement : SelectOf Expr) (rest : List Sign) :
    signs (Expr.exists statement).pieces ++ rest =
      chars "EXISTS (" ++ (signs (selectPieces statement) ++ (chars ")" ++ rest)) := by
  simp only [Expr.pieces, List.cons_append, List.append_assoc, signs_cons, signs_append, Piece.signs,
    signs_nil, List.append_nil]

/-- What the first signs of an expression that is no test say of it. -/
def startOf : List Sign → Option Start
  | .name _ :: _ => some .column
  | .slot _ :: _ => some .value
  | .char 'N' :: .char 'U' :: _ => some .value
  | .char 'N' :: .char 'O' :: _ => some .not
  | .char '(' :: _ => some .pair
  | .char 'L' :: _ => some .like
  | .char 'E' :: _ => some .exists
  | _ => none

/-- The first signs of an expression that is no test say how it begins. -/
theorem startOf_signs : ∀ {expr : Expr}, expr.start?.isSome = true → ∀ rest,
    startOf (signs expr.pieces ++ rest) = expr.start?
  | .column ref, _, rest => by rw [Expr.pieces, signs_column]; rfl
  | .literal value, _, rest => by rw [Expr.pieces, signs_value]; split <;> rfl
  | .compare left op right, _, rest => by rw [signs_compare]; rfl
  | .connect left op right, _, rest => by rw [signs_connect]; rfl
  | .not inner, _, rest => by rw [signs_not]; rfl
  | .like subject pattern true, _, rest => by rw [signs_like]; rfl
  | .exists statement, _, rest => by rw [signs_exists]; rfl

/-! ### Expressions that begin a text -/

/-- The other expression is the first with tests behind it that stand in what follows the first. -/
def Continues (one : Expr) (rest : List Sign) (other : Expr) (more : List Sign) : Prop :=
  ∃ tests, other.trimmed = one.trimmed.underTests tests ∧ rest = tests.flatMap Test.signs ++ more

/-- One of the two expressions goes on with tests where the other ends. -/
def Overlap (one : Expr) (rest : List Sign) (other : Expr) (more : List Sign) : Prop :=
  Continues one rest other more ∨ Continues other more one rest

/-- Where no test follows an expression, another that goes on from it is the same one. -/
theorem Continues.same {one other : Expr} {rest more : List Sign}
    (h : Continues one rest other more) (hrest : Untested rest) :
    one.trimmed = other.trimmed ∧ rest = more := by
  obtain ⟨tests, hother, hends⟩ := h
  cases tests with
  | nil => exact ⟨hother.symm, hends⟩
  | cons test tests =>
      rw [List.flatMap_cons, List.append_assoc] at hends
      exact absurd hends (hrest test _)

/-- Where no test follows the two expressions are one. -/
theorem Overlap.same {one other : Expr} {rest more : List Sign} (h : Overlap one rest other more)
    (hrest : Untested rest) (hmore : Untested more) :
    one.trimmed = other.trimmed ∧ rest = more := by
  rcases h with hother | hone
  · exact hother.same hrest
  · obtain ⟨hsame, hends⟩ := hone.same hmore
    exact ⟨hsame.symm, hends.symm⟩

/-- One test more behind the first expression is the next test of the other or goes on from it.  If
the other ends with the subject, it is the first expression that goes on now. -/
theorem Overlap.tested {subject other : Expr} {test : Test} {rest more : List Sign}
    (h : Overlap subject (test.signs ++ rest) other more) :
    Overlap (subject.tested test) rest other more := by
  rcases h with ⟨tests, hother, hends⟩ | ⟨tests, hsubject, hends⟩
  · cases tests with
    | nil =>
        exact .inr ⟨[test], by rw [trimmed_tested, hother]; rfl, by simpa using hends.symm⟩
    | cons next tests =>
        rw [List.flatMap_cons, List.append_assoc] at hends
        obtain ⟨rfl, hothers⟩ := Test.read hends
        exact .inl ⟨tests, by rw [hother, trimmed_tested]; rfl, hothers⟩
  · refine .inr ⟨tests ++ [test], ?_, ?_⟩
    · rw [trimmed_tested, hsubject, Expr.underTests, Expr.underTests, List.foldl_append]
      rfl
    · rw [hends, List.flatMap_append, List.append_assoc, List.flatMap_singleton]

/-- An expression that is no test overlaps with what has the same core. -/
theorem overlap_of_core {one other : Expr} {rest more : List Sign}
    (hstart : one.start?.isSome = true)
    (hread : ∀ {core : Expr} {more : List Sign}, one.start? = core.start? →
      signs one.pieces ++ rest = signs core.pieces ++ more →
      one.trimmed = core.trimmed ∧ rest = more)
    (h : signs one.pieces ++ rest = signs other.pieces ++ more) : Overlap one rest other more := by
  obtain ⟨core, tests, hcore, rfl⟩ := other.hasCore
  rw [signs_underTests, List.append_assoc] at h
  have hsame := congrArg startOf h
  rw [startOf_signs hstart, startOf_signs hcore] at hsame
  obtain ⟨hcore, hends⟩ := hread hsame h
  exact .inl ⟨tests, by rw [trimmed_underTests, hcore], hends⟩

/-- Behind a closing parenthesis no test begins. -/
theorem untested_end (rest : List Sign) : Untested (chars ")" ++ rest) :=
  (@opens_chars [")"] _ List.mem_cons_self rest).untested (by decide)

/-- The words that stand between two expressions. -/
def pairWords : List String :=
  ["=", "<>", "<", "<=", ">", ">=", "AND", "OR"]

/-- Neither does one with the word between two expressions. -/
theorem untested_pairWord {word : String} (hword : word ∈ pairWords) (rest : List Sign) :
    Untested (chars (" " ++ word ++ " ") ++ rest) := by
  have hmem : " " ++ word ++ " " ∈ pairWords.map (" " ++ · ++ " ") := List.mem_map_of_mem hword
  exact (opens_chars hmem rest).untested (by decide)

/-- Two expressions with a word between them are told from their parentheses and the word. -/
theorem pair_read {left right first second : Expr} {word found : String} {rest more : List Sign}
    (hleft : ∀ {rest more : List Sign}, signs left.pieces ++ rest = signs first.pieces ++ more →
      Overlap left rest first more)
    (hright : ∀ {rest more : List Sign}, signs right.pieces ++ rest = signs second.pieces ++ more →
      Overlap right rest second more)
    (hword : word ∈ pairWords) (hfound : found ∈ pairWords)
    (h : pairSigns left word right rest = pairSigns first found second more) :
    left.trimmed = first.trimmed ∧ word = found ∧ right.trimmed = second.trimmed ∧ rest = more := by
  obtain ⟨hfirst, h⟩ := (hleft (List.append_cancel_left h)).same (untested_pairWord hword _)
    (untested_pairWord hfound _)
  have hsame : word = found := by
    have hapart : ∀ one ∈ pairWords, ∀ other ∈ pairWords, one ≠ other →
        WordsApart (" " ++ one ++ " ") (" " ++ other ++ " ") := by decide
    by_contra hne
    exact (hapart word hword found hfound hne).chars_ne _ _ h
  rw [hsame] at h
  obtain ⟨hsecond, hends⟩ := (hright (List.append_cancel_left h)).same (untested_end _)
    (untested_end _)
  exact ⟨hfirst, hsame, hsecond, List.append_cancel_left hends⟩

/-- The words of comparisons are such words. -/
theorem Comparison.word_mem (op : Comparison) : op.word ∈ pairWords := by
  cases op <;> decide

/-- So are those of connectives. -/
theorem Connective.word_mem (op : Connective) : op.word ∈ pairWords := by
  cases op <;> decide

/-- A comparison is told by its word. -/
theorem Comparison.word_injective {one other : Comparison} (h : one.word = other.word) :
    one = other := by
  revert h
  cases one <;> cases other <;> decide

/-- So is a connective. -/
theorem Connective.word_injective {one other : Connective} (h : one.word = other.word) :
    one = other := by
  revert h
  cases one <;> cases other <;> decide

/-- No comparison has the word of a connective. -/
theorem Comparison.word_ne (one : Comparison) (other : Connective) : one.word ≠ other.word := by
  cases one <;> cases other <;> decide

/-! ### Statements -/

/-- What may stand behind the joins of a statement. -/
def joinEnds : List String :=
  " WHERE " :: filterEnds

/-- The words that joins begin with. -/
def joinWords : List String :=
  [" INNER JOIN ", " LEFT JOIN ", " RIGHT JOIN ", " FULL JOIN "]

/-- What may stand behind the first table of a statement. -/
def tableEnds : List String :=
  joinWords ++ joinEnds

theorem JoinKind.word_mem (kind : JoinKind) : " " ++ kind.word ++ " JOIN " ∈ joinWords := by
  cases kind <;> decide

/-- Joins of two kinds begin with words of which neither begins with the other. -/
theorem JoinKind.apart (one other : JoinKind) (h : one ≠ other) :
    WordsApart (" " ++ one.word ++ " JOIN ") (" " ++ other.word ++ " JOIN ") := by
  revert h
  cases one <;> cases other <;> decide

/-- The word of a join is apart from all that may stand behind the joins. -/
theorem joinWord_apart (kind : JoinKind) : " " ++ kind.word ++ " JOIN " ≠ "" ∧
    ∀ word ∈ joinEnds, WordsApart word (" " ++ kind.word ++ " JOIN ") := by
  cases kind <;> decide

/-- The first join is written as its kind, its table, its label and its condition, and the others
follow. -/
theorem signs_join (join : JoinOf Expr) (joins : List (JoinOf Expr)) (rest : List Sign) :
    signs (joinPieces (join :: joins)) ++ rest =
      chars (" " ++ join.kind.word ++ " JOIN ") ++ .name join.table :: (chars " AS " ++
        .name join.label :: (chars " ON " ++ (signs join.on.pieces ++
          (signs (joinPieces joins) ++ rest)))) := by
  simp only [joinPieces, List.cons_append, List.append_assoc, signs_cons, signs_append,
    Piece.signs, List.nil_append]

/-- Behind the first table stands a join, or what may stand behind the joins. -/
theorem opens_joins {joins : List (JoinOf Expr)} {rest : List Sign} (h : Opens joinEnds rest) :
    Opens tableEnds (signs (joinPieces joins) ++ rest) := by
  cases joins with
  | nil =>
      rw [joinPieces]
      exact h.mono (List.subset_append_right _ _)
  | cons join joins =>
      rw [signs_join]
      exact opens_chars (List.mem_append_left _ join.kind.word_mem) _

/-- Behind the joins stands a predicate, or what may stand behind it. -/
theorem opens_filter {filter : Option Expr} {rest : List Sign} (h : Opens filterEnds rest) :
    Opens joinEnds (signs (wherePieces filter) ++ rest) := by
  cases filter with
  | none =>
      rw [wherePieces]
      exact h.mono (List.subset_cons_self _ _)
  | some condition =>
      rw [wherePieces, signs_cons, List.append_assoc]
      exact opens_chars List.mem_cons_self _

/-- A statement is written clause by clause. -/
theorem signs_select (statement : SelectOf Expr) (rest : List Sign) :
    signs (selectPieces statement) ++ rest =
      chars "SELECT " ++ (signs (outputPieces statement.outputs) ++ (chars " FROM " ++
        .name statement.table :: (signs (labelPieces statement.label) ++
          (signs (joinPieces statement.joins) ++ (signs (wherePieces statement.filter) ++
            (signs (groupPieces statement.groupBy) ++ (signs (orderPieces statement.orderBy) ++
              (signs (windowPieces statement.window) ++ rest)))))))) := by
  obtain ⟨outputs, table, label, joins, filter, groupBy, orderBy, window⟩ := statement
  simp only [selectPieces, List.cons_append, List.append_assoc, signs_cons, signs_append,
    Piece.signs, List.nil_append]

mutual

/-- Of two expressions that begin a text one goes on with tests where the other ends.  The recursion
is on the first expression and statement only.  A test is taken off the end of the first expression;
one that is no test is compared with the core of the other, which may go on. -/
theorem Expr.read : ∀ (one : Expr) {other : Expr} {rest more : List Sign},
    signs one.pieces ++ rest = signs other.pieces ++ more → Overlap one rest other more
  | .like subject pattern false, other, rest, more, h => by
      rw [← Expr.tested, signs_tested, List.append_assoc] at h
      exact (subject.read h).tested
  | .oneOf subject values negated, other, rest, more, h => by
      rw [← Expr.tested, signs_tested, List.append_assoc] at h
      exact (subject.read h).tested
  | .isNull subject negated, other, rest, more, h => by
      rw [← Expr.tested, signs_tested, List.append_assoc] at h
      exact (subject.read h).tested
  | .column ref, other, rest, more, h => by
      refine overlap_of_core rfl (fun hstart hcore => ?_) h
      obtain ⟨found, rfl⟩ := Expr.begins_of_start? hstart
      rw [Expr.pieces, Expr.pieces] at hcore
      obtain ⟨rfl, hends⟩ := ColumnRef.read hcore
      exact ⟨rfl, hends⟩
  | .literal value, other, rest, more, h => by
      refine overlap_of_core rfl (fun hstart hcore => ?_) h
      obtain ⟨found, rfl⟩ := Expr.begins_of_start? hstart
      rw [Expr.pieces, Expr.pieces] at hcore
      obtain ⟨rfl, hends⟩ := value_read hcore
      exact ⟨rfl, hends⟩
  | .compare left op right, other, rest, more, h => by
      refine overlap_of_core rfl (fun hstart hcore => ?_) h
      obtain ⟨first, found, second, rfl⟩ | ⟨first, found, second, rfl⟩ :=
        Expr.begins_of_start? hstart
      · rw [signs_compare, signs_compare] at hcore
        obtain ⟨hfirst, hop, hsecond, hends⟩ := pair_read left.read right.read op.word_mem
          found.word_mem hcore
        exact ⟨by rw [Expr.trimmed, Expr.trimmed, hfirst, Comparison.word_injective hop, hsecond],
          hends⟩
      · rw [signs_compare, signs_connect] at hcore
        obtain ⟨-, hop, -⟩ := pair_read left.read right.read op.word_mem found.word_mem hcore
        exact absurd hop (op.word_ne found)
  | .connect left op right, other, rest, more, h => by
      refine overlap_of_core rfl (fun hstart hcore => ?_) h
      obtain ⟨first, found, second, rfl⟩ | ⟨first, found, second, rfl⟩ :=
        Expr.begins_of_start? hstart
      · rw [signs_connect, signs_compare] at hcore
        obtain ⟨-, hop, -⟩ := pair_read left.read right.read op.word_mem found.word_mem hcore
        exact absurd hop.symm (found.word_ne op)
      · rw [signs_connect, signs_connect] at hcore
        obtain ⟨hfirst, hop, hsecond, hends⟩ := pair_read left.read right.read op.word_mem
          found.word_mem hcore
        exact ⟨by rw [Expr.trimmed, Expr.trimmed, hfirst, Connective.word_injective hop, hsecond],
          hends⟩
  | .not inner, other, rest, more, h => by
      refine overlap_of_core rfl (fun hstart hcore => ?_) h
      obtain ⟨body, rfl⟩ := Expr.begins_of_start? hstart
      rw [signs_not, signs_not] at hcore
      obtain ⟨hbody, hends⟩ := (inner.read (List.append_cancel_left hcore)).same
        (untested_end _) (untested_end _)
      exact ⟨by rw [Expr.trimmed, Expr.trimmed, hbody], List.append_cancel_left hends⟩
  | .like subject pattern true, other, rest, more, h => by
      refine overlap_of_core rfl (fun hstart hcore => ?_) h
      obtain ⟨body, found, rfl⟩ := Expr.begins_of_start? hstart
      have hend : ∀ rest, Untested (chars ") LIKE LOWER(" ++ rest) := fun rest =>
        (opens_chars (List.mem_singleton_self _) rest).untested (by decide)
      rw [signs_like, signs_like] at hcore
      obtain ⟨hbody, hends⟩ := (subject.read (List.append_cancel_left hcore)).same
        (hend _) (hend _)
      obtain ⟨hpattern, hends⟩ := List.cons.inj (List.append_cancel_left hends)
      rw [Sign.slot.injEq, Value.text.injEq] at hpattern
      exact ⟨by rw [Expr.trimmed, Expr.trimmed, hbody, hpattern], List.append_cancel_left hends⟩
  | .exists statement, other, rest, more, h => by
      refine overlap_of_core rfl (fun hstart hcore => ?_) h
      obtain ⟨found, rfl⟩ := Expr.begins_of_start? hstart
      have hend : ∀ rest, Opens statementEnds (chars ")" ++ rest) :=
        opens_chars List.mem_cons_self
      rw [signs_exists, signs_exists] at hcore
      obtain ⟨hstatement, hends⟩ := select_read statement (hend _) (hend _)
        (List.append_cancel_left hcore)
      exact ⟨by rw [Expr.trimmed, Expr.trimmed, hstatement], List.append_cancel_left hends⟩

/-- Two statements that begin a text, each before what may stand behind a statement, are the same up
to windows that are not written. -/
theorem select_read : ∀ (one : SelectOf Expr) {other : SelectOf Expr} {rest more : List Sign},
    Opens statementEnds rest → Opens statementEnds more →
    signs (selectPieces one) ++ rest = signs (selectPieces other) ++ more →
    trimmedSelect one = trimmedSelect other ∧ rest = more
  | ⟨outputs, table, label, joins, filter, groupBy, orderBy, window⟩, other, rest, more, hrest,
      hmore, h => by
      have hfrom : ∀ rest, Opens [" FROM "] (chars " FROM " ++ rest) :=
        opens_chars List.mem_cons_self
      rw [signs_select, signs_select] at h
      obtain ⟨houtputs, h⟩ := outputs_read (hfrom _) (hfrom _) (List.append_cancel_left h)
      obtain ⟨htable, h⟩ := name_read (List.append_cancel_left h)
      obtain ⟨hlabel, h⟩ := label_read (by decide)
        (opens_joins (opens_filter (opens_groups (opens_orders (opens_window hrest)))))
        (opens_joins (opens_filter (opens_groups (opens_orders (opens_window hmore))))) h
      obtain ⟨hjoins, h⟩ := joins_read joins
        (opens_filter (opens_groups (opens_orders (opens_window hrest))))
        (opens_filter (opens_groups (opens_orders (opens_window hmore)))) h
      obtain ⟨hfilter, h⟩ := filter_read filter
        (opens_groups (opens_orders (opens_window hrest)))
        (opens_groups (opens_orders (opens_window hmore))) h
      obtain ⟨hgroups, h⟩ := groups_read (opens_orders (opens_window hrest))
        (opens_orders (opens_window hmore)) h
      obtain ⟨horders, h⟩ := orders_read (opens_window hrest) (opens_window hmore) h
      obtain ⟨hwindow, hends⟩ := window_read hrest hmore h
      refine ⟨?_, hends⟩
      obtain ⟨outputs', table', label', joins', filter', groupBy', orderBy', window'⟩ := other
      dsimp only at houtputs htable hlabel hjoins hfilter hgroups horders hwindow
      rw [trimmedSelect, trimmedSelect, houtputs, htable, hlabel, hjoins, hfilter, hgroups,
        horders, hwindow]

/-- So are the joins that two texts go on with. -/
theorem joins_read : ∀ (one : List (JoinOf Expr)) {other : List (JoinOf Expr)}
    {rest more : List Sign}, Opens joinEnds rest → Opens joinEnds more →
    signs (joinPieces one) ++ rest = signs (joinPieces other) ++ more →
    trimmedJoins one = trimmedJoins other ∧ rest = more
  | [], [], rest, more, _, _, h => ⟨rfl, h⟩
  | [], join :: others, rest, more, hrest, _, h => by
      rw [signs_join] at h
      exact absurd h (hrest.ne (joinWord_apart join.kind) _)
  | join :: joins, [], rest, more, _, hmore, h => by
      rw [signs_join] at h
      exact absurd h.symm (hmore.ne (joinWord_apart join.kind) _)
  | ⟨kind, table, label, on⟩ :: joins, ⟨found, name, known, condition⟩ :: others, rest, more,
      hrest, hmore, h => by
      rw [signs_join, signs_join] at h
      obtain ⟨hkind, h⟩ := word_read _ JoinKind.apart h
      obtain ⟨htable, h⟩ := name_read h
      obtain ⟨hlabel, h⟩ := name_read (List.append_cancel_left h)
      obtain ⟨hon, h⟩ := (on.read (List.append_cancel_left h)).same
        ((opens_joins hrest).untested (by decide)) ((opens_joins hmore).untested (by decide))
      obtain ⟨hjoins, hends⟩ := joins_read joins hrest hmore h
      refine ⟨?_, hends⟩
      dsimp only at hkind htable hlabel hon
      rw [trimmedJoins, trimmedJoins, hkind, htable, hlabel, hon, hjoins]

/-- So are their predicates. -/
theorem filter_read : ∀ (one : Option Expr) {other : Option Expr} {rest more : List Sign},
    Opens filterEnds rest → Opens filterEnds more →
    signs (wherePieces one) ++ rest = signs (wherePieces other) ++ more →
    trimmedFilter one = trimmedFilter other ∧ rest = more
  | none, none, rest, more, _, _, h => ⟨rfl, h⟩
  | none, some condition, rest, more, hrest, _, h => by
      rw [wherePieces, wherePieces, signs_cons, List.append_assoc] at h
      exact absurd h (hrest.ne (by decide) _)
  | some condition, none, rest, more, _, hmore, h => by
      rw [wherePieces, wherePieces, signs_cons, List.append_assoc] at h
      exact absurd h.symm (hmore.ne (by decide) _)
  | some condition, some found, rest, more, hrest, hmore, h => by
      rw [wherePieces, wherePieces, signs_cons, signs_cons, List.append_assoc,
        List.append_assoc] at h
      obtain ⟨hcondition, hends⟩ := (condition.read (List.append_cancel_left h)).same
        (hrest.untested (by decide)) (hmore.untested (by decide))
      exact ⟨by rw [trimmedFilter, trimmedFilter, hcondition], hends⟩

end

/-- The text of a statement in a style with placeholders, with the parameters beside it, tells the
statement, but for windows that have neither count nor offset. -/
theorem text_tells_statement {style : Style} (hstyle : style ≠ .inline) {one other : Select} :
    one.textIn style = other.textIn style ∧ one.parametersIn style = other.parametersIn style ↔
      one.trimmed = other.trimmed := by
  constructor
  · rintro ⟨htext, hparameters⟩
    have hsigns := signs_of_textIn hstyle htext hparameters
    refine (@select_read one _ [] [] (.inl rfl) (.inl rfl) ?_).1
    rw [List.append_nil, List.append_nil]
    exact hsigns
  · intro h
    have hpieces : one.pieces = other.pieces := by
      rw [← SelectOf.pieces_trimmed, h, SelectOf.pieces_trimmed]
    rw [SelectOf.textIn, SelectOf.textIn, SelectOf.parametersIn, SelectOf.parametersIn, hpieces]
    exact ⟨rfl, rfl⟩

/-- Quotes in the name of a table do not make it read as a name with a label. -/
theorem quotes_told_from_label :
    Style.dollar ≠ .inline ∧
      ¬ ((⟨[], "a\" AS \"b", none, [], none, none, none, none⟩ : Select).textIn .dollar =
          (⟨[], "a", some "b", [], none, none, none, none⟩ : Select).textIn .dollar ∧
        (⟨[], "a\" AS \"b", none, [], none, none, none, none⟩ : Select).parametersIn .dollar =
          (⟨[], "a", some "b", [], none, none, none, none⟩ : Select).parametersIn .dollar) := by
  refine ⟨by decide, fun h => ?_⟩
  have htable := congrArg SelectOf.table ((text_tells_statement (by decide)).mp h)
  exact absurd htable (by decide)

end NestedQuery
