import NestedQuery.Statement.Like
import Mathlib.Data.List.Infix
import Mathlib.Data.List.Forall2

/-!
# Patterns of texts

A pattern stands for the texts that can be split as its signs ask.  Matching
keeps what may remain of a text after each token, the longest first, and so
finds every split at once: what may remain after some tokens is what follows a
beginning of the text that the tokens stand for.  The pattern made of a text
stands for that text alone, with anything before or after it as allowed, since
escaping the text gives one token for each of its characters.
-/

namespace NestedQuery.Like

/-! ### What tokens stand for -/

/-- A token stands for parts of a text. -/
inductive Token.StandsFor : Token → List Char → Prop
  | anyRun (run : List Char) : StandsFor .anyRun run
  | anyOne (c : Char) : StandsFor .anyOne [c]
  | exactly (c : Char) : StandsFor (.exactly c) [c]

/-- Tokens spell a text that can be split into parts for which they stand in turn. -/
def Spells (tokens : List Token) (text : List Char) : Prop :=
  ∃ parts, List.Forall₂ Token.StandsFor tokens parts ∧ parts.flatten = text

/-- No tokens spell the empty text. -/
theorem spells_nil {text : List Char} : Spells [] text ↔ text = [] := by
  simp [Spells, eq_comm]

/-- The first token stands for a beginning of the text, the others spell the rest. -/
theorem spells_cons {token : Token} {tokens : List Token} {text : List Char} :
    Spells (token :: tokens) text ↔
      ∃ part rest, token.StandsFor part ∧ Spells tokens rest ∧ part ++ rest = text := by
  constructor
  · rintro ⟨parts, hparts, rfl⟩
    cases hparts with
    | cons hfirst hothers => exact ⟨_, _, hfirst, ⟨_, hothers, rfl⟩, rfl⟩
  · rintro ⟨part, rest, hfirst, ⟨parts, hothers, rfl⟩, rfl⟩
    exact ⟨part :: parts, .cons hfirst hothers, rfl⟩

/-- A run spells any beginning of a text. -/
theorem spells_anyRun {tokens : List Token} {text : List Char} :
    Spells (.anyRun :: tokens) text ↔ ∃ rest, Spells tokens rest ∧ rest <:+ text := by
  rw [spells_cons]
  constructor
  · rintro ⟨run, rest, -, hrest, rfl⟩
    exact ⟨rest, hrest, List.suffix_append run rest⟩
  · rintro ⟨rest, hrest, run, rfl⟩
    exact ⟨run, rest, .anyRun run, hrest, rfl⟩

/-- A single place spells any character. -/
theorem spells_anyOne {tokens : List Token} {text : List Char} :
    Spells (.anyOne :: tokens) text ↔ ∃ c rest, Spells tokens rest ∧ c :: rest = text := by
  rw [spells_cons]
  constructor
  · rintro ⟨part, rest, hpart, hrest, rfl⟩
    cases hpart with
    | anyOne c => exact ⟨c, rest, hrest, rfl⟩
  · rintro ⟨c, rest, hrest, rfl⟩
    exact ⟨[c], rest, .anyOne c, hrest, rfl⟩

/-- A character spells itself. -/
theorem spells_exactly {c : Char} {tokens : List Token} {text : List Char} :
    Spells (.exactly c :: tokens) text ↔ ∃ rest, Spells tokens rest ∧ c :: rest = text := by
  rw [spells_cons]
  constructor
  · rintro ⟨part, rest, hpart, hrest, rfl⟩
    cases hpart
    exact ⟨rest, hrest, rfl⟩
  · rintro ⟨rest, hrest, rfl⟩
    exact ⟨[c], rest, .exactly c, hrest, rfl⟩

/-- The characters of a text spell it. -/
theorem spells_characters {needle text : List Char} {tokens : List Token} :
    Spells (needle.map .exactly ++ tokens) text ↔
      ∃ rest, Spells tokens rest ∧ needle ++ rest = text := by
  induction needle generalizing text with
  | nil => simp
  | cons c others ih =>
      rw [List.map_cons, List.cons_append, spells_exactly]
      constructor
      · rintro ⟨_, hothers, rfl⟩
        obtain ⟨rest, hrest, rfl⟩ := ih.mp hothers
        exact ⟨rest, hrest, rfl⟩
      · rintro ⟨rest, hrest, rfl⟩
        exact ⟨others ++ rest, ih.mpr ⟨rest, hrest, rfl⟩, rfl⟩

/-! ### What may remain of a text -/

/-- Each text ends with all those after it. -/
def Nested (texts : List (List Char)) : Prop :=
  texts.Pairwise fun longer shorter => shorter <:+ longer

/-- What may remain of a text after any run are its ends. -/
theorem mem_suffixes {text rest : List Char} : rest ∈ suffixes text ↔ rest <:+ text := by
  induction text with
  | nil => simp [suffixes]
  | cons c others ih => rw [suffixes, List.mem_cons, ih, List.suffix_cons_iff]

/-- The ends of a text are nested. -/
theorem nested_suffixes (text : List Char) : Nested (suffixes text) := by
  induction text with
  | nil => exact List.pairwise_singleton _ _
  | cons c others ih =>
      refine List.pairwise_cons.mpr ⟨fun rest hrest => ?_, ih⟩
      exact (mem_suffixes.mp hrest).trans (List.suffix_cons c others)

/-- Without their first characters nested texts are nested. -/
theorem suffix_of_cons {c d : Char} {longer shorter : List Char}
    (h : d :: shorter <:+ c :: longer) : shorter <:+ longer := by
  rcases List.suffix_cons_iff.mp h with heq | hsuffix
  · rw [(List.cons.inj heq).2]
  · exact (List.suffix_cons d shorter).trans hsuffix

/-- A token keeps what may remain nested. -/
theorem nested_after (token : Token) {texts : List (List Char)} (h : Nested texts) :
    Nested (token.after texts) := by
  cases token with
  | anyRun =>
      cases texts with
      | nil => exact h
      | cons longest others => exact nested_suffixes longest
  | anyOne =>
      refine h.filterMap _ fun longer shorter hnested one hone other hother => ?_
      cases longer <;> cases shorter <;> simp_all
      exact suffix_of_cons hnested
  | exactly c =>
      refine h.filterMap _ fun longer shorter hnested one hone other hother => ?_
      cases longer <;> cases shorter <;> simp_all
      exact suffix_of_cons hnested

/-- What may remain after a token follows a part for which the token stands.  For any run this
needs the texts to be nested, as only the longest is looked at. -/
theorem mem_after {token : Token} {texts : List (List Char)} (h : Nested texts)
    {rest : List Char} :
    rest ∈ token.after texts ↔ ∃ part, token.StandsFor part ∧ part ++ rest ∈ texts := by
  cases token with
  | anyRun =>
      cases texts with
      | nil => simp [Token.after]
      | cons longest others =>
          rw [Token.after, mem_suffixes]
          constructor
          · rintro ⟨run, rfl⟩
            exact ⟨run, .anyRun run, List.mem_cons_self⟩
          · rintro ⟨run, -, hmem⟩
            have hrest : rest <:+ run ++ rest := List.suffix_append run rest
            rcases List.mem_cons.mp hmem with heq | hothers
            · exact heq ▸ hrest
            · exact hrest.trans (List.rel_of_pairwise_cons h hothers)
  | anyOne =>
      rw [Token.after, List.mem_filterMap]
      constructor
      · rintro ⟨text, htext, heq⟩
        cases text with
        | nil => cases heq
        | cons c others =>
            cases heq
            exact ⟨[c], .anyOne c, htext⟩
      · rintro ⟨part, hpart, hmem⟩
        cases hpart
        exact ⟨_, hmem, rfl⟩
  | exactly c =>
      rw [Token.after, List.mem_filterMap]
      constructor
      · rintro ⟨text, htext, heq⟩
        cases text with
        | nil => cases heq
        | cons d others =>
            by_cases hd : d = c
            · simp only [hd, if_true, Option.some.injEq] at heq
              subst hd heq
              exact ⟨[d], .exactly d, htext⟩
            · simp [hd] at heq
      · rintro ⟨part, hpart, hmem⟩
        cases hpart
        exact ⟨_, hmem, by simp⟩

/-- What may remain after tokens follows a text that they spell. -/
theorem mem_remaining {tokens : List Token} {texts : List (List Char)} (h : Nested texts)
    {rest : List Char} :
    rest ∈ tokens.foldl (fun texts token => token.after texts) texts ↔
      ∃ front, Spells tokens front ∧ front ++ rest ∈ texts := by
  induction tokens generalizing texts with
  | nil => simp [spells_nil]
  | cons token others ih =>
      rw [List.foldl_cons, ih (nested_after token h)]
      constructor
      · rintro ⟨front, hfront, hmem⟩
        obtain ⟨part, hpart, hmem⟩ := (mem_after h).mp hmem
        exact ⟨part ++ front, spells_cons.mpr ⟨part, front, hpart, hfront, rfl⟩,
          by rwa [List.append_assoc]⟩
      · rintro ⟨_, hspells, hmem⟩
        obtain ⟨part, front, hpart, hfront, rfl⟩ := spells_cons.mp hspells
        rw [List.append_assoc] at hmem
        exact ⟨front, hfront, (mem_after h).mpr ⟨part, hpart, hmem⟩⟩

/-- A text may remain from a position on exactly if the tokens spell what stands before it. -/
theorem drop_mem_remaining (tokens : List Token) (text : List Char) (position : Nat) :
    text.drop position ∈ tokens.foldl (fun texts token => token.after texts) [text] ↔
      Spells tokens (text.take position) := by
  have hsplit : ∀ front, front ++ text.drop position = text ↔ front = text.take position := by
    intro front
    constructor
    · intro heq
      exact List.append_cancel_right (heq.trans (List.take_append_drop position text).symm)
    · rintro rfl
      exact List.take_append_drop position text
  rw [mem_remaining (List.pairwise_singleton _ _)]
  simp [hsplit]

/-- Tokens match exactly the texts that they spell: nothing may remain at the end. -/
theorem tokensMatch_iff {tokens : List Token} {text : List Char} :
    tokensMatch tokens text = true ↔ Spells tokens text := by
  have hremains : tokensMatch tokens text = true ↔
      text.drop text.length ∈ tokens.foldl (fun texts token => token.after texts) [text] := by
    simp [tokensMatch]
  rw [hremains, drop_mem_remaining, List.take_length]

/-! ### Patterns -/

/-- A pattern stands for a text that can be split so that each percent sign takes a run of
characters, each underscore one character, each backslash before a character that character, a
backslash at the end itself, and every other character itself. -/
inductive Stands : List Char → List Char → Prop
  | done : Stands [] []
  | percent (run : List Char) {pattern text : List Char} :
      Stands pattern text → Stands ('%' :: pattern) (run ++ text)
  | underscore (c : Char) {pattern text : List Char} :
      Stands pattern text → Stands ('_' :: pattern) (c :: text)
  | escaped (c : Char) {pattern text : List Char} :
      Stands pattern text → Stands ('\\' :: c :: pattern) (c :: text)
  | lastBackslash : Stands ['\\'] ['\\']
  | itself {c : Char} (ordinary : isSpecial c = false) {pattern text : List Char} :
      Stands pattern text → Stands (c :: pattern) (c :: text)

/-- Special are the two wildcards and the escape itself. -/
theorem isSpecial_iff {c : Char} : isSpecial c = true ↔ c = '%' ∨ c = '_' ∨ c = '\\' := by
  simp [isSpecial, or_assoc]

/-- A character without a meaning is a token of its own. -/
theorem tokens_ordinary {c : Char} (h : isSpecial c = false) (rest : List Char) :
    tokens (c :: rest) = .exactly c :: tokens rest := by
  rw [← Bool.not_eq_true, isSpecial_iff, not_or, not_or] at h
  obtain ⟨hpercent, hunderscore, hbackslash⟩ := h
  rw [tokens]
  · exact hpercent
  · exact hunderscore
  · exact fun heq _ => hbackslash heq
  · exact fun _ _ heq _ => hbackslash heq

/-- A pattern stands for the texts that its tokens spell. -/
theorem stands_iff_spells {pattern text : List Char} :
    Stands pattern text ↔ Spells (tokens pattern) text := by
  constructor
  · intro h
    induction h with
    | done => exact spells_nil.mpr rfl
    | percent run _ ih => exact spells_anyRun.mpr ⟨_, ih, List.suffix_append run _⟩
    | underscore c _ ih => exact spells_anyOne.mpr ⟨c, _, ih, rfl⟩
    | escaped c _ ih => exact spells_exactly.mpr ⟨_, ih, rfl⟩
    | lastBackslash => exact spells_exactly.mpr ⟨[], spells_nil.mpr rfl, rfl⟩
    | itself ordinary _ ih =>
        rw [tokens_ordinary ordinary]
        exact spells_exactly.mpr ⟨_, ih, rfl⟩
  · intro h
    fun_induction tokens pattern generalizing text with
    | case1 =>
        rw [spells_nil.mp h]
        exact .done
    | case2 pattern ih =>
        obtain ⟨rest, hrest, run, rfl⟩ := spells_anyRun.mp h
        exact .percent run (ih hrest)
    | case3 pattern ih =>
        obtain ⟨c, rest, hrest, rfl⟩ := spells_anyOne.mp h
        exact .underscore c (ih hrest)
    | case4 =>
        obtain ⟨rest, hrest, rfl⟩ := spells_exactly.mp h
        rw [spells_nil.mp hrest]
        exact .lastBackslash
    | case5 c pattern ih =>
        obtain ⟨rest, hrest, rfl⟩ := spells_exactly.mp h
        exact .escaped c (ih hrest)
    | case6 c pattern hpercent hunderscore hlast hescape ih =>
        obtain ⟨rest, hrest, rfl⟩ := spells_exactly.mp h
        have hbackslash : c ≠ '\\' := by
          rintro rfl
          cases pattern with
          | nil => exact hlast rfl rfl
          | cons d others => exact hescape d others rfl rfl
        have hordinary : isSpecial c = false := by
          rw [← Bool.not_eq_true, isSpecial_iff, not_or, not_or]
          exact ⟨hpercent, hunderscore, hbackslash⟩
        exact .itself hordinary (ih hrest)

/-- **Patterns match as they are defined.**  A pattern matches exactly the texts that it stands
for. -/
theorem isMatch_iff_stands (text pattern : String) :
    isMatch text pattern = true ↔ Stands pattern.toList text.toList := by
  rw [isMatch, tokensMatch_iff, stands_iff_spells]

example : isMatch "50%" "50\\%" = true ∧ isMatch "500" "50\\%" = false := by decide

/-! ### The pattern of a text -/

/-- A special character is escaped. -/
theorem escape_special {c : Char} (h : isSpecial c = true) (rest : List Char) :
    escape (c :: rest) = '\\' :: c :: escape rest := by
  simp [escape, h]

/-- Any other stands for itself. -/
theorem escape_ordinary {c : Char} (h : isSpecial c = false) (rest : List Char) :
    escape (c :: rest) = c :: escape rest := by
  simp [escape, h]

/-- The tokens of an escaped text are its characters. -/
theorem tokens_escape (needle rest : List Char) :
    tokens (escape needle ++ rest) = needle.map .exactly ++ tokens rest := by
  induction needle with
  | nil => rfl
  | cons c others ih =>
      rw [List.map_cons, List.cons_append, ← ih]
      cases hspecial : isSpecial c with
      | true =>
          rw [escape_special hspecial]
          rfl
      | false =>
          rw [escape_ordinary hspecial, List.cons_append]
          exact tokens_ordinary hspecial _

/-- How a text has to stand in another, where there may be something before or after it. -/
def placed (before after : Bool) (needle text : List Char) : Bool :=
  match before, after with
  | true, true => decide (needle <:+: text)
  | true, false => decide (needle <:+ text)
  | false, true => decide (needle <+: text)
  | false, false => decide (needle = text)

/-- The characters of a text spell the texts that begin with it, if any run may follow. -/
theorem spells_before_any {needle text : List Char} :
    Spells (needle.map .exactly ++ [.anyRun]) text ↔ needle <+: text := by
  rw [spells_characters]
  constructor
  · rintro ⟨rest, -, rfl⟩
    exact List.prefix_append needle rest
  · rintro ⟨rest, rfl⟩
    exact ⟨rest, spells_anyRun.mpr ⟨[], spells_nil.mpr rfl, List.nil_suffix⟩, rfl⟩

/-- Characters alone spell their text. -/
theorem spells_alone {needle text : List Char} :
    Spells (needle.map .exactly) text ↔ needle = text := by
  have hcharacters := @spells_characters needle text []
  simpa [spells_nil] using hcharacters

/-- The pattern of a text stands for the texts in which it is placed as allowed.  Any run before the
characters leaves an end of the text to them. -/
theorem isMatch_pattern (text needle : String) (before after : Bool) :
    isMatch text (pattern before after needle) =
      placed before after needle.toList text.toList := by
  have hinner : tokens (escape needle.toList ++ if after then ['%'] else []) =
      needle.toList.map .exactly ++ if after then [.anyRun] else [] := by
    rw [tokens_escape]
    cases after <;> rfl
  have htokens : tokens (pattern before after needle).toList =
      (if before then [.anyRun] else []) ++
        (needle.toList.map .exactly ++ if after then [.anyRun] else []) := by
    rw [pattern, String.toList_ofList, List.append_assoc, ← hinner]
    cases before <;> rfl
  rw [Bool.eq_iff_iff, isMatch, tokensMatch_iff, htokens]
  cases before with
  | false =>
      cases after with
      | false => simpa [placed] using spells_alone
      | true => simpa [placed] using spells_before_any
  | true =>
      cases after with
      | false => simp [placed, spells_anyRun, spells_alone]
      | true => simp [placed, spells_anyRun, spells_before_any, List.infix_iff_prefix_suffix]

end NestedQuery.Like
