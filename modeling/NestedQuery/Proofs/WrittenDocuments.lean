import Mathlib.Data.List.Forall2
import NestedQuery.Json.Reader
import NestedQuery.Json.Writer

/-!
# Documents read back

A document is written as a text, and the text is read in two steps.  It is split
into tokens, which are those of the document: a string comes out of its escapes
as it went in, and a word ends where a mark follows.  Then the tokens are taken
one after the other, and each value of the document is handed to the container
that it stands in.  So reading what was written gives the document back, except
that containers below the depth limit are flawed.  Only numbers are left out
here, as they have more than one text.
-/

namespace NestedQuery.Json

/-! ### The tokens of a document -/

/-- Sequences of tokens with a comma between them and a mark at the end. -/
def separated (close : Token) : List (List Token) → List Token
  | [] => [close]
  | [last] => last ++ [close]
  | first :: next :: rest => first ++ .comma :: separated close (next :: rest)

mutual

/-- The tokens of a document. -/
def tokens : Json → List Token
  | .string s => [.string (some s)]
  | .array items => .openArray :: separated .closeArray (itemTokens items)
  | .object fields => .openObject :: separated .closeObject (fieldTokens fields)
  | word => [.word word]

/-- The tokens of each document. -/
def itemTokens : List Json → List (List Token)
  | [] => []
  | item :: rest => item.tokens :: itemTokens rest

/-- The tokens of each value behind its key. -/
def fieldTokens : List (String × Json) → List (List Token)
  | [] => []
  | (name, value) :: rest => (.string (some name) :: .colon :: value.tokens) :: fieldTokens rest

end

/-! ### Strings -/

/-- What a part of a written string stands for: a character for itself, and the number of a
control character for it. -/
def StringPart.Writes : StringPart → Char → Prop
  | .char d, c => d = c
  | .unit u, c => u = c.toNat ∧ u < 0x20

/-- The digits of a control character give its number. -/
theorem hexUnit?_control : ∀ n < 0x20,
    hexUnit? '0' '0' (hexText (n / 16)) (hexText (n % 16)) = some n := by
  decide

/-- A character is read off its escape.  The cases are the escapes in the order of the writer: short
ones, numbered ones, none. -/
theorem readParts?_escapeChar (c : Char) : ∃ part : StringPart, part.Writes c ∧
    ∀ (done : List StringPart) (rest : List Char),
      readParts? done (escapeChar c ++ rest) = readParts? (part :: done) rest := by
  unfold escapeChar
  split_ifs with hquote hbackslash hnewline hreturn htab hbackspace hfeed hcontrol
  · exact ⟨.char '"', hquote.symm, fun _ _ => rfl⟩
  · exact ⟨.char '\\', hbackslash.symm, fun _ _ => rfl⟩
  · exact ⟨.char '\n', hnewline.symm, fun _ _ => rfl⟩
  · exact ⟨.char '\r', hreturn.symm, fun _ _ => rfl⟩
  · exact ⟨.char '\t', htab.symm, fun _ _ => rfl⟩
  · exact ⟨.char (Char.ofNat 8), by rw [← hbackspace]; exact Char.ofNat_toNat c, fun _ _ => rfl⟩
  · exact ⟨.char (Char.ofNat 12), by rw [← hfeed]; exact Char.ofNat_toNat c, fun _ _ => rfl⟩
  · refine ⟨.unit c.toNat, ⟨rfl, hcontrol⟩, fun done rest => ?_⟩
    simp only [List.cons_append, List.nil_append]
    rw [readParts?, hexUnit?_control _ hcontrol]
  · refine ⟨.char c, rfl, fun done rest => ?_⟩
    rw [List.singleton_append, readParts?.eq_def]
    split
    · next h => cases h
    · next h => cases h; exact absurd rfl hquote
    · next h => cases h; exact absurd rfl hbackslash
    · next h => cases h; exact absurd rfl hbackslash
    · next h =>
        cases h
        rw [if_neg (not_or.mpr ⟨hbackslash, hcontrol⟩)]

/-- A string is read up to its closing quote. -/
theorem readParts?_escaped (cs : List Char) : ∃ parts : List StringPart,
    List.Forall₂ StringPart.Writes parts cs ∧
    ∀ (done : List StringPart) (rest : List Char),
      readParts? done (cs.flatMap escapeChar ++ '"' :: rest) =
        some (done.reverse ++ parts, rest) := by
  induction cs with
  | nil => exact ⟨[], .nil, fun done rest => by simp [readParts?]⟩
  | cons c cs ih =>
      obtain ⟨part, hpart, hread⟩ := readParts?_escapeChar c
      obtain ⟨parts, hparts, hreads⟩ := ih
      refine ⟨part :: parts, .cons hpart hparts, fun done rest => ?_⟩
      rw [List.flatMap_cons, List.append_assoc, hread, hreads, List.reverse_cons,
        List.append_assoc, List.singleton_append]

/-- A number of a control character stands for it, whatever written part follows.  Only behind half
of a pair does the next part matter, and neither of the two is one. -/
theorem joinParts?_control {c : Char} (hcontrol : c.toNat < 0x20) {parts : List StringPart}
    {cs : List Char} (h : List.Forall₂ StringPart.Writes parts cs) :
    joinParts? (.unit c.toNat :: parts) = (joinParts? parts).map (c :: ·) := by
  have hwhole : ∀ u < 0x20, isHighUnit u = false ∧ isLowUnit u = false := by decide
  have hc := hwhole _ hcontrol
  cases h with
  | nil => simp [joinParts?, hc]
  | @cons next _ parts _ hnext _ =>
      cases next with
      | char d => simp [joinParts?, hc]
      | unit u => simp [joinParts?, hc, hwhole u hnext.2]

/-- The parts of a written string stand for it. -/
theorem joinParts?_written {parts : List StringPart} {cs : List Char}
    (h : List.Forall₂ StringPart.Writes parts cs) : joinParts? parts = some cs := by
  induction h with
  | nil => rfl
  | @cons part c parts cs hpart hparts ih =>
      cases part with
      | char d =>
          obtain rfl : d = c := hpart
          rw [joinParts?, ih]
          rfl
      | unit u =>
          obtain ⟨rfl, hcontrol⟩ := hpart
          rw [joinParts?_control hcontrol hparts, ih]
          rfl

/-! ### Splitting a text -/

/-- A mark is a token of its own. -/
theorem readTokens?_mark {c : Char} {mark : Token} (hmark : Token.mark? c = some mark)
    (done : List Token) (rest : List Char) :
    readTokens? done (c :: rest) = readTokens? (mark :: done) rest := by
  have hspace : isSpace c = false := by
    unfold Token.mark? at hmark
    split at hmark
    all_goals first | rfl | cases hmark
  rw [readTokens?, hspace, hmark]
  rfl

/-- A character of a word is no blank, no mark and no quote. -/
theorem apart_of_isWordChar {c : Char} (hc : isWordChar c = true) :
    isSpace c = false ∧ Token.mark? c = none ∧ c ≠ '"' := by
  refine ⟨?_, ?_, ?_⟩
  · cases hspace : isSpace c with
    | false => rfl
    | true =>
        simp only [isSpace, Bool.or_eq_true, decide_eq_true_eq] at hspace
        rcases hspace with ((rfl | rfl) | rfl) | rfl <;> cases hc
  · unfold Token.mark?
    split
    all_goals first | rfl | cases hc
  · rintro rfl
    cases hc

/-- What follows does not go on with a word. -/
def EndsWord (more : List Char) : Prop :=
  ∀ c ∈ more.head?, isWordChar c = false

theorem endsWord_nil : EndsWord [] :=
  fun c hc => absurd hc (Option.not_mem_none c)

theorem endsWord_mark {c : Char} {mark : Token} (hmark : Token.mark? c = some mark)
    (more : List Char) : EndsWord (c :: more) := by
  intro d hd
  obtain rfl : c = d := Option.some.inj hd
  refine (Bool.not_eq_true _).mp fun hword => ?_
  rw [(apart_of_isWordChar hword).2.1] at hmark
  cases hmark

/-- The text is split into the tokens, whatever stands around it. -/
def Splits (text : String) (tokens : List Token) : Prop :=
  ∀ (done : List Token) {more : List Char}, EndsWord more →
    readTokens? done (text.toList ++ more) = readTokens? (tokens.reverse ++ done) more

/-- A quoted string is a token. -/
theorem splits_quote (s : String) : Splits (quote s) [.string (some s)] := by
  intro done more _
  obtain ⟨parts, hparts, hread⟩ := readParts?_escaped s.toList
  have htext : (quote s).toList ++ more = '"' :: (s.toList.flatMap escapeChar ++ '"' :: more) := by
    simp [quote]
  have hstring : (joinParts? parts).map String.ofList = some s := by
    rw [joinParts?_written hparts]
    exact congrArg some String.ofList_toList
  have hmark : Token.mark? '"' = none := rfl
  rw [htext, readTokens?, if_neg (by decide), hmark]
  dsimp only
  rw [if_pos rfl]
  split
  · next hnone =>
      rw [hread] at hnone
      cases hnone
  · next hsome =>
      rw [hread] at hsome
      cases hsome
      rw [List.reverse_nil, List.nil_append, hstring]
      rfl

/-- A word is a token where it ends. -/
theorem splits_word {text : String} {value : Json} (hne : text.toList ≠ [])
    (hword : text.toList.all isWordChar = true)
    (hread : readWord? text.toList = some value) : Splits text [.word value] := by
  intro done more hmore
  have hend : more.takeWhile isWordChar = [] ∧ more.dropWhile isWordChar = more := by
    cases more with
    | nil => exact ⟨rfl, rfl⟩
    | cons c more => simp [hmore c rfl]
  cases htext : text.toList with
  | nil => exact absurd htext hne
  | cons c word =>
      rw [htext] at hword hread
      obtain ⟨hc, hrest⟩ := List.forall_mem_cons.mp (List.all_eq_true.mp hword)
      obtain ⟨hspace, hmark, hquote⟩ := apart_of_isWordChar hc
      rw [List.cons_append, readTokens?, hspace, hmark]
      dsimp only
      rw [if_neg Bool.false_ne_true, if_neg hquote, if_pos hc,
        List.takeWhile_append_of_pos hrest, List.dropWhile_append_of_pos hrest, hend.1, hend.2,
        List.append_nil, hread]
      rfl

/-- A value splits behind its key as it does alone. -/
theorem Splits.field {text : String} {tokens : List Token} (h : Splits text tokens)
    (name : String) :
    Splits (quote name ++ ":" ++ text) (.string (some name) :: .colon :: tokens) := by
  intro done more hmore
  have htext : (quote name ++ ":" ++ text).toList ++ more =
      (quote name).toList ++ ':' :: (text.toList ++ more) := by
    simp
  rw [htext, splits_quote name done (endsWord_mark rfl _), readTokens?_mark rfl, h _ hmore]
  simp

/-- Texts with commas between them and a mark behind them split one after the other. -/
theorem readTokens?_separated {close : Char} {mark : Token}
    (hmark : Token.mark? close = some mark) {texts : List String} {pieces : List (List Token)}
    (h : List.Forall₂ Splits texts pieces) (done : List Token) (more : List Char) :
    readTokens? done ((String.intercalate "," texts).toList ++ close :: more) =
      readTokens? ((separated mark pieces).reverse ++ done) more := by
  induction h generalizing done with
  | nil => exact readTokens?_mark hmark done more
  | @cons text piece texts pieces htext hrest ih =>
      cases hrest with
      | nil =>
          rw [String.intercalate_singleton, htext done (endsWord_mark hmark more),
            readTokens?_mark hmark, separated, List.reverse_append]
          rfl
      | @cons next _ texts _ _ _ =>
          have hcomma : (String.intercalate "," (text :: next :: texts)).toList ++ close :: more =
              text.toList ++
                ',' :: ((String.intercalate "," (next :: texts)).toList ++ close :: more) := by
            simp [String.intercalate_cons_cons]
          rw [hcomma, htext done (endsWord_mark rfl _), readTokens?_mark rfl, ih, separated]
          simp

/-- So does a container, which begins with a mark too. -/
theorem splits_container {before after : String} {first last : Char} {opening closing : Token}
    (hbefore : before.toList = [first]) (hafter : after.toList = [last])
    (hopening : Token.mark? first = some opening) (hclosing : Token.mark? last = some closing)
    {texts : List String} {pieces : List (List Token)} (h : List.Forall₂ Splits texts pieces) :
    Splits (before ++ String.intercalate "," texts ++ after)
      (opening :: separated closing pieces) := by
  intro done more _
  have htext : (before ++ String.intercalate "," texts ++ after).toList ++ more =
      first :: ((String.intercalate "," texts).toList ++ last :: more) := by
    simp [hbefore, hafter]
  rw [htext, readTokens?_mark hopening, readTokens?_separated hclosing h, List.reverse_cons,
    List.append_assoc, List.singleton_append]

mutual

/-- Whether the document is sound and holds no number. -/
def isNumberless : Json → Bool
  | .integer _ | .float _ | .flawed => false
  | .array items => areNumberless items
  | .object fields => fieldsNumberless fields
  | _ => true

/-- Whether the documents are sound and hold no number. -/
def areNumberless : List Json → Bool
  | [] => true
  | item :: rest => item.isNumberless && areNumberless rest

/-- Whether the values are sound and hold no number. -/
def fieldsNumberless : List (String × Json) → Bool
  | [] => true
  | (_, value) :: rest => value.isNumberless && fieldsNumberless rest

end

mutual

/-- The text of a document splits into its tokens. -/
theorem splits_render : ∀ (json : Json), json.isNumberless = true →
    Splits json.render json.tokens
  | .null, _ => splits_word (by decide) rfl rfl
  | .bool true, _ => splits_word (by decide) rfl rfl
  | .bool false, _ => splits_word (by decide) rfl rfl
  | .string s, _ => splits_quote s
  | .array items, h => splits_container rfl rfl rfl rfl (splits_renderItems items h)
  | .object fields, h => splits_container rfl rfl rfl rfl (splits_renderFields fields h)

theorem splits_renderItems : ∀ (items : List Json), areNumberless items = true →
    List.Forall₂ Splits (renderItems items) (itemTokens items)
  | [], _ => .nil
  | item :: rest, h => by
      obtain ⟨hitem, hrest⟩ := Bool.and_eq_true_iff.mp h
      exact .cons (splits_render item hitem) (splits_renderItems rest hrest)

theorem splits_renderFields : ∀ (fields : List (String × Json)), fieldsNumberless fields = true →
    List.Forall₂ Splits (renderFields fields) (fieldTokens fields)
  | [], _ => .nil
  | (name, value) :: rest, h => by
      obtain ⟨hvalue, hrest⟩ := Bool.and_eq_true_iff.mp h
      exact .cons ((splits_render value hvalue).field name) (splits_renderFields rest hrest)

end

/-! ### Taking the tokens -/

section Taking

variable (limit : Nat)

/-- Where an array may end the first token of a value is taken as anywhere else. -/
theorem foldlM_firstItem (json : Json) (more : List Token) (stack : List Frame) :
    (json.tokens ++ more).foldlM (State.step limit) (.firstItem stack) =
      (json.tokens ++ more).foldlM (State.step limit) (.value stack) := by
  cases json <;> rfl

/-- After a key comes its value. -/
theorem foldlM_key (name : String) (more : List Token) (done : List (String × Json))
    (outer : List Frame) :
    (.string (some name) :: .colon :: more).foldlM (State.step limit)
        (.key (.object done true :: outer)) =
      more.foldlM (State.step limit) (.value (.field done true (some name) :: outer)) := rfl

/-- A container that ends is flawed from the depth limit on. -/
theorem close_limited (json : Json) (hcontainer : json.limitDepth 0 = .flawed)
    (outer : List Frame) :
    State.close limit (json.limitDepth (limit - (outer.length + 1) + 1)) outer =
      .give (json.limitDepth (limit - outer.length)) outer := by
  unfold State.close
  split
  · next hbelow => rw [show limit - (outer.length + 1) + 1 = limit - outer.length by omega]
  · next hbelow => rw [show limit - outer.length = 0 by omega, hcontainer]

mutual

/-- The tokens of a document hand it to the container that it stands in.  The recursion is on the
document.  The open containers are left free, since a value in a container is taken with one more of
them, and its depth is measured by their number. -/
theorem foldlM_tokens : ∀ (json : Json) (stack : List Frame),
    json.tokens.foldlM (State.step limit) (.value stack) =
      some (.give (json.limitDepth (limit - stack.length)) stack)
  | .null, _ | .bool _, _ | .integer _, _ | .float _, _ | .string _, _ | .flawed, _ => rfl
  | .array [], stack => congrArg some (close_limited limit (.array []) rfl stack)
  | .array (item :: rest), stack => by
      have hbegin : (Json.array (item :: rest)).tokens.foldlM (State.step limit) (.value stack) =
          (separated .closeArray (itemTokens (item :: rest))).foldlM (State.step limit)
            (.value (.array [] :: stack)) := by
        cases rest with
        | nil => exact foldlM_firstItem limit item _ _
        | cons next rest => exact foldlM_firstItem limit item _ _
      rw [hbegin, foldlM_itemTokens (item :: rest) (List.cons_ne_nil _ _) [] stack]
      exact congrArg some (close_limited limit (.array (item :: rest)) rfl stack)
  | .object [], stack => congrArg some (close_limited limit (.object []) rfl stack)
  | .object (field :: rest), stack => by
      have hbegin : (Json.object (field :: rest)).tokens.foldlM (State.step limit) (.value stack) =
          (separated .closeObject (fieldTokens (field :: rest))).foldlM (State.step limit)
            (.key (.object [] true :: stack)) := by
        cases rest <;> rfl
      rw [hbegin, foldlM_fieldTokens (field :: rest) (List.cons_ne_nil _ _) [] stack]
      exact congrArg some (close_limited limit (.object (field :: rest)) rfl stack)

/-- The tokens of items put them behind those that an array has. -/
theorem foldlM_itemTokens : ∀ (items : List Json), items ≠ [] → ∀ (done : List Json)
    (outer : List Frame),
    (separated .closeArray (itemTokens items)).foldlM (State.step limit)
        (.value (.array done :: outer)) =
      some (.close limit
        (.array (done.reverse ++ limitItems (limit - (outer.length + 1)) items)) outer)
  | [], hne, _, _ => absurd rfl hne
  | [item], _, done, outer => by
      rw [itemTokens, itemTokens, separated, List.foldlM_append, foldlM_tokens item]
      exact congrArg (fun items => some (State.close limit (.array items) outer))
        List.reverse_cons
  | item :: next :: rest, _, done, outer => by
      rw [itemTokens, itemTokens, separated, List.foldlM_append, foldlM_tokens item]
      refine (foldlM_itemTokens (next :: rest) (List.cons_ne_nil _ _) (_ :: done) outer).trans ?_
      rw [List.reverse_cons, List.append_assoc]
      rfl

/-- The tokens of fields put them behind those that an object has. -/
theorem foldlM_fieldTokens : ∀ (fields : List (String × Json)), fields ≠ [] →
    ∀ (done : List (String × Json)) (outer : List Frame),
    (separated .closeObject (fieldTokens fields)).foldlM (State.step limit)
        (.key (.object done true :: outer)) =
      some (.close limit
        (.object (done.reverse ++ limitFields (limit - (outer.length + 1)) fields)) outer)
  | [], hne, _, _ => absurd rfl hne
  | [(name, value)], _, done, outer => by
      rw [fieldTokens, fieldTokens, separated, List.cons_append, List.cons_append, foldlM_key,
        List.foldlM_append, foldlM_tokens value]
      exact congrArg (fun fields => some (State.close limit (.object fields) outer))
        List.reverse_cons
  | (name, value) :: next :: rest, _, done, outer => by
      rw [fieldTokens, fieldTokens, separated, List.cons_append, List.cons_append, foldlM_key,
        List.foldlM_append, foldlM_tokens value]
      refine (foldlM_fieldTokens (next :: rest) (List.cons_ne_nil _ _) (_ :: done) outer).trans ?_
      rw [List.reverse_cons, List.append_assoc]
      rfl

end

/-- The tokens of a document are read as it, down to the depth limit. -/
theorem ofTokens?_tokens (json : Json) :
    ofTokens? limit json.tokens = some (json.limitDepth limit) := by
  rw [ofTokens?, foldlM_tokens limit json []]
  rfl

end Taking

/-! ### Reading what was written -/

/-- The text of a document is read as it, down to the depth limit. -/
theorem read?_render (limit : Nat) {json : Json} (h : json.isNumberless = true) :
    read? limit json.render = some (json.limitDepth limit) := by
  have htokens : tokens? json.render = some json.tokens := by
    have hsplits := splits_render json h [] endsWord_nil
    rw [List.append_nil, List.append_nil] at hsplits
    rw [tokens?, hsplits, readTokens?, List.reverse_reverse]
  rw [read?, htokens]
  exact ofTokens?_tokens limit json

mutual

/-- A document that was written without numbers has no flaw. -/
theorem isSound_of_isNumberless : ∀ (json : Json), json.isNumberless = true →
    json.isSound = true
  | .null, _ | .bool _, _ | .string _, _ => rfl
  | .array items, h => areSound_of_areNumberless items h
  | .object fields, h => fieldsSound_of_fieldsNumberless fields h

theorem areSound_of_areNumberless : ∀ (items : List Json), areNumberless items = true →
    areSound items = true
  | [], _ => rfl
  | item :: rest, h => by
      obtain ⟨hitem, hrest⟩ := Bool.and_eq_true_iff.mp h
      exact Bool.and_eq_true_iff.mpr
        ⟨isSound_of_isNumberless item hitem, areSound_of_areNumberless rest hrest⟩

theorem fieldsSound_of_fieldsNumberless : ∀ (fields : List (String × Json)),
    fieldsNumberless fields = true → fieldsSound fields = true
  | [], _ => rfl
  | (_, value) :: rest, h => by
      obtain ⟨hvalue, hrest⟩ := Bool.and_eq_true_iff.mp h
      exact Bool.and_eq_true_iff.mpr
        ⟨isSound_of_isNumberless value hvalue, fieldsSound_of_fieldsNumberless rest hrest⟩

end

end NestedQuery.Json
