import NestedQuery.Proofs.Patterns
import NestedQuery.Text.Lowercase

/-!
# Lowering parts of a text

A text is lowered character by character, and only a capital sigma looks at what
stands around it.  So a part of a text is lowered in its place as it is alone
exactly if each capital sigma of the part ends a word there exactly if it ends
one in the part.  The signs of patterns are no letters and nothing that case
passes over: they are kept and hide what stands behind them, so that the pattern
of a text is lowered to the pattern of the lowered text.
-/

namespace NestedQuery.Text

open NestedQuery.Like (isSpecial isSpecial_iff escape escape_special escape_ordinary pattern)

/-! ### A character in its place -/

/-- Whether a capital sigma between the given characters ends a word, those before it the nearest
first. -/
def endsWord (before after : List Char) : Bool :=
  meetsCased before && !meetsCased after

/-- The character in lower case between the given ones. -/
def lowerBetween (before : List Char) (c : Char) (after : List Char) : List Char :=
  if c.toNat = 0x3A3 then [Char.ofNat (if endsWord before after then 0x3C2 else 0x3C3)]
  else lowerChar c

/-- A text is lowered character by character, each between those before and behind it. -/
theorem lowerAfter_cons (before : List Char) (c : Char) (rest : List Char) :
    lowerAfter before (c :: rest) = lowerBetween before c rest ++ lowerAfter (c :: before) rest :=
  rfl

/-- The lowered text begins behind no character. -/
theorem toList_lowercase (text : String) : (lowercase text).toList = lowerAfter [] text.toList :=
  String.toList_ofList

theorem toNat_eq_sigma {c : Char} : c.toNat = 0x3A3 ↔ c = 'Σ' := by
  constructor
  · intro h
    exact Char.ext (UInt32.toNat_inj.mp h)
  · rintro rfl
    rfl

/-- The length of a lowered character does not depend on its place. -/
theorem length_lowerBetween (before after before' after' : List Char) (c : Char) :
    (lowerBetween before c after).length = (lowerBetween before' c after').length := by
  unfold lowerBetween
  split <;> rfl

/-- A character is lowered alike in two places unless it is a capital sigma that ends a word in one
of them only. -/
theorem lowerBetween_eq_iff {before after before' after' : List Char} {c : Char} :
    lowerBetween before c after = lowerBetween before' c after' ↔
      (c = 'Σ' → endsWord before after = endsWord before' after') := by
  unfold lowerBetween
  by_cases hsigma : c = 'Σ'
  · rw [if_pos (toNat_eq_sigma.mpr hsigma), if_pos (toNat_eq_sigma.mpr hsigma)]
    cases endsWord before after <;> cases endsWord before' after' <;> simp [hsigma]
  · rw [if_neg (mt toNat_eq_sigma.mp hsigma), if_neg (mt toNat_eq_sigma.mp hsigma)]
    simp [hsigma]

/-! ### A part in its place -/

/-- The part of a text in lower case, between the characters before it, the nearest first, and those
after it. -/
def lowerPart (before : List Char) : List Char → List Char → List Char
  | [], _ => []
  | c :: rest, after => lowerBetween before c (rest ++ after) ++ lowerPart (c :: before) rest after

/-- A text is lowered part by part. -/
theorem lowerAfter_append (before part after : List Char) :
    lowerAfter before (part ++ after) =
      lowerPart before part after ++ lowerAfter (part.reverse ++ before) after := by
  induction part generalizing before with
  | nil => rfl
  | cons c rest ih =>
      rw [List.cons_append, lowerAfter_cons, ih, lowerPart, List.reverse_cons, List.append_assoc,
        List.append_assoc, List.singleton_append]

/-- The rest of a text is a part with nothing after it. -/
theorem lowerPart_nil (before part : List Char) :
    lowerPart before part [] = lowerAfter before part := by
  have happend := lowerAfter_append before part []
  simpa [lowerAfter] using happend.symm

/-- How long a lowered part is does not depend on what is around it. -/
theorem length_lowerPart (before after before' after' part : List Char) :
    (lowerPart before part after).length = (lowerPart before' part after').length := by
  induction part generalizing before before' with
  | nil => rfl
  | cons c rest ih =>
      rw [lowerPart, lowerPart, List.length_append, List.length_append,
        length_lowerBetween before _ before' (rest ++ after'), ih]

/-- A part is lowered alike in two places exactly if each capital sigma of it ends a word in both or
in neither. -/
theorem lowerPart_eq_iff {before after before' after' part : List Char} :
    lowerPart before part after = lowerPart before' part after' ↔
      ∀ front back, part = front ++ 'Σ' :: back →
        endsWord (front.reverse ++ before) (back ++ after) =
          endsWord (front.reverse ++ before') (back ++ after') := by
  induction part generalizing before before' with
  | nil => simp [lowerPart]
  | cons c rest ih =>
      have hsplit : lowerPart before (c :: rest) after = lowerPart before' (c :: rest) after' ↔
          lowerBetween before c (rest ++ after) = lowerBetween before' c (rest ++ after') ∧
            lowerPart (c :: before) rest after = lowerPart (c :: before') rest after' := by
        rw [lowerPart, lowerPart]
        constructor
        · exact fun h => List.append_inj h (length_lowerBetween _ _ _ _ c)
        · rintro ⟨hfirst, hrest⟩
          rw [hfirst, hrest]
      rw [hsplit, lowerBetween_eq_iff, ih]
      constructor
      · rintro ⟨hfirst, hrest⟩ front back heq
        cases front with
        | nil =>
            obtain ⟨rfl, rfl⟩ := List.cons.inj heq
            exact hfirst rfl
        | cons d front =>
            obtain ⟨rfl, rfl⟩ := List.cons.inj heq
            simpa using hrest front back rfl
      · intro h
        refine ⟨fun hsigma => h [] rest (by rw [hsigma]; rfl), fun front back heq => ?_⟩
        simpa using h (c :: front) back (by rw [heq]; rfl)

/-- The part of a text is lowered in its place as it is alone: each capital sigma of the part ends a
word in the text exactly if it ends one in the part. -/
def LoweredAlone (front part back : List Char) : Prop :=
  ∀ before after, part = before ++ 'Σ' :: after →
    endsWord (before.reverse ++ front.reverse) (after ++ back) = endsWord before.reverse after

/-- A part is lowered as if it stood alone exactly if it comes to the same. -/
theorem loweredAlone_iff {front part back : List Char} :
    LoweredAlone front part back ↔ lowerPart front.reverse part back = lowerAfter [] part := by
  rw [← lowerPart_nil, lowerPart_eq_iff, LoweredAlone]
  simp only [List.append_nil]

instance (front part back : List Char) : Decidable (LoweredAlone front part back) :=
  decidable_of_iff _ loweredAlone_iff.symm

/-- What has no capital sigma is lowered anywhere as it is alone. -/
theorem loweredAlone_of_not_mem {part : List Char} (h : 'Σ' ∉ part) (front back : List Char) :
    LoweredAlone front part back := by
  rintro before after rfl
  exact absurd (by simp) h

/-- A text is what its part and what stands around it are lowered to. -/
theorem lowerAfter_around (front part back : List Char) :
    lowerAfter [] (front ++ part ++ back) =
      lowerPart [] front (part ++ back) ++ lowerPart front.reverse part back ++
        lowerAfter (part.reverse ++ front.reverse) back := by
  rw [List.append_assoc, lowerAfter_append, lowerAfter_append, List.append_nil, List.append_assoc]

/-! ### What a sigma meets -/

/-- Whether a cased letter follows is told by the first character that is not ignored. -/
theorem meetsCased_cons (c : Char) (rest : List Char) :
    meetsCased (c :: rest) = if isCaseIgnorable c then meetsCased rest else isCased c := by
  unfold meetsCased
  by_cases h : isCaseIgnorable c
  · rw [List.dropWhile_cons_of_pos h, if_pos h]
  · rw [List.dropWhile_cons_of_neg h, if_neg h]

/-! ### The signs of patterns -/

/-- The signs of patterns have no lower case, and no case at all. -/
theorem caseless_of_isSpecial {c : Char} (h : isSpecial c = true) :
    c.toNat ≠ 0x3A3 ∧ lowerChar c = [c] ∧ isCaseIgnorable c = false ∧ isCased c = false := by
  rcases isSpecial_iff.mp h with rfl | rfl | rfl <;> decide +kernel

/-- The characters that patterns escape have no case. -/
theorem lowerBetween_special {c : Char} (h : isSpecial c = true) (before after : List Char) :
    lowerBetween before c after = [c] := by
  obtain ⟨hsigma, hlower, -⟩ := caseless_of_isSpecial h
  rw [lowerBetween, if_neg hsigma, hlower]

/-- They are not ignored either, so no cased letter is met through them. -/
theorem meetsCased_special {c : Char} (h : isSpecial c = true) (rest : List Char) :
    meetsCased (c :: rest) = false := by
  obtain ⟨-, -, hignorable, hcased⟩ := caseless_of_isSpecial h
  rw [meetsCased_cons, hignorable, hcased]
  rfl

/-- The letters that others are lowered to come after the signs of patterns. -/
theorem lowerRuns_beyond : ∀ run ∈ lowerRuns, (0x5F : Int) < run.first + run.shift := by
  decide +kernel

/-- Beyond the underscore no character is special. -/
theorem not_isSpecial_ofNat {n : Nat} (h : 0x5F < n) : isSpecial (Char.ofNat n) = false := by
  have hcode : (Char.ofNat n).toNat = n ∨ (Char.ofNat n).toNat = 0 := by
    by_cases hvalid : n.isValidChar
    · left
      rw [Char.ofNat, dif_pos hvalid]
      rfl
    · right
      rw [Char.ofNat, dif_neg hvalid]
      rfl
  have hcodes : ∀ c : Char, isSpecial c = true → 0 < c.toNat ∧ c.toNat ≤ 0x5F := by
    intro c hc
    rcases isSpecial_iff.mp hc with rfl | rfl | rfl <;> decide
  refine Bool.eq_false_iff.mpr fun hspecial => ?_
  have hrange := hcodes _ hspecial
  omega

/-- No letter is lowered to a sign of patterns. -/
theorem not_isSpecial_of_mem_lowerBetween {before after : List Char} {c d : Char}
    (hc : isSpecial c = false) (hd : d ∈ lowerBetween before c after) : isSpecial d = false := by
  unfold lowerBetween lowerChar at hd
  split at hd
  · obtain rfl := List.mem_singleton.mp hd
    split <;> exact not_isSpecial_ofNat (by decide)
  · split at hd
    · rcases List.mem_cons.mp hd with rfl | hdot
      · rfl
      · obtain rfl := List.mem_singleton.mp hdot
        rfl
    · split at hd
      · next run hrun =>
          obtain rfl := List.mem_singleton.mp hd
          obtain ⟨hfirst, -⟩ : run.first ≤ c.toNat ∧ c.toNat ≤ run.last := by
            have hfound := List.find?_some hrun
            simp only [Bool.and_eq_true, decide_eq_true_eq] at hfound
            exact hfound.1
          have hbeyond := lowerRuns_beyond run (List.mem_of_find?_eq_some hrun)
          exact not_isSpecial_ofNat (by omega)
      · obtain rfl := List.mem_singleton.mp hd
        exact hc

/-! ### Patterns in lower case -/

/-- A text is escaped part by part. -/
theorem escape_append (one other : List Char) :
    escape (one ++ other) = escape one ++ escape other :=
  List.flatMap_append

/-- A text without special characters is escaped to itself. -/
theorem escape_of_ordinary {cs : List Char} (h : ∀ c ∈ cs, isSpecial c = false) :
    escape cs = cs := by
  induction cs with
  | nil => rfl
  | cons c rest ih =>
      rw [escape_ordinary (h c List.mem_cons_self),
        ih fun d hd => h d (List.mem_cons_of_mem c hd)]

/-- Before an escaped text a sigma meets what it meets before the text. -/
theorem meetsCased_escape (needle : List Char) {after after' : List Char}
    (h : meetsCased after = meetsCased after') :
    meetsCased (escape needle ++ after) = meetsCased (needle ++ after') := by
  induction needle with
  | nil => exact h
  | cons c rest ih =>
      cases hc : isSpecial c with
      | true =>
          have hsign : meetsCased ('\\' :: c :: escape rest ++ after) = false :=
            meetsCased_special rfl _
          rw [escape_special hc, hsign, List.cons_append, meetsCased_special hc]
      | false =>
          rw [escape_ordinary hc, List.cons_append, List.cons_append, meetsCased_cons,
            meetsCased_cons, ih]

/-- An escaped text is lowered to the lowered text, escaped, in places where a sigma meets the same
on both sides. -/
theorem lowerPart_escape {before after before' after' needle : List Char}
    (hbefore : meetsCased before = meetsCased before')
    (hafter : meetsCased after = meetsCased after') :
    lowerPart before (escape needle) after = escape (lowerPart before' needle after') := by
  induction needle generalizing before before' with
  | nil => rfl
  | cons c rest ih =>
      cases hc : isSpecial c with
      | true =>
          have hmeets : meetsCased (c :: '\\' :: before) = meetsCased (c :: before') := by
            rw [meetsCased_special hc, meetsCased_special hc]
          rw [escape_special hc, lowerPart, lowerPart, lowerPart, lowerBetween_special rfl,
            lowerBetween_special hc, lowerBetween_special hc, ih hmeets, List.singleton_append,
            List.singleton_append, List.singleton_append, escape_special hc]
      | false =>
          have hmeets : meetsCased (c :: before) = meetsCased (c :: before') := by
            rw [meetsCased_cons, meetsCased_cons, hbefore]
          have hfirst : lowerBetween before c (escape rest ++ after) =
              lowerBetween before' c (rest ++ after') :=
            lowerBetween_eq_iff.mpr fun _ => by
              rw [endsWord, endsWord, hbefore, meetsCased_escape rest hafter]
          rw [escape_ordinary hc, lowerPart, lowerPart, hfirst, ih hmeets, escape_append,
            escape_of_ordinary fun d hd => not_isSpecial_of_mem_lowerBetween hc hd]

/-- The pattern of a text is lowered to the pattern of the lowered text. -/
theorem lowercase_pattern (before after : Bool) (needle : String) :
    lowercase (pattern before after needle) = pattern before after (lowercase needle) := by
  have hescape : ∀ {front back : List Char}, meetsCased front = false → meetsCased back = false →
      lowerPart front (escape needle.toList) back = escape (lowerAfter [] needle.toList) := by
    intro front back hfront hback
    have hlowered := @lowerPart_escape front back [] [] needle.toList hfront hback
    rwa [lowerPart_nil] at hlowered
  have hpercent : ∀ front, lowerAfter front ['%'] = ['%'] := by
    intro front
    rw [lowerAfter_cons, lowerBetween_special rfl]
    rfl
  have hrest : ∀ {front : List Char}, meetsCased front = false →
      lowerAfter front (escape needle.toList ++ if after then ['%'] else []) =
        escape (lowerAfter [] needle.toList) ++ if after then ['%'] else [] := by
    intro front hfront
    cases after with
    | false =>
        rw [if_neg Bool.false_ne_true, List.append_nil, List.append_nil, ← lowerPart_nil,
          hescape hfront rfl]
    | true =>
        rw [if_pos rfl, lowerAfter_append, hescape hfront (meetsCased_special rfl []), hpercent]
  rw [lowercase, lowercase, pattern, pattern, String.toList_ofList, String.toList_ofList,
    List.append_assoc, List.append_assoc]
  cases before with
  | false => exact congrArg String.ofList (hrest rfl)
  | true =>
      have hfirst : meetsCased ['%'] = false := meetsCased_special rfl []
      rw [if_pos rfl, List.singleton_append, lowerAfter_cons, lowerBetween_special rfl,
        hrest hfirst]

end NestedQuery.Text
