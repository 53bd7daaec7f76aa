import NestedQuery.Plan.Predicate

/-!
# Numbered labels

The labels that a statement makes up end in a number, after a mark that is no
digit.  Two such labels are equal only if they have the same number, and then
what stands before it is the same too.
-/

namespace NestedQuery

/-- The digits of a number determine it. -/
theorem toList_toString_injective {n m : Nat}
    (h : (toString n).toList = (toString m).toList) : n = m := by
  rw [Nat.toString_eq_repr, Nat.toString_eq_repr, Nat.toList_repr, Nat.toList_repr] at h
  have hread := congrArg (fun digits => Nat.ofDigitChars 10 digits 0) h
  simpa using hread

/-- Every character of a number is a digit. -/
theorem isDigit_of_mem_toString {n : Nat} {c : Char} (h : c ∈ (toString n).toList) :
    c.isDigit := by
  rw [Nat.toString_eq_repr, Nat.toList_repr] at h
  exact Nat.isDigit_of_mem_toDigits (by decide) (by decide) h

/-- A number after a character that is no digit is read off the end. -/
theorem takeWhile_reverse_number {front : List Char} {mark : Char} (hmark : mark.isDigit = false)
    (n : Nat) :
    ((front ++ [mark]) ++ (toString n).toList).reverse.takeWhile Char.isDigit =
      (toString n).toList.reverse := by
  have hall : ∀ c ∈ (toString n).toList.reverse, c.isDigit = true :=
    fun c hc => isDigit_of_mem_toString (List.mem_reverse.mp hc)
  rw [List.reverse_append, List.takeWhile_append_of_pos hall, List.reverse_append,
    List.reverse_singleton, List.singleton_append, List.takeWhile_cons, hmark]
  simp

/-- Of equal texts that end in numbers, each after a character that is no digit, the numbers and
what stands before them are equal. -/
theorem number_injective {one other : List Char} {mark sign : Char}
    (hmark : mark.isDigit = false) (hsign : sign.isDigit = false) {n m : Nat}
    (h : one ++ [mark] ++ (toString n).toList = other ++ [sign] ++ (toString m).toList) :
    n = m ∧ one ++ [mark] = other ++ [sign] := by
  have hnumber : n = m := by
    have hends := congrArg (fun text => text.reverse.takeWhile Char.isDigit) h
    simp only [takeWhile_reverse_number hmark, takeWhile_reverse_number hsign] at hends
    exact toList_toString_injective (List.reverse_inj.mp hends)
  subst hnumber
  exact ⟨rfl, List.append_cancel_right h⟩

/-- A text that ends in a number has a digit as its last character. -/
theorem getLast?_number (front : List Char) (n : Nat) :
    ∃ c, (front ++ (toString n).toList).getLast? = some c ∧ c.isDigit := by
  have hne : (toString n).toList ≠ [] := by
    rw [Nat.toString_eq_repr, Nat.toList_repr]
    exact Nat.toDigits_ne_nil
  refine ⟨(toString n).toList.getLast hne, ?_, isDigit_of_mem_toString (List.getLast_mem hne)⟩
  rw [List.getLast?_append, List.getLast?_eq_some_getLast hne]
  rfl

/-- A name whose last character is no digit is no label. -/
theorem ne_subLabel {name : String} {c : Char} (hlast : name.toList.getLast? = some c)
    (hdigit : c.isDigit = false) (base : String) (n : Nat) : name ≠ subLabel base n := by
  intro heq
  rw [heq, subLabel, String.toList_append] at hlast
  obtain ⟨d, hd, hisDigit⟩ := getLast?_number (base ++ "_sq").toList n
  rw [hd] at hlast
  cases hlast
  rw [hdigit] at hisDigit
  cases hisDigit

/-- The label of a join is no label in predicates. -/
theorem label_ne_subLabel (name : String) (n : Nat) (base : String) (m : Nat) :
    name ++ "_" ++ toString n ≠ subLabel base m := by
  intro heq
  have hchars := congrArg String.toList heq
  simp only [subLabel, String.toList_append] at hchars
  have hmark : ("_sq" : String).toList = ['_', 's'] ++ ['q'] := by decide
  have hjoin : ("_" : String).toList = ['_'] := by decide
  rw [hmark, hjoin, ← List.append_assoc] at hchars
  obtain ⟨-, hbases⟩ := number_injective (by decide) (by decide) hchars
  have hlast := congrArg List.getLast? hbases
  simp at hlast

/-- Two labels in predicates are equal only if they have the same number and the same base. -/
theorem subLabel_injective {base other : String} {n m : Nat}
    (h : subLabel base n = subLabel other m) : n = m ∧ base = other := by
  have hchars := congrArg String.toList h
  simp only [subLabel, String.toList_append] at hchars
  have hmark : ("_sq" : String).toList = ['_', 's'] ++ ['q'] := by decide
  rw [hmark, ← List.append_assoc, ← List.append_assoc] at hchars
  obtain ⟨hnumber, hbase⟩ := number_injective (by decide) (by decide) hchars
  refine ⟨hnumber, String.toList_injective ?_⟩
  exact List.append_cancel_right (List.append_cancel_right hbase)

end NestedQuery
