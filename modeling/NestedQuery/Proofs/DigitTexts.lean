import Mathlib.Data.List.TakeWhile

/-!
# Digits in texts

A number is read off the digits that it is written in, also when zeros stand
before them, and off a text in which no digit follows them.
-/

namespace NestedQuery

/-- The characters are digits. -/
def AllDigits (cs : List Char) : Prop :=
  ∀ c ∈ cs, c.isDigit = true

instance (cs : List Char) : Decidable (AllDigits cs) :=
  List.decidableBAll (fun c : Char => c.isDigit = true) cs

/-- What has a property at the beginning of a list is told from what follows. -/
theorem split_of_all {α : Type} {p : α → Bool} {one other rest more : List α}
    (hone : ∀ a ∈ one, p a = true) (hother : ∀ a ∈ other, p a = true)
    (hrest : ∀ a ∈ rest.head?, p a = false) (hmore : ∀ a ∈ more.head?, p a = false)
    (h : one ++ rest = other ++ more) : one = other ∧ rest = more := by
  have hnone : ∀ {as : List α}, (∀ a ∈ as.head?, p a = false) → as.takeWhile p = [] := by
    intro as has
    cases as with
    | nil => rfl
    | cons a as => rw [List.takeWhile_cons_of_neg (by simp [has a rfl])]
  have htake := congrArg (List.takeWhile p) h
  rw [List.takeWhile_append_of_pos hone, List.takeWhile_append_of_pos hother, hnone hrest,
    hnone hmore, List.append_nil, List.append_nil] at htake
  subst htake
  exact ⟨rfl, List.append_cancel_left h⟩

/-- The digits at the beginning of a text are told from what follows. -/
theorem AllDigits.split {one other rest more : List Char} (hone : AllDigits one)
    (hother : AllDigits other) (hrest : ∀ c ∈ rest.head?, c.isDigit = false)
    (hmore : ∀ c ∈ more.head?, c.isDigit = false) (h : one ++ rest = other ++ more) :
    one = other ∧ rest = more :=
  split_of_all hone hother hrest hmore h

/-- A number is written in digits. -/
theorem allDigits_toDigits (n : Nat) : AllDigits (Nat.toDigits 10 n) :=
  fun _ hc => Nat.isDigit_of_mem_toDigits (by decide) (by decide) hc

theorem allDigits_zeros (zeros n : Nat) :
    AllDigits (List.replicate zeros '0' ++ Nat.toDigits 10 n) := by
  intro c hc
  rcases List.mem_append.mp hc with hzero | hdigit
  · rw [List.eq_of_mem_replicate hzero]
    rfl
  · exact allDigits_toDigits n c hdigit

/-- So its text consists of its digits. -/
theorem toList_toString (n : Nat) : (toString n).toList = Nat.toDigits 10 n := by
  rw [Nat.toString_eq_ofList_toDigits, String.toList_ofList]

/-- The text of an integer tells which integer it is. -/
theorem toString_int_injective {n m : Int} (h : toString n = toString m) : n = m := by
  have hnat : ∀ {k l : Nat}, toString k = toString l → k = l := by
    intro k l hsame
    rw [← @Nat.ofDigitChars_ten_toDigits k, ← toList_toString, hsame, toList_toString,
      Nat.ofDigitChars_ten_toDigits]
  have hsign : ∀ k l : Nat, toString k ≠ "-" ++ toString l := by
    intro k l hsame
    have htext := congrArg String.toList hsame
    rw [toList_toString, String.toList_append] at htext
    have hdigit := allDigits_toDigits k '-' (htext ▸ List.mem_append_left _ List.mem_cons_self)
    cases hdigit
  cases n with
  | ofNat k =>
      cases m with
      | ofNat l => exact congrArg Int.ofNat (hnat h)
      | negSucc l => exact absurd h (hsign k (l + 1))
  | negSucc k =>
      cases m with
      | ofNat l => exact absurd h.symm (hsign l (k + 1))
      | negSucc l =>
          have hmagnitude : toString (k + 1) = toString (l + 1) :=
            (String.append_right_inj _).mp (show "-" ++ toString (k + 1) = "-" ++ toString (l + 1) from h)
          rw [Nat.succ.inj (hnat hmagnitude)]

end NestedQuery
