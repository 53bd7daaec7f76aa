import Mathlib.Algebra.Group.Nat.Defs
import NestedQuery.Instant
import NestedQuery.Proofs.DigitTexts

/-!
# Texts of instants

The text of an instant gives the numbers of its date and time one after the
other, each ended by a mark that is no digit, so all of them can be read off.
They make up the instant: a day of the calendar is found again from its date,
and a sixtieth second is a leap second.
-/

namespace NestedQuery

namespace Instant

/-! ### Days and dates -/

/-- Within a century every fourth year is a leap year, of which `skipped` days before the century
tell how many came early. -/
theorem year_of_century {skipped day : Int} (hskipped : 0 ≤ skipped) (hfew : skipped ≤ 72)
    (hday : 0 ≤ day) (hlast : day ≤ 36524) :
    let year := (day - (skipped + day) / 1460) / 365
    0 ≤ year ∧ year < 100 ∧ 365 * year + year / 4 ≤ day ∧
      day ≤ 365 * year + year / 4 + 365 := by
  intro year
  obtain ⟨fours, rest, hsplit, hfours, hrest⟩ : ∃ fours rest, day = 1461 * fours + rest ∧
      (0 ≤ fours ∧ fours ≤ 24) ∧ (0 ≤ rest ∧ rest ≤ 1460) :=
    ⟨day / 1461, day % 1461, by omega, by omega, by omega⟩
  have hleap : (skipped + day) / 1460 = fours ∨
      (skipped + day) / 1460 = fours + 1 ∧ 1300 ≤ rest := by omega
  obtain ⟨more, hyear, hmore, hbefore, hafter⟩ : ∃ more, year = 4 * fours + more ∧
      (0 ≤ more ∧ more ≤ 3) ∧ 365 * more ≤ rest ∧ rest ≤ 365 * more + 365 := by
    refine ⟨year - 4 * fours, ?_⟩
    rcases hleap with hearly | ⟨hlate, _⟩
    · simp only [year, hearly]
      omega
    · simp only [year, hlate]
      omega
  rw [hyear]
  omega

/-- The year of an era in which a day lies, and how far the day is into it. -/
theorem year_of_era {day : Int} (hday : 0 ≤ day) (hlast : day < 146097) :
    let year := (day - day / 1460 + day / 36524 - day / 146096) / 365
    0 ≤ year ∧ year < 400 ∧ 365 * year + year / 4 - year / 100 ≤ day ∧
      day ≤ 365 * year + year / 4 - year / 100 + 365 := by
  intro year
  obtain ⟨century, rest, hcentury, hrest, hsplit, hskip⟩ : ∃ century rest,
      (0 ≤ century ∧ century ≤ 3) ∧ (0 ≤ rest ∧ rest ≤ 36524) ∧ day = 36524 * century + rest ∧
        day / 36524 - day / 146096 = century := by
    by_cases hend : day = 146096
    · exact ⟨3, 36524, by omega⟩
    · exact ⟨day / 36524, day % 36524, by omega⟩
  have hwithin := @year_of_century (24 * century) rest (by omega) (by omega) hrest.1 hrest.2
  have hyear : year = 100 * century + (rest - (24 * century + rest) / 1460) / 365 := by
    have hearlier : day / 1460 = 25 * century + (24 * century + rest) / 1460 := by omega
    simp only [year]
    omega
  revert hwithin
  rw [hyear]
  generalize (rest - (24 * century + rest) / 1460) / 365 = within
  intro hwithin
  obtain ⟨hfirst, hless, hbefore, hafter⟩ := hwithin
  have hleap : (100 * century + within) / 4 = 25 * century + within / 4 := by omega
  have hcenturies : (100 * century + within) / 100 = century := by omega
  rw [hleap, hcenturies]
  omega

/-- A day is found again from its date. -/
theorem days_ofDays (days : Int) : (Date.ofDays days).days = days := by
  have hera := Int.mul_ediv_add_emod (days + 719468) 146097
  have hfirst := Int.emod_nonneg (days + 719468) (show (146097 : Int) ≠ 0 by decide)
  have hlast := Int.emod_lt_of_pos (days + 719468) (show (0 : Int) < 146097 by decide)
  unfold Date.ofDays Date.days
  dsimp only
  simp only [Int.fdiv_eq_ediv_of_nonneg _ (show (0 : Int) ≤ 146097 by decide),
    Int.fdiv_eq_ediv_of_nonneg _ (show (0 : Int) ≤ 400 by decide)]
  generalize (days + 719468) / 146097 = era at hera ⊢
  have hday : days + 719468 - era * 146097 = (days + 719468) % 146097 := by omega
  rw [hday]
  generalize (days + 719468) % 146097 = day at hera hfirst hlast ⊢
  obtain ⟨hyear, hmost, hbefore, hafter⟩ := year_of_era hfirst hlast
  generalize (day - day / 1460 + day / 36524 - day / 146096) / 365 = year
    at hyear hmost hbefore hafter ⊢
  obtain ⟨rest, hrest⟩ : ∃ rest, rest = day - (365 * year + year / 4 - year / 100) := ⟨_, rfl⟩
  rw [← hrest]
  obtain ⟨month, hmonth⟩ : ∃ month, month = (5 * rest + 2) / 153 := ⟨_, rfl⟩
  rw [← hmonth]
  have hmonths : 0 ≤ month ∧ month ≤ 11 := by omega
  have hdays : 1 ≤ rest - (153 * month + 2) / 5 + 1 := by omega
  have hmarch : ((if month < 10 then month + 3 else month - 9).toNat : Int) =
      if month < 10 then month + 3 else month - 9 := by
    split <;> omega
  have hday : ((rest - (153 * month + 2) / 5 + 1).toNat : Int) =
      rest - (153 * month + 2) / 5 + 1 := by omega
  have hshift : ((if month < 10 then month + 3 else month - 9) + 9) % 12 = month := by
    split <;> omega
  have hspring : (if (if month < 10 then month + 3 else month - 9).toNat ≤ 2 then
      year + era * 400 + (if (if month < 10 then month + 3 else month - 9) ≤ 2 then 1 else 0) - 1
      else year + era * 400 + if (if month < 10 then month + 3 else month - 9) ≤ 2 then 1 else 0) =
        year + era * 400 := by
    split <;> split <;> split at * <;> omega
  have heras : (year + era * 400) / 400 = era := by omega
  rw [hspring, heras, hmarch, hday, hshift]
  have hwithin : year + era * 400 - era * 400 = year := by omega
  rw [hwithin]
  omega

/-! ### Numbers of fixed width -/

/-- A number is padded with zeros in front of its digits. -/
theorem toList_padded (width n : Nat) :
    (padded width n).toList =
      List.replicate (width - (Nat.toDigits 10 n).length) '0' ++ Nat.toDigits 10 n := by
  have hzeros : ∀ count, ("".pushn '0' count).toList = List.replicate count '0' := by
    intro count
    rw [String.pushn_eq_repeat_push]
    induction count with
    | zero => rfl
    | succ count ih =>
        rw [Nat.repeat, String.toList_push, ih, ← List.replicate_succ']
  unfold padded
  dsimp only
  rw [String.toList_append, hzeros, Nat.toString_eq_ofList_toDigits, String.toList_ofList,
    String.length_ofList]

/-- So it is written in digits. -/
theorem allDigits_padded (width n : Nat) : AllDigits (padded width n).toList := by
  rw [toList_padded]
  exact allDigits_zeros _ n

/-- Padding does not change the number that is read. -/
theorem ofDigitChars_padded (width n : Nat) : Nat.ofDigitChars 10 (padded width n).toList 0 = n := by
  rw [toList_padded, Nat.ofDigitChars_append, Nat.ofDigitChars_replicate_zero, Nat.mul_zero,
    Nat.ofDigitChars_ten_toDigits]

/-- A padded number is read off a text with the mark that ends it. -/
theorem padded_split {width one other : Nat} {rest more : List Char}
    (hrest : ∀ c ∈ rest.head?, c.isDigit = false) (hmore : ∀ c ∈ more.head?, c.isDigit = false)
    (h : (padded width one).toList ++ rest = (padded width other).toList ++ more) :
    one = other ∧ rest = more := by
  obtain ⟨hdigits, htail⟩ :=
    AllDigits.split (allDigits_padded width one) (allDigits_padded width other) hrest hmore h
  refine ⟨?_, htail⟩
  rw [← ofDigitChars_padded width one, hdigits, ofDigitChars_padded]

/-- It begins with a digit. -/
theorem head_padded (width n : Nat) :
    ∃ c rest, (padded width n).toList = c :: rest ∧ c.isDigit = true := by
  have hsome : (padded width n).toList ≠ [] := by
    rw [toList_padded]
    exact List.append_ne_nil_of_right_ne_nil _ Nat.toDigits_ne_nil
  obtain ⟨c, rest, htext⟩ := List.exists_cons_of_ne_nil hsome
  exact ⟨c, rest, htext, allDigits_padded width n c (htext ▸ List.mem_cons_self)⟩

/-- The sign of a year that is written with one. -/
def yearSign (year : Int) : List Char :=
  if 0 ≤ year ∧ year ≤ 9999 then [] else if year < 0 then ['-'] else ['+']

/-- A year is written as its sign and its number, padded. -/
theorem toList_yearText (year : Int) :
    (yearText year).toList = yearSign year ++ (padded 4 year.natAbs).toList := by
  unfold yearText yearSign
  split
  · next hplain =>
      have hnat : year.toNat = year.natAbs := by omega
      rw [hnat, List.nil_append]
  · rw [String.toList_append]
    split <;> rfl

/-- It has no sign, or one that fits. -/
theorem yearSign_cases (year : Int) :
    yearSign year = [] ∧ 0 ≤ year ∨ yearSign year = ['-'] ∧ year < 0 ∨
      yearSign year = ['+'] ∧ 0 ≤ year := by
  unfold yearSign
  split
  · next hplain => exact Or.inl ⟨rfl, hplain.1⟩
  · split
    · next hnegative => exact Or.inr (Or.inl ⟨rfl, hnegative⟩)
    · next hpositive => exact Or.inr (Or.inr ⟨rfl, Int.not_lt.mp hpositive⟩)

/-- A year is read off a text with the mark that ends it. -/
theorem year_split {one other : Int} {rest more : List Char}
    (h : (yearText one).toList ++ '-' :: rest = (yearText other).toList ++ '-' :: more) :
    one = other ∧ rest = more := by
  have hclash : ∀ {mark : Char} {n : Nat} {cs ds : List Char}, mark.isDigit = false →
      mark :: cs ≠ (padded 4 n).toList ++ ds := by
    intro mark n cs ds hmark heq
    obtain ⟨c, tail, htext, hdigit⟩ := head_padded 4 n
    rw [htext] at heq
    rw [← (List.cons.inj heq).1, hmark] at hdigit
    cases hdigit
  have hminus : Char.isDigit '-' = false := rfl
  have hplus : Char.isDigit '+' = false := rfl
  have hmark : ∀ (cs : List Char), ∀ c ∈ ('-' :: cs).head?, c.isDigit = false := by
    rintro cs c ⟨⟩
    rfl
  have hread : ∀ {n m : Nat}, (padded 4 n).toList ++ '-' :: rest = (padded 4 m).toList ++ '-' :: more →
      n = m ∧ rest = more := by
    intro n m heq
    obtain ⟨hnumber, htail⟩ := padded_split (hmark rest) (hmark more) heq
    exact ⟨hnumber, (List.cons.inj htail).2⟩
  rw [toList_yearText, toList_yearText, List.append_assoc, List.append_assoc] at h
  rcases yearSign_cases one with ⟨hone, hfirst⟩ | ⟨hone, hfirst⟩ | ⟨hone, hfirst⟩ <;>
    rcases yearSign_cases other with ⟨hother, hsecond⟩ | ⟨hother, hsecond⟩ | ⟨hother, hsecond⟩ <;>
    simp only [hone, hother, List.nil_append, List.singleton_append] at h
  case inl.inl =>
    obtain ⟨hnumber, htail⟩ := hread h
    exact ⟨by omega, htail⟩
  case inl.inr.inl => exact absurd h.symm (hclash hminus)
  case inl.inr.inr => exact absurd h.symm (hclash hplus)
  case inr.inl.inl => exact absurd h (hclash hminus)
  case inr.inl.inr.inl =>
    obtain ⟨hnumber, htail⟩ := hread (List.cons.inj h).2
    exact ⟨by omega, htail⟩
  case inr.inl.inr.inr => exact absurd (List.cons.inj h).1 (by decide)
  case inr.inr.inl => exact absurd h (hclash hplus)
  case inr.inr.inr.inl => exact absurd (List.cons.inj h).1 (by decide)
  case inr.inr.inr.inr =>
    obtain ⟨hnumber, htail⟩ := hread (List.cons.inj h).2
    exact ⟨by omega, htail⟩

/-- A fraction other than nothing is a point with a number of 3, 6 or 9 digits. -/
theorem toList_fractionText {nanos : Nat} (hpos : nanos ≠ 0) (hnanos : nanos < 1000000000) :
    ∃ width part, (fractionText nanos).toList = '.' :: (padded width part).toList ∧
      (padded width part).toList.length = width ∧ nanos = part * 10 ^ (9 - width) := by
  have hlength : ∀ {width part}, 0 < width → part < 10 ^ width →
      (padded width part).toList.length = width := by
    intro width part hwidth hpart
    have hdigits := (Nat.length_toDigits_le_iff (by decide) hwidth).mpr hpart
    rw [toList_padded, List.length_append, List.length_replicate]
    omega
  unfold fractionText
  rw [if_neg hpos]
  split
  · exact ⟨3, nanos / 1000000, String.toList_append, hlength (by decide) (by omega), by omega⟩
  · split
    · exact ⟨6, nanos / 1000, String.toList_append, hlength (by decide) (by omega), by omega⟩
    · exact ⟨9, nanos, String.toList_append, hlength (by decide) (by omega), by omega⟩

/-- A fraction is read off a text with the offset that ends it. -/
theorem fraction_split {one other : Nat} (hone : one < 1000000000) (hother : other < 1000000000)
    {rest : List Char}
    (h : (fractionText one).toList ++ '+' :: rest = (fractionText other).toList ++ '+' :: rest) :
    one = other := by
  have hmark : ∀ c ∈ ('+' :: rest).head?, c.isDigit = false := by
    rintro c ⟨⟩
    rfl
  have hnone : (fractionText 0).toList = [] := rfl
  by_cases hzero : one = 0
  · by_cases hsame : other = 0
    · rw [hzero, hsame]
    · obtain ⟨width, part, htext, -⟩ := toList_fractionText hsame hother
      rw [hzero, hnone, htext] at h
      exact absurd (List.cons.inj h).1 (by decide)
  · obtain ⟨width, part, htext, hwidth, hvalue⟩ := toList_fractionText hzero hone
    by_cases hsame : other = 0
    · rw [hsame, hnone, htext] at h
      exact absurd (List.cons.inj h).1 (by decide)
    · obtain ⟨otherWidth, otherPart, hotherText, hotherWidth, hotherValue⟩ :=
        toList_fractionText hsame hother
      rw [htext, hotherText] at h
      have hdigits := (AllDigits.split (allDigits_padded width part)
        (allDigits_padded otherWidth otherPart) hmark hmark (List.cons.inj h).2).1
      have hwidths : width = otherWidth := by
        rw [← hwidth, hdigits, hotherWidth]
      have hparts : part = otherPart := by
        rw [← ofDigitChars_padded width part, hdigits, ofDigitChars_padded]
      rw [hvalue, hotherValue, hwidths, hparts]

/-! ### Instants -/

/-- Nanoseconds beyond a billion stand for a leap second, which only ends a minute. -/
def Valid (t : Instant) : Prop :=
  t.nanos < 1000000000 ∨ t.nanos < 2000000000 ∧ t.seconds % 60 = 59

instance (t : Instant) : Decidable t.Valid :=
  inferInstanceAs (Decidable (_ ∨ _ ∧ _))

/-- The numbers of an instant in its text, each with the mark that ends it. -/
theorem toList_plainText (t : Instant) :
    let date := Date.ofDays (t.seconds.fdiv 86400)
    let time := (t.seconds.fmod 86400).toNat
    t.plainText.toList = (yearText date.year).toList ++ '-' ::
      ((padded 2 date.month).toList ++ '-' :: ((padded 2 date.day).toList ++ 'T' ::
        ((padded 2 (time / 3600)).toList ++ ':' :: ((padded 2 (time / 60 % 60)).toList ++ ':' ::
          ((padded 2 (time % 60 + t.nanos / 1000000000)).toList ++
            ((fractionText (t.nanos % 1000000000)).toList ++ '+' :: "00:00".toList)))))) := by
  have hdash : "-".toList = ['-'] := by decide
  have hcolon : ":".toList = [':'] := by decide
  have hletter : "T".toList = ['T'] := by decide
  have hoffset : "+00:00".toList = '+' :: "00:00".toList := by decide
  intro date time
  unfold plainText stampText
  simp only [String.toList_append, List.append_assoc, hdash, hcolon, hletter, hoffset,
    List.singleton_append]
  rfl

/-- The text of an instant in keys tells which instant it is. -/
theorem plainText_injective {s t : Instant} (hs : s.Valid) (ht : t.Valid)
    (h : s.plainText = t.plainText) : s = t := by
  have hmark : ∀ {mark : Char}, mark.isDigit = false → ∀ (cs : List Char),
      ∀ c ∈ (mark :: cs).head?, c.isDigit = false := by
    rintro mark hmark cs c ⟨⟩
    exact hmark
  have hminus : Char.isDigit '-' = false := rfl
  have hcolon : Char.isDigit ':' = false := rfl
  have hletter : Char.isDigit 'T' = false := rfl
  have hfraction : ∀ (n : Nat) (cs : List Char), n < 1000000000 →
      ∀ c ∈ ((fractionText n).toList ++ '+' :: cs).head?, c.isDigit = false := by
    intro n cs hn c hc
    by_cases hzero : n = 0
    · rw [hzero] at hc
      cases hc
      rfl
    · obtain ⟨width, part, htext, -⟩ := toList_fractionText hzero hn
      rw [htext] at hc
      cases hc
      rfl
  have htext := congrArg String.toList h
  rw [toList_plainText, toList_plainText] at htext
  generalize "00:00".toList = offset at htext
  obtain ⟨hyear, htext⟩ := year_split htext
  obtain ⟨hmonth, htext⟩ := padded_split (hmark hminus _) (hmark hminus _) htext
  obtain ⟨hday, htext⟩ := padded_split (hmark hletter _) (hmark hletter _) (List.cons.inj htext).2
  obtain ⟨hhour, htext⟩ := padded_split (hmark hcolon _) (hmark hcolon _) (List.cons.inj htext).2
  obtain ⟨hminute, htext⟩ := padded_split (hmark hcolon _) (hmark hcolon _) (List.cons.inj htext).2
  obtain ⟨hsecond, htext⟩ := padded_split (hfraction _ _ (Nat.mod_lt _ (by decide)))
    (hfraction _ _ (Nat.mod_lt _ (by decide))) (List.cons.inj htext).2
  have hnanos := fraction_split (Nat.mod_lt _ (by decide)) (Nat.mod_lt _ (by decide)) htext
  have hdate : Date.ofDays (s.seconds.fdiv 86400) = Date.ofDays (t.seconds.fdiv 86400) := by
    generalize Date.ofDays (s.seconds.fdiv 86400) = one at hyear hmonth hday ⊢
    generalize Date.ofDays (t.seconds.fdiv 86400) = other at hyear hmonth hday ⊢
    cases one
    cases other
    rw [Date.mk.injEq]
    exact ⟨hyear, hmonth, hday⟩
  have hdays : s.seconds.fdiv 86400 = t.seconds.fdiv 86400 := by
    rw [← days_ofDays (s.seconds.fdiv 86400), hdate, days_ofDays]
  clear hyear hmonth hday hdate htext h hmark hfraction
  obtain ⟨seconds, nanos⟩ := s
  obtain ⟨others, more⟩ := t
  unfold Valid at hs ht
  dsimp only at *
  rw [Int.fdiv_eq_ediv_of_nonneg _ (by decide), Int.fdiv_eq_ediv_of_nonneg _ (by decide)] at hdays
  rw [Int.fmod_eq_emod_of_nonneg _ (by decide), Int.fmod_eq_emod_of_nonneg _ (by decide)]
    at hhour hminute hsecond
  obtain ⟨time, htime⟩ : ∃ time, time = (seconds % 86400).toNat := ⟨_, rfl⟩
  obtain ⟨hours, hhours⟩ : ∃ hours, hours = (others % 86400).toNat := ⟨_, rfl⟩
  rw [← htime, ← hhours] at hhour hminute hsecond
  have hsum : seconds = 86400 * (seconds / 86400) + time := by omega
  have hother : others = 86400 * (others / 86400) + hours := by omega
  have hleap : time % 60 = hours % 60 ∧ nanos / 1000000000 = more / 1000000000 := by omega
  have hsame : time = hours := by omega
  rw [Instant.mk.injEq]
  omega

end Instant

end NestedQuery
