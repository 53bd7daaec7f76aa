/-!
# Instants

An instant is a second of the proleptic Gregorian calendar in universal time
with a count of nanoseconds.  A leap second is the second before it with at
least a billion nanoseconds, so instants are ordered by seconds and then by
nanoseconds.  Instants are read from and written to the internet date and time
format; an offset is applied on reading and never written back.
-/

namespace NestedQuery

/-- A point in time: seconds since the start of 1970, and nanoseconds below two billion. -/
structure Instant where
  seconds : Int
  nanos : Nat
  deriving DecidableEq, Repr

namespace Instant

/-- Earlier seconds come first, then fewer nanoseconds. -/
def compare (a b : Instant) : Ordering :=
  (Ord.compare a.seconds b.seconds).then (Ord.compare a.nanos b.nanos)

/-- A day of the calendar. -/
structure Date where
  year : Int
  month : Nat
  day : Nat
  deriving DecidableEq, Repr

/-- Whether the year has a 29th of February. -/
def isLeap (year : Int) : Bool :=
  year % 4 == 0 && (year % 100 != 0 || year % 400 == 0)

/-- The number of days of a month, none outside the twelve months. -/
def monthLength (year : Int) (month : Nat) : Nat :=
  match month with
  | 2 => if isLeap year then 29 else 28
  | 4 | 6 | 9 | 11 => 30
  | 1 | 3 | 5 | 7 | 8 | 10 | 12 => 31
  | _ => 0

/-- Days from the start of 1970, counted in years that begin in March and eras of 400 years. -/
def Date.days (d : Date) : Int :=
  let year := if d.month ≤ 2 then d.year - 1 else d.year
  let era := year.fdiv 400
  let yearOfEra := year - era * 400
  let dayOfYear : Int := (153 * ((d.month + 9) % 12) + 2) / 5 + d.day - 1
  era * 146097 + (yearOfEra * 365 + yearOfEra / 4 - yearOfEra / 100 + dayOfYear) - 719468

/-- The date a number of days from the start of 1970. -/
def Date.ofDays (days : Int) : Date :=
  let shifted := days + 719468
  let era := shifted.fdiv 146097
  let dayOfEra := shifted - era * 146097
  let yearOfEra := (dayOfEra - dayOfEra / 1460 + dayOfEra / 36524 - dayOfEra / 146096) / 365
  let dayOfYear := dayOfEra - (365 * yearOfEra + yearOfEra / 4 - yearOfEra / 100)
  let marchMonth := (5 * dayOfYear + 2) / 153
  let day := dayOfYear - (153 * marchMonth + 2) / 5 + 1
  let month := if marchMonth < 10 then marchMonth + 3 else marchMonth - 9
  ⟨yearOfEra + era * 400 + (if month ≤ 2 then 1 else 0), month.toNat, day.toNat⟩

/-! ### Reading -/

/-- Reads exactly `count` digits. -/
def readNumber? (count : Nat) (cs : List Char) : Option (Nat × List Char) :=
  let digits := cs.take count
  if digits.length = count ∧ digits.all Char.isDigit then
    some (digits.foldl (fun n c => 10 * n + (c.toNat - '0'.toNat)) 0, cs.drop count)
  else none

/-- Reads one of the given characters. -/
def readMark? (marks : List Char) : List Char → Option (List Char)
  | [] => none
  | c :: rest => if marks.contains c then some rest else none

/-- Reads a number of `count` digits that is at most `most`. -/
def readAtMost? (count most : Nat) (cs : List Char) : Option (Nat × List Char) := do
  let (n, rest) ← readNumber? count cs
  if n ≤ most then return (n, rest) else none

/-- Reads an optional fraction of a second as nanoseconds; digits beyond the ninth are cut off. -/
def readFraction? : List Char → Option (Nat × List Char)
  | '.' :: rest =>
    let digits := rest.takeWhile Char.isDigit
    if digits.isEmpty then none
    else
      let nine := (digits ++ List.replicate 9 '0').take 9
      some (nine.foldl (fun n c => 10 * n + (c.toNat - '0'.toNat)) 0, rest.dropWhile Char.isDigit)
  | cs => some (0, cs)

/-- Reads the offset that ends the text as minutes: the letter of universal time, or a sign with
hours and minutes.  The sign may be the typographic minus. -/
def readOffset? : List Char → Option Int
  | ['Z'] | ['z'] => some 0
  | sign :: rest => do
    let negative ←
      if sign = '+' then some false
      else if sign = '-' ∨ sign.toNat = 0x2212 then some true
      else none
    let (hours, rest) ← readAtMost? 2 23 rest
    let rest ← readMark? [':'] rest
    let (minutes, rest) ← readAtMost? 2 59 rest
    if rest.isEmpty then
      let offset : Int := hours * 60 + minutes
      return if negative then -offset else offset
    else none
  | [] => none

/-- Reads a date and time with its offset; the sixtieth second is a leap second. -/
def parse? (text : String) : Option Instant := do
  let (year, rest) ← readNumber? 4 text.toList
  let rest ← readMark? ['-'] rest
  let (month, rest) ← readNumber? 2 rest
  let rest ← readMark? ['-'] rest
  let (day, rest) ← readNumber? 2 rest
  let rest ← readMark? ['T', 't', ' '] rest
  let (hour, rest) ← readAtMost? 2 23 rest
  let rest ← readMark? [':'] rest
  let (minute, rest) ← readAtMost? 2 59 rest
  let rest ← readMark? [':'] rest
  let (second, rest) ← readAtMost? 2 60 rest
  let (nanos, rest) ← readFraction? rest
  let offset ← readOffset? rest
  if 1 ≤ day ∧ day ≤ monthLength year month then
    let time : Int := (hour * 60 + minute) * 60 + min second 59
    let leap := if second = 60 then 1000000000 else 0
    return ⟨Date.days ⟨year, month, day⟩ * 86400 + time - offset * 60, nanos + leap⟩
  else none

/-! ### Writing -/

/-- The decimal digits of a number, with zeros in front up to `width` digits. -/
def padded (width n : Nat) : String :=
  let digits := toString n
  "".pushn '0' (width - digits.length) ++ digits

/-- A year of four digits, or with a sign when it is before the first or beyond four digits. -/
def yearText (year : Int) : String :=
  if 0 ≤ year ∧ year ≤ 9999 then padded 4 year.toNat
  else (if year < 0 then "-" else "+") ++ padded 4 year.natAbs

/-- A fraction of a second in the fewest of 3, 6 or 9 digits that hold it, nothing for none. -/
def fractionText (nanos : Nat) : String :=
  if nanos = 0 then ""
  else if nanos % 1000000 = 0 then "." ++ padded 3 (nanos / 1000000)
  else if nanos % 1000 = 0 then "." ++ padded 6 (nanos / 1000)
  else "." ++ padded 9 nanos

/-- The date and time in universal time, without an offset. -/
def stampText (t : Instant) : String :=
  let date := Date.ofDays (t.seconds.fdiv 86400)
  let time := (t.seconds.fmod 86400).toNat
  let leap := t.nanos / 1000000000
  yearText date.year ++ "-" ++ padded 2 date.month ++ "-" ++ padded 2 date.day ++ "T"
    ++ padded 2 (time / 3600) ++ ":" ++ padded 2 (time / 60 % 60) ++ ":"
    ++ padded 2 (time % 60 + leap) ++ fractionText (t.nanos % 1000000000)

/-- The text of an instant in statements and keys, its offset written as `+00:00`. -/
def plainText (t : Instant) : String :=
  t.stampText ++ "+00:00"

/-- The text of an instant in a JSON document, its offset written as `Z`. -/
def jsonText (t : Instant) : String :=
  t.stampText ++ "Z"

end Instant

end NestedQuery
