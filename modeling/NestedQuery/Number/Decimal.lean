import NestedQuery.Number.Binary64

/-!
# Decimal text of doubles

Writing: the digits of a double are the fewest that read back to the same
double, and of those the nearest.  The search tries one digit, then two, and so
on; on each decimal grid only the two neighbours of the exact value can be
hits, and all tests are exact.  A printing style decides how the digits are set
and which way an exact tie between two neighbours goes.

Reading: a literal of a JSON text is scaled in two roundings (significand
first, then one power of ten at a time), a literal of its own is rounded once.
-/

namespace NestedQuery

namespace Decimal

open Binary64

/-- A positive decimal: `digits` times a power of ten. -/
structure Digits where
  digits : Nat
  power : Int
  deriving DecidableEq, Repr

/-- Which neighbour an exact tie selects. -/
inductive Tie where
  | toEven
  | upward
  deriving DecidableEq, Repr

/-- Twice the quotient compared with twice another: `a < b`. -/
def less (a b : Ratio) : Bool :=
  decide (a.num * b.den < b.num * a.den)

/-- The reals between which a finite magnitude is the nearest one. -/
def interval (rank : Nat) : Ratio × Ratio :=
  let m := significand rank
  let e := exponent rank
  let low : Ratio :=
    if rank % perExponent = 0 && 2 * perExponent ≤ rank then Ratio.scale ⟨4 * m - 1, 1⟩ 2 (e - 2)
    else Ratio.scale ⟨2 * m - 1, 1⟩ 2 (e - 1)
  (low, Ratio.scale ⟨2 * m + 1, 1⟩ 2 (e - 1))

/-- Whether the decimal rounds to the magnitude: it lies in the interval, whose ends belong to
the even significands. -/
def hits (rank : Nat) (d : Digits) : Bool :=
  let value := Ratio.scale ⟨d.digits, 1⟩ 10 d.power
  let (low, high) := interval rank
  if rank % 2 = 0 then !less value low && !less high value
  else less low value && less value high

/-- The greatest `k` with `10 ^ k` at most the quotient, which is not zero. -/
def log10 (q : Ratio) : Int :=
  let guess : Int := (q.log2 * 1233) / 4096
  let below (k : Int) : Bool := !less q (Ratio.scale ⟨1, 1⟩ 10 k)
  if below (guess + 1) then guess + 1 else if below guess then guess else guess - 1

/-- The decimal that `n` digits give: a neighbour of the value on their grid, if one hits. -/
def onGrid (tie : Tie) (rank : Nat) (n : Nat) : Option Digits :=
  let q := ratio rank
  let power := log10 q - n + 1
  let scaled := q.scale 10 (-power)
  let below := scaled.num / scaled.den
  let low : Digits := ⟨below, power⟩
  let high : Digits := ⟨below + 1, power⟩
  match hits rank low, hits rank high with
  | false, false => none
  | true, false => some low
  | false, true => some high
  | true, true =>
    let rest := 2 * (scaled.num % scaled.den)
    if rest < scaled.den then some low
    else if scaled.den < rest then some high
    else match tie with
      | .upward => some high
      | .toEven => some (if below % 2 = 0 then low else high)

/-- Drops trailing zeros, which a neighbour that reached the next power of ten may have. -/
def Digits.trim : Nat → Digits → Digits
  | 0, d => d
  | steps + 1, d =>
    if d.digits ≠ 0 ∧ d.digits % 10 = 0 then trim steps ⟨d.digits / 10, d.power + 1⟩ else d

/-- The fewest digits that read back to a finite magnitude other than zero, and of those the
nearest; seventeen always suffice. -/
def shortest (tie : Tie) (rank : Nat) : Digits :=
  (((List.range 17).findSome? fun n => onGrid tie rank (n + 1)).getD ⟨0, 0⟩).trim 17

/-- The digits set without an exponent. -/
def Digits.plain (d : Digits) : String :=
  let text := (toString d.digits).toList
  if 0 ≤ d.power then String.ofList (text ++ List.replicate d.power.toNat '0')
  else
    let places := (-d.power).toNat
    let padded := List.replicate (places + 1 - text.length) '0' ++ text
    let split := padded.length - places
    String.ofList (padded.take split ++ '.' :: padded.drop split)

/-- The exponent of the first digit. -/
def Digits.order (d : Digits) : Int :=
  (toString d.digits).length - 1 + d.power

/-- The digits set with one digit before the point and an exponent with its sign. -/
def Digits.scientific (d : Digits) : String :=
  let mantissa :=
    match (toString d.digits).toList with
    | first :: second :: more => String.ofList (first :: '.' :: second :: more)
    | few => String.ofList few
  let sign := if d.order < 0 then "-" else "+"
  mantissa ++ "e" ++ sign ++ toString d.order.natAbs

end Decimal

namespace Binary64

open Decimal

/-- The sign of a double before its text. -/
def signText (negative : Bool) : String :=
  if negative then "-" else ""

/-- The text of a double in statements, keys and patterns: never an exponent, whole numbers
without a point, `-0` kept; exact ties go up. -/
def plainText : Binary64 → String
  | .nan => "NaN"
  | .signed negative rank =>
    signText negative ++
      if rank.val = topRank then "inf"
      else if rank.val = 0 then "0"
      else (shortest .upward rank.val).plain

/-- The text of a finite double in a JSON document: a whole number ends in `.0`, and from
`10 ^ 16` on or below `10 ^ (-5)` there is an exponent; exact ties go to even. -/
def jsonText? : Binary64 → Option String
  | .nan => none
  | .signed negative rank =>
    if rank.val = topRank then none
    else
      let body :=
        if rank.val = 0 then "0.0"
        else
          let d := shortest .toEven rank.val
          if -5 ≤ d.order ∧ d.order < 16 then
            if 0 ≤ d.power then d.plain ++ ".0" else d.plain
          else d.scientific
      some (signText negative ++ body)

/-- The magnitude nearest to `10 ^ n`. -/
def tenthPower (n : Nat) : Ratio :=
  ratio (Ratio.rank ⟨Nat.pow 10 n, 1⟩)

/-- Scales a magnitude by a power of ten with a rounding at every step of at most `308` powers;
none when it leaves the finite magnitudes. -/
def scaleRank (rank : Nat) (power : Int) : Option Nat :=
  if rank = 0 then some 0
  else if 308 < power then none
  else if power < -308 then
    let step := tenthPower 308
    let q := ratio rank
    scaleRank (Ratio.rank ⟨q.num * step.den, q.den * step.num⟩) (power + 308)
  else
    let step := tenthPower power.natAbs
    let q := ratio rank
    let scaled : Ratio :=
      if 0 ≤ power then ⟨q.num * step.num, q.den * step.den⟩
      else ⟨q.num * step.den, q.den * step.num⟩
    if scaled.rank < topRank then some scaled.rank else none
termination_by (-power).toNat
decreasing_by omega

/-- The double of a scaled significand: the significand is rounded first and then scaled. -/
def ofScaled? (negative : Bool) (significand : Nat) (power : Int) : Option Binary64 :=
  (scaleRank (Ratio.rank ⟨significand, 1⟩) power).map (ofRank negative)

/-- The double nearest to a decimal, rounded once; beyond the finite magnitudes it is infinite. -/
def ofDecimal (negative : Bool) (digits : Nat) (power : Int) : Binary64 :=
  let order : Int := (toString digits).length + power
  if digits = 0 ∨ order < -330 then ofRank negative 0
  else if 310 < order then ofRank negative topRank
  else nearest negative (Ratio.scale ⟨digits, 1⟩ 10 power)

/-- Reads the digits of `cs`, continuing `acc`. -/
def readDigits (acc : Nat) : List Char → Nat × List Char
  | [] => (acc, [])
  | c :: rest =>
    if c.isDigit then readDigits (10 * acc + (c.toNat - '0'.toNat)) rest else (acc, c :: rest)

/-- An exponent mark with its digits, or nothing. -/
def readExponent? : List Char → Option Int
  | [] => some 0
  | mark :: rest =>
    if mark = 'e' ∨ mark = 'E' then
      let (negative, digits) : Bool × List Char :=
        match rest with
        | '-' :: more => (true, more)
        | '+' :: more => (false, more)
        | more => (false, more)
      match digits, readDigits 0 digits with
      | _ :: _, (n, []) => some (if negative then -(n : Int) else n)
      | _, _ => none
    else none

/-- Reads an unsigned decimal: digits with an optional point and exponent, at least one digit. -/
def readUnsigned? (negative : Bool) (cs : List Char) : Option Binary64 :=
  let (whole, rest) := readDigits 0 cs
  let wholeCount := cs.length - rest.length
  let (digits, places, rest) :=
    match rest with
    | '.' :: more =>
      let (all, left) := readDigits whole more
      (all, more.length - left.length, left)
    | other => (whole, 0, other)
  if wholeCount + places = 0 then none
  else (readExponent? rest).map fun power => ofDecimal negative digits (power - places)

/-- Reads the text of a double on its own: a decimal with an optional sign, or the name of an
infinity or of not-a-number in any case. -/
def parse? (text : String) : Option Binary64 :=
  let (negative, body) : Bool × List Char :=
    match text.toList with
    | '-' :: rest => (true, rest)
    | '+' :: rest => (false, rest)
    | rest => (false, rest)
  let name := String.ofList (body.map Char.toLower)
  if name = "nan" then some .nan
  else if name = "inf" ∨ name = "infinity" then some (ofRank negative topRank)
  else readUnsigned? negative body

end Binary64

end NestedQuery
