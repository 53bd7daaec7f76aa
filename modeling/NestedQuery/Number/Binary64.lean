import NestedQuery.Number.Width

/-!
# Double-precision numbers

A double is not-a-number or a sign with a magnitude.  The magnitudes are
numbered in increasing order: rank `0` is zero, rank `topRank` is infinity, and
a larger rank is a larger number.  Comparing two doubles is then comparing two
integers, and rounding an exact quotient is finding a rank.  No runtime
floating-point operation is used, so every statement about a number here is a
statement about natural numbers.
-/

namespace NestedQuery

/-- The rank of infinity: there are `2047` exponents. -/
abbrev topRank : Nat := 2047 * perExponent

/-- A double-precision number. -/
inductive Binary64 where
  /-- The result of no arithmetic; it compares with nothing. -/
  | nan
  /-- The magnitude of this rank, below zero if `negative`; zero has both signs. -/
  | signed (negative : Bool) (rank : Fin (topRank + 1))
  deriving DecidableEq, Repr

namespace Binary64

/-- The double with the given sign and the magnitude of rank `rank`, infinity from `topRank` on. -/
def ofRank (negative : Bool) (rank : Nat) : Binary64 :=
  .signed negative ⟨min rank topRank, Nat.lt_succ_of_le (Nat.min_le_right _ _)⟩

/-- The integer that orders doubles: the rank with the sign, so both zeros share `0`. -/
def orderKey : Binary64 → Option Int
  | .nan => none
  | .signed negative rank => some (if negative then -(rank.val : Int) else rank.val)

/-- The order of doubles; not-a-number is comparable with nothing. -/
def compare (a b : Binary64) : Option Ordering := do
  let a ← a.orderKey
  let b ← b.orderKey
  return Ord.compare a b

/-- The whole significand of a finite magnitude. -/
def significand (rank : Nat) : Nat :=
  if rank < perExponent then rank else perExponent + rank % perExponent

/-- The power of two that scales the significand of a finite magnitude. -/
def exponent (rank : Nat) : Int :=
  if rank < perExponent then -1074 else (rank / perExponent : Nat) - 1075

/-- A positive quotient of natural numbers. -/
structure Ratio where
  num : Nat
  den : Nat
  deriving DecidableEq, Repr

/-- The quotient times `base ^ power`. -/
def Ratio.scale (q : Ratio) (base : Nat) (power : Int) : Ratio :=
  if 0 ≤ power then ⟨q.num * Nat.pow base power.toNat, q.den⟩
  else ⟨q.num, q.den * Nat.pow base (-power).toNat⟩

/-- The exact value of a finite magnitude. -/
def ratio (rank : Nat) : Ratio :=
  Ratio.scale ⟨significand rank, 1⟩ 2 (exponent rank)

/-- The quotient rounded to a natural number, halves to the even neighbour. -/
def Ratio.round (q : Ratio) : Nat :=
  let below := q.num / q.den
  let rest := 2 * (q.num % q.den)
  if rest < q.den then below
  else if q.den < rest then below + 1
  else below + below % 2

/-- The greatest `k` with `2 ^ k` at most the quotient, which is not zero. -/
def Ratio.log2 (q : Ratio) : Int :=
  let guess : Int := (q.num.log2 : Int) - q.den.log2
  let power := Ratio.scale ⟨1, 1⟩ 2 guess
  if power.num * q.den ≤ q.num * power.den then guess else guess - 1

/-- The rank of the magnitude nearest to the quotient, halves to the even rank; it exceeds
`topRank` when the quotient is beyond every finite magnitude. -/
def Ratio.rank (q : Ratio) : Nat :=
  if q.num = 0 then 0
  else
    let power := max (q.log2 - 52) (-1074)
    (power + 1074).toNat * perExponent + (q.scale 2 (-power)).round

/-- The double nearest to a quotient with the given sign. -/
def nearest (negative : Bool) (q : Ratio) : Binary64 :=
  ofRank negative q.rank

/-- The double nearest to an integer. -/
def ofInt (n : Int) : Binary64 :=
  nearest (n < 0) ⟨n.natAbs, 1⟩

/-- The whole number that the double is, if it is finite and whole. -/
def whole? : Binary64 → Option Int
  | .nan => none
  | .signed negative rank =>
    if rank.val = topRank then none
    else
      let q := ratio rank.val
      if q.num % q.den = 0 then
        let n : Int := (q.num / q.den : Nat)
        some (if negative then -n else n)
      else none

/-- Whether the double is at least zero; both zeros are. -/
def isNonneg (x : Binary64) : Bool :=
  match x.orderKey with
  | none => false
  | some key => decide (0 ≤ key)

end Binary64

end NestedQuery
