import NestedQuery.Instant
import NestedQuery.Json.Shape
import NestedQuery.Json.Writer
import NestedQuery.Number.Decimal

/-!
# Values

The scalars that rows hold and filters compare.  Comparison follows SQL: null
compares with nothing, kinds that do not match are incomparable, integers meet
doubles as doubles, and a text meets an instant by being read as one.  Beside
it stands the key of a value, a text under which equal values group and meet.
-/

namespace NestedQuery

/-- A scalar. -/
inductive Value where
  | null
  | boolean (b : Bool)
  | integer (n : Int)
  | float (x : Binary64)
  | text (s : String)
  | instant (t : Instant)
  deriving DecidableEq, Repr

namespace Value

/-- Whether the value is null. -/
def isNull : Value → Bool
  | .null => true
  | _ => false

/-- The text, of a text. -/
def text? : Value → Option String
  | .text s => some s
  | _ => none

/-- The integer, of an integer. -/
def integer? : Value → Option Int
  | .integer n => some n
  | _ => none

/-- The order of two values; none if one is null or their kinds do not compare. -/
def compare : Value → Value → Option Ordering
  | .integer a, .integer b => some (Ord.compare a b)
  | .float a, .float b => Binary64.compare a b
  | .integer a, .float b => Binary64.compare (Binary64.ofInt a) b
  | .float a, .integer b => Binary64.compare a (Binary64.ofInt b)
  | .text a, .text b => some (Ord.compare a b)
  | .boolean a, .boolean b => some (Ord.compare a b)
  | .instant a, .instant b => some (a.compare b)
  | .instant a, .text b => (Instant.parse? b).map a.compare
  | .text a, .instant b => (Instant.parse? a).map (·.compare b)
  | _, _ => none

/-- Whether two values are equal; null equals nothing. -/
def sqlEq (a b : Value) : Bool :=
  a.compare b == some .eq

/-- Whether two values are the same scalar, where doubles are the same as numbers are: the two
zeros are, and what is not a number is not even the same as itself. -/
def same : Value → Value → Bool
  | .float a, .float b => Binary64.compare a b == some .eq
  | a, b => a == b

/-- The order used for sorting, which takes incomparable values for equal. -/
def sortOrder (a b : Value) : Ordering :=
  (a.compare b).getD .eq

/-- The whole number that shares its key with a double: one below `signedBound` in magnitude. -/
def wholeKey? (x : Binary64) : Option Int :=
  match x.whole? with
  | some n => if n.natAbs < signedBound then some n else none
  | none => none

/-- The text under which a value groups and meets others: its kind and its digits, where a whole
double has the key of the integer. -/
def key : Value → String
  | .null => "null"
  | .boolean b => "b:" ++ toString b
  | .integer n => "n:" ++ toString n
  | .float x =>
    match wholeKey? x with
    | some n => "n:" ++ toString n
    | none => "f:" ++ x.plainText
  | .text s => "s:" ++ s
  | .instant t => "t:" ++ t.plainText

/-- The keys of several values in one text, a unit separator between them. -/
def jointKey (values : List Value) : String :=
  String.intercalate "\x1f" (values.map key)

/-- A text as a literal of a statement: in quotes, a quote inside written twice. -/
def quoted (s : String) : String :=
  "'" ++ String.ofList (s.toList.flatMap fun c => if c = '\'' then ['\'', '\''] else [c]) ++ "'"

/-- The value as a literal of a statement. -/
def literal : Value → String
  | .null => "NULL"
  | .boolean b => toString b
  | .integer n => toString n
  | .float x => x.plainText
  | .text s => quoted s
  | .instant t => "'" ++ t.plainText ++ "'"

/-- The value as a JSON document. -/
def toJson : Value → Json
  | .null => .null
  | .boolean b => .bool b
  | .integer n => .integer n
  | .float x => .float x
  | .text s => .string s
  | .instant t => .string t.jsonText

/-- Reads a scalar of a JSON document.  Whole numbers beyond 64 bits with a sign become doubles;
a text stays a text, whatever it says. -/
def ofJson? : Json → Option Value
  | .null => some .null
  | .bool b => some (.boolean b)
  | .integer n =>
    some (if n < signedBound then .integer n else .float (Binary64.ofInt n))
  | .float x => some (.float x)
  | .string s => some (.text s)
  | _ => none

end Value

end NestedQuery
