import NestedQuery.Json.Basic
import NestedQuery.Number.Decimal

/-!
# JSON tokens

A text splits into marks, strings and words.  A word is a maximal run of
letters, digits, signs and points: one of the three literals or a number.
Splitting fails where the text is malformed in any context; a string or a
number that stands for nothing becomes a flawed token.
-/

namespace NestedQuery.Json

/-- The pieces of a JSON text. -/
inductive Token where
  | openObject
  | closeObject
  | openArray
  | closeArray
  | comma
  | colon
  /-- A string; none if an escape in it is half of a surrogate pair. -/
  | string (s : Option String)
  /-- A literal or a number. -/
  | word (value : Json)

/-- The mark that a character is on its own. -/
def Token.mark? : Char → Option Token
  | '{' => some .openObject
  | '}' => some .closeObject
  | '[' => some .openArray
  | ']' => some .closeArray
  | ',' => some .comma
  | ':' => some .colon
  | _ => none

/-- Whether the character only separates tokens. -/
def isSpace (c : Char) : Bool :=
  c = ' ' || c = '\n' || c = '\t' || c = '\r'

/-- Whether the character can stand in a word. -/
def isWordChar (c : Char) : Bool :=
  c.isAlphanum || c = '-' || c = '+' || c = '.'

/-! ### Numbers -/

/-- The greatest significand that is kept exactly while a number is read. -/
def significandLimit : Nat := unsignedBound - 1

/-- Reads digits into a significand while it stays within the limit.  Gives the significand, how
many digits it took, how many more digits followed, and the rest. -/
def readSignificand (acc taken : Nat) : List Char → Nat × Nat × Nat × List Char
  | [] => (acc, taken, 0, [])
  | c :: rest =>
    if c.isDigit then
      let next := 10 * acc + (c.toNat - '0'.toNat)
      if next ≤ significandLimit then readSignificand next (taken + 1) rest
      else
        let left := (c :: rest).dropWhile Char.isDigit
        (acc, taken, (c :: rest).length - left.length, left)
    else (acc, taken, 0, c :: rest)

/-- The number with the given significand and power of ten; flawed beyond the doubles. -/
def scaledNumber (negative : Bool) (significand : Nat) (power : Int) : Json :=
  match Binary64.ofScaled? negative significand power with
  | some x => .float x
  | none => .flawed

/-- A number without point and exponent. -/
def wholeNumber (negative : Bool) (significand : Nat) : Json :=
  if negative then
    if significand = 0 ∨ signedBound < significand then
      .float (Binary64.nearest true ⟨significand, 1⟩)
    else .integer (-(significand : Int))
  else .integer significand

/-- Reads what follows the whole part of a number: its fraction and its exponent. -/
def readFraction? (negative : Bool) (significand dropped : Nat) (rest : List Char) :
    Option Json :=
  match rest with
  | '.' :: places =>
    let (all, taken, skipped, left) := readSignificand significand 0 places
    if taken + skipped = 0 then none
    else (Binary64.readExponent? left).map fun power =>
      scaledNumber negative all (dropped - taken + power)
  | _ => (Binary64.readExponent? rest).map fun power =>
      scaledNumber negative significand (dropped + power)

/-- Reads a number, which has no needless zero in front. -/
def readNumber? (cs : List Char) : Option Json :=
  let (negative, digits) : Bool × List Char :=
    match cs with
    | '-' :: rest => (true, rest)
    | rest => (false, rest)
  match digits with
  | first :: more =>
    if !first.isDigit then none
    else if first = '0' && (more.head?.any Char.isDigit) then none
    else
      let (significand, _, dropped, rest) := readSignificand 0 0 digits
      if rest.isEmpty && dropped = 0 then some (wholeNumber negative significand)
      else readFraction? negative significand dropped rest
  | [] => none

/-- Reads a word. -/
def readWord? (cs : List Char) : Option Json :=
  if cs = "null".toList then some .null
  else if cs = "true".toList then some (.bool true)
  else if cs = "false".toList then some (.bool false)
  else readNumber? cs

/-! ### Strings -/

/-- The value of a hexadecimal digit. -/
def hexDigit? (c : Char) : Option Nat :=
  if c.isDigit then some (c.toNat - '0'.toNat)
  else if 'a' ≤ c ∧ c ≤ 'f' then some (c.toNat - 'a'.toNat + 10)
  else if 'A' ≤ c ∧ c ≤ 'F' then some (c.toNat - 'A'.toNat + 10)
  else none

/-- The value of four hexadecimal digits. -/
def hexUnit? (a b c d : Char) : Option Nat := do
  let a ← hexDigit? a
  let b ← hexDigit? b
  let c ← hexDigit? c
  let d ← hexDigit? d
  return ((a * 16 + b) * 16 + c) * 16 + d

/-- The character that a short escape stands for. -/
def shortEscape? : Char → Option Char
  | '"' => some '"'
  | '\\' => some '\\'
  | '/' => some '/'
  | 'b' => some (Char.ofNat 8)
  | 'f' => some (Char.ofNat 12)
  | 'n' => some '\n'
  | 'r' => some '\r'
  | 't' => some '\t'
  | _ => none

/-- Whether a unit opens a surrogate pair. -/
def isHighUnit (u : Nat) : Bool := 0xD800 ≤ u && u ≤ 0xDBFF

/-- Whether a unit closes a surrogate pair. -/
def isLowUnit (u : Nat) : Bool := 0xDC00 ≤ u && u ≤ 0xDFFF

/-- What a string is written with: a character, or a numbered unit, which may be half of a
character. -/
inductive StringPart where
  | char (c : Char)
  | unit (u : Nat)

/-- Reads the inside of a string up to its closing quote, after the parts `done`, the last
first. -/
def readParts? (done : List StringPart) : List Char → Option (List StringPart × List Char)
  | [] => none
  | '"' :: rest => some (done.reverse, rest)
  | '\\' :: 'u' :: a :: b :: c :: d :: rest =>
    match hexUnit? a b c d with
    | some u => readParts? (.unit u :: done) rest
    | none => none
  | '\\' :: e :: rest =>
    match shortEscape? e with
    | some c => readParts? (.char c :: done) rest
    | none => none
  | c :: rest =>
    if c = '\\' ∨ c.toNat < 0x20 then none else readParts? (.char c :: done) rest

/-- The characters that the parts stand for; none if a unit is half of a pair without its other
half. -/
def joinParts? : List StringPart → Option (List Char)
  | [] => some []
  | .char c :: rest => (joinParts? rest).map (c :: ·)
  | .unit high :: .unit low :: rest =>
    if isHighUnit high && isLowUnit low then
      let code := 0x10000 + (high - 0xD800) * 0x400 + (low - 0xDC00)
      (joinParts? rest).map (Char.ofNat code :: ·)
    else if isHighUnit high || isLowUnit high then none
    else (joinParts? (.unit low :: rest)).map (Char.ofNat high :: ·)
  | .unit u :: rest =>
    if isHighUnit u || isLowUnit u then none
    else (joinParts? rest).map (Char.ofNat u :: ·)

/-- Reading a string leaves less than there was. -/
theorem readParts?_length {done : List StringPart} {cs : List Char}
    {parts : List StringPart} {rest : List Char} (h : readParts? done cs = some (parts, rest)) :
    rest.length < cs.length := by
  fun_induction readParts? done cs <;> simp_all <;> omega

/-! ### Texts -/

/-- Splits a text into tokens, after the tokens `done`, the last first. -/
def readTokens? (done : List Token) (cs : List Char) : Option (List Token) :=
  match cs with
  | [] => some done.reverse
  | c :: rest =>
    if isSpace c then readTokens? done rest
    else match Token.mark? c with
      | some mark => readTokens? (mark :: done) rest
      | none =>
        if c = '"' then
          match h : readParts? [] rest with
          | none => none
          | some (parts, left) =>
            have : left.length < rest.length := readParts?_length h
            readTokens? (.string ((joinParts? parts).map String.ofList) :: done) left
        else if isWordChar c then
          match readWord? (c :: rest.takeWhile isWordChar) with
          | none => none
          | some value =>
            have : (rest.dropWhile isWordChar).length ≤ rest.length :=
              (List.dropWhile_sublist _).length_le
            readTokens? (.word value :: done) (rest.dropWhile isWordChar)
        else none
termination_by cs.length
decreasing_by all_goals (simp only [List.length_cons]; omega)

/-- Splits a text into tokens. -/
def tokens? (text : String) : Option (List Token) :=
  readTokens? [] text.toList

end NestedQuery.Json
