/-!
# Patterns

In a pattern the percent sign stands for any run of characters, the underscore
for one character, and a backslash makes the next character stand for itself; a
backslash at the end stands for itself.  Matching takes the tokens of a pattern
one after the other and keeps what may remain of the text after them.
-/

namespace NestedQuery.Like

/-- What a part of a pattern stands for. -/
inductive Token where
  | anyRun
  | anyOne
  | exactly (c : Char)
  deriving DecidableEq, Repr

/-- The tokens of a pattern. -/
def tokens : List Char → List Token
  | [] => []
  | '%' :: rest => .anyRun :: tokens rest
  | '_' :: rest => .anyOne :: tokens rest
  | ['\\'] => [.exactly '\\']
  | '\\' :: c :: rest => .exactly c :: tokens rest
  | c :: rest => .exactly c :: tokens rest

/-- The text and what remains of it after each of its characters, the longest first. -/
def suffixes : List Char → List (List Char)
  | [] => [[]]
  | c :: rest => (c :: rest) :: suffixes rest

/-- What may remain after a token, given what may remain before it, the longest first. -/
def Token.after : Token → List (List Char) → List (List Char)
  | .anyRun, [] => []
  | .anyRun, longest :: _ => suffixes longest
  | .anyOne, texts => texts.filterMap fun
    | [] => none
    | _ :: rest => some rest
  | .exactly c, texts => texts.filterMap fun
    | [] => none
    | d :: rest => if d = c then some rest else none

/-- Whether the tokens stand for the whole text. -/
def tokensMatch (tokens : List Token) (text : List Char) : Bool :=
  (tokens.foldl (fun texts token => token.after texts) [text]).any List.isEmpty

/-- Whether the pattern stands for the whole text. -/
def isMatch (text pattern : String) : Bool :=
  tokensMatch (tokens pattern.toList) text.toList

/-- The characters that mean something in a pattern. -/
def isSpecial (c : Char) : Bool :=
  c = '%' || c = '_' || c = '\\'

/-- The pattern that stands for a text alone. -/
def escape (needle : List Char) : List Char :=
  needle.flatMap fun c => if isSpecial c then ['\\', c] else [c]

/-- The pattern of the texts that hold `needle`, with anything before or after it as allowed. -/
def pattern (before after : Bool) (needle : String) : String :=
  String.ofList ((if before then ['%'] else []) ++ escape needle.toList ++
    (if after then ['%'] else []))

end NestedQuery.Like
