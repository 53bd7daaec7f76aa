import NestedQuery.Json.Basic
import NestedQuery.Number.Decimal

/-!
# Writing a JSON text

Documents are written without blanks.  A number that is not finite has no JSON
text and is written as `null`.
-/

namespace NestedQuery.Json

/-- A hexadecimal digit. -/
def hexText (n : Nat) : Char :=
  (Nat.digitChar n)

/-- The character as it stands inside a string: quotes, backslashes and control characters are
escaped and nothing else. -/
def escapeChar (c : Char) : List Char :=
  if c = '"' then ['\\', '"']
  else if c = '\\' then ['\\', '\\']
  else if c = '\n' then ['\\', 'n']
  else if c = '\r' then ['\\', 'r']
  else if c = '\t' then ['\\', 't']
  else if c.toNat = 8 then ['\\', 'b']
  else if c.toNat = 12 then ['\\', 'f']
  else if c.toNat < 0x20 then
    ['\\', 'u', '0', '0', hexText (c.toNat / 16), hexText (c.toNat % 16)]
  else [c]

/-- The text in quotes. -/
def quote (s : String) : String :=
  String.ofList ('"' :: s.toList.flatMap escapeChar ++ ['"'])

mutual

/-- The document as text. -/
def render : Json → String
  | .null => "null"
  | .bool b => if b then "true" else "false"
  | .integer n => toString n
  | .float x => x.jsonText?.getD "null"
  | .string s => quote s
  | .array items => "[" ++ String.intercalate "," (renderItems items) ++ "]"
  | .object fields => "\x7b" ++ String.intercalate "," (renderFields fields) ++ "\x7d"
  | .flawed => "null"

/-- The text of each document. -/
def renderItems : List Json → List String
  | [] => []
  | item :: rest => item.render :: renderItems rest

/-- The text of each value behind its key. -/
def renderFields : List (String × Json) → List String
  | [] => []
  | (name, value) :: rest => (quote name ++ ":" ++ value.render) :: renderFields rest

end

end NestedQuery.Json
