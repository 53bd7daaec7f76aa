import NestedQuery.Json.Token

/-!
# Reading a JSON text

The tokens of a text are taken one after the other while the containers that
are still open are kept in a list, the innermost first.  A container below the
depth limit is read like any other and then becomes flawed as a whole, so it
does no harm where nothing looks at it.
-/

namespace NestedQuery.Json

/-- A container that is still open, with what it holds so far, the last first.  An object is no
longer sound once a key of it stands for nothing. -/
inductive Frame where
  | array (items : List Json)
  | object (fields : List (String × Json)) (sound : Bool)
  /-- An object that waits for the value of a key. -/
  | field (fields : List (String × Json)) (sound : Bool) (key : Option String)

/-- Where the reader stands between two tokens. -/
inductive State where
  /-- Before a value. -/
  | value (stack : List Frame)
  /-- Before the first item of an array, or its end. -/
  | firstItem (stack : List Frame)
  /-- Before a key. -/
  | key (stack : List Frame)
  /-- Before the first key of an object, or its end. -/
  | firstKey (stack : List Frame)
  /-- After a key. -/
  | colon (stack : List Frame)
  /-- After a value in an open container. -/
  | next (stack : List Frame)
  /-- After the whole document. -/
  | done (document : Json)

/-- Hands a finished value to the innermost open container. -/
def State.give (json : Json) : List Frame → State
  | [] => .done json
  | .array items :: outer => .next (.array (json :: items) :: outer)
  | .field fields sound (some name) :: outer =>
    .next (.object ((name, json) :: fields) sound :: outer)
  | .field fields _ none :: outer => .next (.object fields false :: outer)
  | stack => .next stack

/-- Begins a value with its first token. -/
def State.begin (stack : List Frame) : Token → Option State
  | .openArray => some (.firstItem (.array [] :: stack))
  | .openObject => some (.firstKey (.object [] true :: stack))
  | .string (some s) => some (.give (.string s) stack)
  | .string none => some (.give .flawed stack)
  | .word json => some (.give json stack)
  | _ => none

/-- Ends a container with the given contents inside the containers `outer`. -/
def State.close (limit : Nat) (json : Json) (outer : List Frame) : State :=
  .give (if outer.length < limit then json else .flawed) outer

/-- Ends the innermost container, which must be an array. -/
def State.closeArray (limit : Nat) : List Frame → Option State
  | .array items :: outer => some (.close limit (.array items.reverse) outer)
  | _ => none

/-- Ends the innermost container, which must be an object. -/
def State.closeObject (limit : Nat) : List Frame → Option State
  | .object fields sound :: outer =>
    some (.close limit (if sound then .object fields.reverse else .flawed) outer)
  | _ => none

/-- Takes a key of the innermost container. -/
def State.takeKey (name : Option String) : List Frame → Option State
  | .object fields sound :: outer => some (.colon (.field fields sound name :: outer))
  | _ => none

/-- Takes one token; none where it cannot stand. -/
def State.step (limit : Nat) : State → Token → Option State
  | .value stack, token => State.begin stack token
  | .firstItem stack, .closeArray => State.closeArray limit stack
  | .firstItem stack, token => State.begin stack token
  | .firstKey stack, .closeObject => State.closeObject limit stack
  | .firstKey stack, .string name => State.takeKey name stack
  | .key stack, .string name => State.takeKey name stack
  | .colon stack, .colon => some (.value stack)
  | .next (.array items :: outer), .comma => some (.value (.array items :: outer))
  | .next (.object fields sound :: outer), .comma => some (.key (.object fields sound :: outer))
  | .next stack, .closeArray => State.closeArray limit stack
  | .next stack, .closeObject => State.closeObject limit stack
  | _, _ => none

/-- The document of a sequence of tokens. -/
def ofTokens? (limit : Nat) (tokens : List Token) : Option Json := do
  match ← tokens.foldlM (State.step limit) (.value []) with
  | .done document => some document
  | _ => none

/-- Reads a text as one document in which containers nest at most `limit` deep; deeper ones are
flawed.  None if the text is malformed. -/
def read? (limit : Nat) (text : String) : Option Json := do
  ofTokens? limit (← tokens? text)

end NestedQuery.Json
