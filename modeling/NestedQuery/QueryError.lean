import NestedQuery.Value

/-!
# Errors

Every way in which a request, a definition or a statement can fail, by its
cause, and the message of each.
-/

namespace NestedQuery

/-- What is wrong with a relation that is defined by hand. -/
inductive RelationFault where
  | missingColumn (column table : String)
  | missingJunction
  deriving DecidableEq, Repr

/-- What went wrong where a statement was run. -/
inductive ExecutionFault where
  | unknownQualifier (qualifier : String)
  | unexpectedCount (value : Value)
  /-- A fault of the source of rows itself. -/
  | refused (text : String)
  deriving DecidableEq, Repr

/-- An error. -/
inductive QueryError where
  | unknownTable (table : String)
  | invalidRelation (table relation : String) (fault : RelationFault)
  | execution (fault : ExecutionFault)
  /-- A catalog document that is neither an array nor an object. -/
  | catalogShape
  /-- A document that is malformed or of another shape than its type. -/
  | malformed
  deriving DecidableEq, Repr

/-- The reason given for refusing a relation. -/
def RelationFault.reason : RelationFault → String
  | .missingColumn column table => "column " ++ column ++ " does not exist on " ++ table
  | .missingJunction => "many-to-many relation needs a through table"

/-- The text of a fault. -/
def ExecutionFault.text : ExecutionFault → String
  | .unknownQualifier qualifier => "unknown table or alias: " ++ qualifier
  | .unexpectedCount value => "unexpected count value " ++ value.literal
  | .refused text => text

/-- The message of an error. -/
def QueryError.message : QueryError → String
  | .unknownTable table => "unknown table: " ++ table
  | .invalidRelation table relation fault =>
    "invalid relation " ++ table ++ "." ++ relation ++ ": " ++ fault.reason
  | .execution fault => "executor error: " ++ fault.text
  | .catalogShape =>
    "catalog error: expected an array of tables or an object with a `tables` field"
  | .malformed => "malformed document"

end NestedQuery
