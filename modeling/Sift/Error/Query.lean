import Sift.Error.Kind
import Sift.Schema.Mismatch

/-!
# Request errors

What can be wrong with a request, by cause, and the wording of each cause.
-/

namespace Sift

/-- What is wrong with the form of a request. -/
inductive Malformation where
  /-- The includes have a kind that names no relations. -/
  | includes (fullKind : String)
  /-- A section, or an item of it, is not an object. -/
  | notObject (place kind : String)
  /-- The operand of `and` or `or` is not an array. -/
  | notArray (connective : String)
  | direction (value : Value)
  | orderedByMany (field : String)
  | orderItem (kind : String)
  | unnamedColumn
  | orderForm (kind : String)
  | body (kind : String)
  /-- A complaint in the words of the application. -/
  | stated (complaint : String)

namespace Malformation

def message : Malformation → String
  | .includes kind => "includes must be a string, a list, or an object; <class '" ++ kind ++ "'> provided"
  | .notObject place kind => place ++ " must be an object; " ++ kind ++ " provided"
  | .notArray connective => "filtering: \"" ++ connective ++ "\" must be an array of objects"
  | .direction v => "ordering direction can be either ASC or DESC; " ++ v.literal ++ " provided"
  | .orderedByMany field => "Can't order by \"" ++ field ++ "\": it is behind a to-many relation"
  | .orderItem kind => "ordering items must be objects or strings; " ++ kind ++ " provided"
  | .unnamedColumn => "ordering: an object must name a column with \"order_by\""
  | .orderForm kind => "ordering must be either an array, a string, or an object; " ++ kind ++ " provided."
  | .body kind => "request body must be an object; " ++ kind ++ " provided"
  | .stated complaint => complaint

end Malformation

inductive QueryError where
  /-- An error that is only described. -/
  | general (complaint : String)
  | validation (complaint : String)
  | infrastructure (complaint : String)
  | malformedSpec (malformation : Malformation)
  | unknownField (entity field place : String)
  | unknownRelation (entity label place : String)
  | unknownOperator (field operator : String)
  | typeMismatch (field operator : String) (value : Value) (reason : Mismatch)
  | policyViolation (field place : String)
  | lookupFailed (entity reason : String)

namespace QueryError

def kind : QueryError → ErrorKind
  | .general _ => .general
  | .validation _ => .validation
  | .infrastructure _ => .infrastructure
  | .malformedSpec _ => .malformedSpec
  | .unknownField .. => .unknownField
  | .unknownRelation .. => .unknownRelation
  | .unknownOperator .. => .unknownOperator
  | .typeMismatch .. => .typeMismatch
  | .policyViolation .. => .policyViolation
  | .lookupFailed .. => .lookupFailed

/-- The wording of an error, for those who run the endpoint. -/
def message : QueryError → String
  | .general complaint | .validation complaint | .infrastructure complaint => complaint
  | .malformedSpec malformation => "Query object error: " ++ malformation.message
  | .unknownField entity field place =>
    "Invalid field \"" ++ field ++ "\" for \"" ++ entity ++ "\" specified in " ++ place
  | .unknownRelation entity label place =>
    "Invalid relation \"" ++ label ++ "\" for \"" ++ entity ++ "\" specified in " ++ place
  | .unknownOperator field operator =>
    "Unsupported operator \"" ++ operator ++ "\" used on field \"" ++ field ++ "\""
  | .typeMismatch field operator value reason =>
    "Invalid value " ++ value.literal ++ " for \"" ++ field ++ "\" with operator \"" ++ operator ++ "\": "
      ++ reason.message
  | .policyViolation field place => "Field \"" ++ field ++ "\" is not allowed in " ++ place
  | .lookupFailed entity reason => "Identifier lookup failed for \"" ++ entity ++ "\": " ++ reason

/-- What an error says about itself, by name. -/
def details : QueryError → List (String × Value)
  | .general _ | .validation _ | .infrastructure _ | .malformedSpec _ => []
  | .unknownField entity field place | .unknownRelation entity field place =>
    [("entity", .text entity), ("field", .text field), ("where", .text place)]
  | .unknownOperator field operator => [("field", .text field), ("operator", .text operator)]
  | .typeMismatch field operator value reason =>
    [("field", .text field), ("operator", .text operator), ("value", value), ("reason", .text reason.message)]
  | .policyViolation field place => [("field", .text field), ("where", .text place)]
  | .lookupFailed entity _ => [("entity", .text entity)]

end QueryError

end Sift
