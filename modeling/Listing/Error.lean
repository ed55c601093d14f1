import Listing.Filter.Operator
import Listing.Json.Printer
/-!
# Errors

Every refusal is a cause. Its `kind` says who is to blame: the definition or request does not have the
agreed form (`configuration`), the client asked for something that the list does not allow
(`validation`), a field's transform refused a value (`transform`), the database failed, or the work is
beyond what the program can do (`limit`). `message` words each cause.
-/
namespace Listing

inductive Error where
  -- the form of a definition or a request
  | unknownOperator (token : String)
  | unknownConnective (token : String)
  | connectiveNotText (got : Json)
  | unknownPlatform (name : String)
  | undeclaredField (name : String)
  | malformedColumn (declaration : String)
  | noTable
  | noColumns
  | notAFilter (got : Json)
  | notAnEntry (got : Json)
  | collectionNotList
  | conditionNotObject (got : Json)
  | noProperty
  | noOperator (property : String)
  -- what a list allows
  | nestedValue
  | valueIsObject
  | filterNotAllowed (field : String)
  | operatorNotAllowed (operator : Operator) (field : String)
  | boundsCount (operator : Operator) (field : String) (count : Nat)
  | boundsMissing (operator : Operator) (field : String)
  | listMissing (operator : Operator) (field : String)
  | listNotAccepted (operator : Operator) (field : String)
  | sortNotAllowed (field : String)
  | unknownDirection (direction field : String)
  | pageTooSmall
  | sizeTooSmall
  | pageOutOfRange (page : Nat)
  /-- A transform failed; its reasons, the outermost first. -/
  | transform (field : String) (reasons : List String)
  | database
  -- what the program cannot do
  /-- A filter has more nodes than there are numbers for them. -/
  | numbersExhausted
  /-- Pages of size zero were to be counted. -/
  | divisionByZero
deriving Repr, Inhabited

namespace Error

inductive Kind where
  | configuration
  | validation
  | transform
  | database
  | limit
deriving DecidableEq, Repr

def kind : Error → Kind
  | unknownOperator _ | unknownConnective _ | connectiveNotText _ | unknownPlatform _
  | undeclaredField _ | malformedColumn _ | noTable | noColumns | notAFilter _ | notAnEntry _
  | collectionNotList | conditionNotObject _ | noProperty | noOperator _ => .configuration
  | nestedValue | valueIsObject | filterNotAllowed _ | operatorNotAllowed _ _ | boundsCount _ _ _
  | boundsMissing _ _ | listMissing _ _ | listNotAccepted _ _ | sortNotAllowed _
  | unknownDirection _ _ | pageTooSmall | sizeTooSmall | pageOutOfRange _ => .validation
  | transform _ _ => .transform
  | database => .database
  | numbersExhausted | divisionByZero => .limit

/-- The client's input is at fault. -/
def isClientError (e : Error) : Bool := e.kind == .validation || e.kind == .transform

/-- The cause in words, without the kind. -/
def detail : Error → String
  | unknownOperator token => s!"comparison operator \"{token}\" is not supported"
  | unknownConnective token => s!"bool operator must be \"and\" or \"or\", got \"{token}\""
  | connectiveNotText got => "bool operator must be \"and\" or \"or\", got " ++ got.compact
  | unknownPlatform name => s!"database platform \"{name}\" is not supported"
  | undeclaredField name => s!"field \"{name}\" is not declared by the query"
  | malformedColumn declaration => s!"select expression \"{declaration}\" is wrong"
  | noTable => "query skeleton has no FROM table"
  | noColumns => "query skeleton selects no columns"
  | notAFilter got => "filter must be an object or an array, got " ++ got.compact
  | notAnEntry got => "filter entries must be objects or arrays, got " ++ got.compact
  | collectionNotList => "\"collection\" must be an array"
  | conditionNotObject got => "\"condition\" must be an object, got " ++ got.compact
  | noProperty => "filter condition has no \"property\""
  | noOperator property => s!"filter condition on \"{property}\" has no \"operator\""
  | nestedValue => "filter value lists may only contain scalars"
  | valueIsObject => "filter values must be scalars or lists of scalars"
  | filterNotAllowed field => s!"filter by \"{field}\" is not allowed"
  | operatorNotAllowed operator field =>
    s!"comparison operator \"{operator.token}\" by \"{field}\" is not allowed"
  | boundsCount operator field count =>
    s!"\"{operator.token}\" by \"{field}\" needs exactly two values, got {count}"
  | boundsMissing operator field => s!"\"{operator.token}\" by \"{field}\" needs exactly two values"
  | listMissing operator field => s!"\"{operator.token}\" by \"{field}\" needs a list of values"
  | listNotAccepted operator field =>
    s!"\"{operator.token}\" by \"{field}\" does not accept a list of values"
  | sortNotAllowed field => s!"sort by \"{field}\" is not allowed"
  | unknownDirection direction field =>
    s!"sort direction \"{direction}\" for \"{field}\" must be \"asc\" or \"desc\""
  | pageTooSmall => "page must be at least 1"
  | sizeTooSmall => "items_per_page must be at least 1"
  | pageOutOfRange page => s!"page {page} is out of range"
  | transform field reasons =>
    s!"value transform for \"{field}\" failed: " ++ String.intercalate ": " reasons
  | database => "database error"
  | numbersExhausted => "too many filter nodes"
  | divisionByZero => "division by zero"

/-- The cause in words, after its kind. -/
def message (e : Error) : String :=
  match e.kind with
  | .configuration => "configuration error: " ++ e.detail
  | .validation => "validation error: " ++ e.detail
  | .transform | .database | .limit => e.detail

end Error
end Listing
