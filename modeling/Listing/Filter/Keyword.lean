import Listing.Error
import Listing.Text.Ascii
import Listing.Text.Blank
/-!
# Words of a filter

A client names operators by their tokens and joins conditions with `and` and `or`. Blanks around a
word do not count, nor does the case of a connective; a connective that is missing, null or empty is
`and`.
-/
namespace Listing

/-- The operator that a client's word names. -/
def Operator.ofToken (word : String) : Except Error Operator :=
  let word := Text.trim word
  match Operator.ofName? word with
  | some op => .ok op
  | none => .error (.unknownOperator word)

/-- How a condition or group is joined to the one before it. -/
inductive Connective where
  | and
  | or
deriving DecidableEq, Repr, Inhabited

namespace Connective

def sql : Connective → String
  | and => "AND"
  | or => "OR"

/-- The connective in a document. -/
def name : Connective → String
  | and => "and"
  | or => "or"

def ofName? (s : String) : Option Connective :=
  if s = "and" then some .and else if s = "or" then some .or else none

def ofToken (word : String) : Except Error Connective :=
  let word := Text.trim word
  if word = "" ∨ Text.sameAscii word "and" then .ok .and
  else if Text.sameAscii word "or" then .ok .or
  else .error (.unknownConnective word)

/-- The connective in a specification, where it may be missing. -/
def ofJson : Option Json → Except Error Connective
  | none | some .null => .ok .and
  | some (.str word) => ofToken word
  | some other => .error (.connectiveNotText other)

theorem ofName?_name (c : Connective) : ofName? c.name = some c := by cases c <;> decide

end Connective
end Listing
