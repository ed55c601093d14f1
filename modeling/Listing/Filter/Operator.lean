/-!
# Comparison operators

The operators a filter may use: the token a client writes, the text in the query, and the category
that says what value an operator takes. Tokens are distinct (`ofName?_eq_some`).
-/
namespace Listing

inductive Operator where
  | equals
  | notEquals
  | greaterThan
  | greaterThanOrEqual
  | lessThan
  | lessThanOrEqual
  | isNull
  | isNotNull
  | isIn
  | notIn
  | beginsWith
  | endsWith
  | contains
  | notBeginsWith
  | notEndsWith
  | notContains
  | between
  | notBetween
deriving DecidableEq, Repr, Inhabited

namespace Operator

/-- What an operator compares and what value it takes. -/
inductive Category where
  /-- The LIKE family; the value is put between wildcards. -/
  | stringOnly
  /-- Order and ranges. -/
  | numericOrDate
  | equality
  /-- No value. -/
  | nullCheck
  /-- A list of values. -/
  | setMembership
deriving DecidableEq, Repr

/-- Every operator, in the order in which they are listed for clients. -/
def all : List Operator :=
  [equals, notEquals, greaterThan, greaterThanOrEqual, lessThan, lessThanOrEqual, isNull, isNotNull,
    isIn, notIn, beginsWith, endsWith, contains, notBeginsWith, notEndsWith, notContains, between,
    notBetween]

/-- The client's word for the operator. -/
def token : Operator → String
  | equals => "equals"
  | notEquals => "not_equals"
  | greaterThan => "greater_than"
  | greaterThanOrEqual => "greater_than_or_equal"
  | lessThan => "less_than"
  | lessThanOrEqual => "less_than_or_equal"
  | isNull => "is_null"
  | isNotNull => "is_not_null"
  | isIn => "in"
  | notIn => "not_in"
  | beginsWith => "begins_with"
  | endsWith => "ends_with"
  | contains => "contains"
  | notBeginsWith => "not_begins_with"
  | notEndsWith => "not_ends_with"
  | notContains => "not_contains"
  | between => "between"
  | notBetween => "not_between"

/-- The operator in the query. -/
def sql : Operator → String
  | equals => "="
  | notEquals => "!="
  | greaterThan => ">"
  | greaterThanOrEqual => ">="
  | lessThan => "<"
  | lessThanOrEqual => "<="
  | isNull => "IS NULL"
  | isNotNull => "IS NOT NULL"
  | isIn => "IN"
  | notIn => "NOT IN"
  | beginsWith | endsWith | contains => "LIKE"
  | notBeginsWith | notEndsWith | notContains => "NOT LIKE"
  | between => "BETWEEN"
  | notBetween => "NOT BETWEEN"

def category : Operator → Category
  | equals | notEquals => .equality
  | greaterThan | greaterThanOrEqual | lessThan | lessThanOrEqual | between | notBetween =>
    .numericOrDate
  | isNull | isNotNull => .nullCheck
  | isIn | notIn => .setMembership
  | beginsWith | endsWith | contains | notBeginsWith | notEndsWith | notContains => .stringOnly

def isNullCheck (op : Operator) : Bool := op.category == .nullCheck

def isSetMembership (op : Operator) : Bool := op.category == .setMembership

def isRange : Operator → Bool
  | between | notBetween => true
  | _ => false

/-- The pattern that the LIKE family matches against; `none` for the other operators. -/
def pattern? (op : Operator) (text : String) : Option String :=
  match op with
  | beginsWith | notBeginsWith => some (text ++ "%")
  | endsWith | notEndsWith => some ("%" ++ text)
  | contains | notContains => some ("%" ++ text ++ "%")
  | _ => none

/-- The operator with exactly this token. -/
def ofName? (name : String) : Option Operator := all.find? (·.token == name)

theorem mem_all (op : Operator) : op ∈ all := by cases op <;> decide

theorem token_injective {a b : Operator} (h : a.token = b.token) : a = b := by
  revert h
  cases a <;> cases b <;> decide

theorem ofName?_eq_some {name : String} {op : Operator} :
    ofName? name = some op ↔ name = op.token := by
  constructor
  · intro h
    have := List.find?_some h
    simpa using (beq_iff_eq.1 this).symm
  · rintro rfl
    cases op <;> decide

end Operator
end Listing
