import Listing.Error
import Listing.Json.Decode
import Listing.Number.Written
/-!
# Values of parameters

A value bound to a parameter is a scalar or a list. Whole numbers that 64 signed bits hold are
integers, all other numbers doubles. A filter takes its values with `ofFilter`, which refuses objects
and lists in lists; `ofJson?` reads any value but objects, and `toJson` writes it.
-/
namespace Listing

inductive Value where
  | null
  | bool (b : Bool)
  | int (n : Int64)
  | float (x : Double)
  | str (s : String)
  | list (items : List Value)
deriving Repr, Inhabited

namespace Value

/-- A whole number, as an integer if it fits. -/
def ofInt (n : Int) : Value :=
  if Int64.minValue.toInt ≤ n ∧ n ≤ Int64.maxValue.toInt then .int (.ofInt n) else .float (.ofInt n)

/-- The scalar that a JSON value writes. -/
def scalar? : Json → Option Value
  | .null => some .null
  | .bool b => some (.bool b)
  | .int n => some (ofInt n)
  | .float x => some (.float x)
  | .str s => some (.str s)
  | .arr _ | .obj _ => none

mutual

/-- The value that a JSON value writes; lists may nest, objects are no values. -/
def ofJson? : Json → Option Value
  | .arr items => (ofItems? items).map .list
  | .null => some .null
  | .bool b => some (.bool b)
  | .int n => some (ofInt n)
  | .float x => some (.float x)
  | .str s => some (.str s)
  | .obj _ => none

def ofItems? : List Json → Option (List Value)
  | [] => some []
  | j :: rest =>
    match ofJson? j, ofItems? rest with
    | some v, some vs => some (v :: vs)
    | _, _ => none

end

/-- The scalars in a list of a filter. -/
def scalars : List Json → Except Error (List Value)
  | [] => .ok []
  | j :: rest =>
    match scalar? j with
    | none => .error .nestedValue
    | some v => (scalars rest).map (v :: ·)

/-- The value of a filter: a scalar or a list of scalars. -/
def ofFilter : Json → Except Error Value
  | .arr items => (scalars items).map .list
  | j =>
    match scalar? j with
    | none => .error .valueIsObject
    | some v => .ok v

mutual

def toJson : Value → Json
  | .null => .null
  | .bool b => .bool b
  | .int n => .int n.toInt
  | .float x => if x.isFinite then .float x else .null
  | .str s => .str s
  | .list items => .arr (toItems items)

def toItems : List Value → List Json
  | [] => []
  | v :: rest => toJson v :: toItems rest

end

def isNull : Value → Bool
  | .null => true
  | _ => false

def isList : Value → Bool
  | .list _ => true
  | _ => false

def isInt : Value → Bool
  | .int _ => true
  | _ => false

/-- The text that a pattern is made of; null and lists have none. -/
def text? : Value → Option String
  | .str s => some s
  | .int n => some (toString n.toInt)
  | .float x => some (Number.write Number.plainStyle x)
  | .bool b => some (if b then "true" else "false")
  | .null | .list _ => none

/-- The type under which a value is bound. -/
inductive Kind where
  | null
  | integer
  | boolean
  | float
  | string
  | integerList
  | stringList
deriving DecidableEq, Repr

/-- Lists of integers bind as such, the empty one too; all others as lists of strings. -/
def kind : Value → Kind
  | .null => .null
  | .int _ => .integer
  | .bool _ => .boolean
  | .float _ => .float
  | .str _ => .string
  | .list items => if items.all isInt then .integerList else .stringList

/-- The name of a kind. -/
def Kind.name : Kind → String
  | .null => "null"
  | .integer => "integer"
  | .boolean => "boolean"
  | .float => "float"
  | .string => "string"
  | .integerList => "integer_list"
  | .stringList => "string_list"

end Value
end Listing
