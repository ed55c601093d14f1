import Listing.Filter.Predicate
/-!
# Filter trees

A filter is a predicate or a numbered group of filters. Each carries the connective to the one before
it; in a compiled group the first connective is dropped and the rest put in parentheses, and parts that
say nothing are left out.
-/
namespace Listing

/-- The text behind a word of small letters, which may stand in any letter case. -/
def behind? (word text : List Char) : Option (List Char) :=
  if (text.take word.length).map Char.toLower = word then some (text.drop word.length) else none

/-- Drops one `and ` or `or ` in front, in any letter case, and the blanks around it. -/
def dropConnective (text : List Char) : List Char :=
  let text := Text.trimFront text
  match (behind? ['a', 'n', 'd', ' '] text).or (behind? ['o', 'r', ' '] text) with
  | some rest => Text.trimFront rest
  | none => text

/-- `dropConnective` on strings. -/
def trimConnective (text : String) : String := .ofList (dropConnective text.toList)

inductive Node where
  | predicate (p : Predicate)
  | group (number : UInt32) (connective : Connective) (children : List Node)

instance : Inhabited Node := ⟨.group 0 .and []⟩

namespace Node

def number : Node → UInt32
  | predicate p => p.number
  | group n _ _ => n

def connective : Node → Connective
  | predicate p => p.connective
  | group _ c _ => c

/-- The fragments of a group in parentheses behind its connective, if there are any. -/
def enclose (c : Connective) (fragments : List String) : Option String :=
  if fragments.isEmpty then none
  else some (c.sql ++ " (" ++ trimConnective (String.intercalate " " fragments) ++ ")")

mutual

/-- The filter for a query, behind its connective; `none` if it says nothing there. -/
def compile (scope : Scope) : Node → Option String
  | predicate p => p.compile scope
  | group _ c children => enclose c (fragments scope children)

/-- The parts of a group that say something. -/
def fragments (scope : Scope) : List Node → List String
  | [] => []
  | n :: rest =>
    match compile scope n with
    | some f => f :: fragments scope rest
    | none => fragments scope rest

end

mutual

/-- Whether a predicate on an aggregated field is among them. -/
def aggregated : Node → Bool
  | predicate p => p.aggregated
  | group _ _ children => anyAggregated children

def anyAggregated : List Node → Bool
  | [] => false
  | n :: rest => aggregated n || anyAggregated rest

end

mutual

/-- The parameters of all predicates, in order. -/
def parameters : Node → Bag
  | predicate p => p.parameters
  | group _ _ children => gather .empty children

/-- A bag extended by the parameters of nodes, one after the other. -/
def gather (bag : Bag) : List Node → Bag
  | [] => bag
  | n :: rest => gather (bag.extend (parameters n)) rest

end

mutual

/-- The predicates from left to right. -/
def predicates : Node → List Predicate
  | predicate p => [p]
  | group _ _ children => allPredicates children

def allPredicates : List Node → List Predicate
  | [] => []
  | n :: rest => predicates n ++ allPredicates rest

end

/-- The filter as a condition, without a connective in front. -/
def condition (n : Node) (scope : Scope) : Option String := (n.compile scope).map trimConnective

end Node
end Listing
