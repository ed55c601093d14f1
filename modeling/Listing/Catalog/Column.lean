import Listing.Error
import Listing.Text.Ascii
import Listing.Text.Blank
/-!
# Entries of a select list

An entry is an expression and a name with `as` or only a blank between them, or an expression alone,
whose name is what follows its last dot. Runs of blanks count as one space and `as` may stand in any
letter case.
-/
namespace Listing

/-- An output column. -/
structure Column where
  name : String
  expression : String
deriving DecidableEq, Repr, Inhabited

namespace Column

/-- The pieces between the occurrences of ` as `, found from the left; one more than there are. -/
def cutAtAs : List Char → List (List Char)
  | ' ' :: a :: s :: ' ' :: rest =>
    if a.toLower = 'a' ∧ s.toLower = 's' then [] :: cutAtAs rest
    else keep ' ' (cutAtAs (a :: s :: ' ' :: rest))
  | c :: rest => keep c (cutAtAs rest)
  | [] => [[]]
where
  keep (c : Char) : List (List Char) → List (List Char)
    | [] => [[c]]
    | piece :: pieces => (c :: piece) :: pieces

/-- What follows the last dot, or the whole text without one. -/
def afterLastDot (cs : List Char) : List Char := (cs.reverse.takeWhile (· != '.')).reverse

/-- The parts of an entry whose blanks are single spaces. -/
def parts (cs : List Char) : List (List Char) :=
  match cutAtAs cs with
  | [_] => cs.splitOn ' '
  | pieces => pieces

/-- The column that an entry of a select list declares. -/
def ofDeclaration (declaration : String) : Except Error Column :=
  match parts (Text.collapse declaration).toList with
  | [expression] =>
    if expression.isEmpty then .error (.malformedColumn declaration)
    else .ok ⟨.ofList (afterLastDot expression), .ofList expression⟩
  | [expression, name] =>
    if expression.isEmpty || name.isEmpty then .error (.malformedColumn declaration)
    else .ok ⟨.ofList name, .ofList expression⟩
  | _ => .error (.malformedColumn declaration)

end Column
end Listing
