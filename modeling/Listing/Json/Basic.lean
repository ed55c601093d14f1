import Listing.Keyed
import Listing.Number.Double
/-!
# JSON values

Numbers are either integers or doubles; objects are lists of members in the order of the document,
where a key may stand twice. `Json.normal` is the form in which a document counts as plain data: the
members of every object in order of their keys, of two with one key the later.
-/
namespace Listing

inductive Json where
  | null
  | bool (b : Bool)
  | int (n : Int)
  | float (x : Double)
  | str (s : String)
  | arr (items : List Json)
  | obj (members : List (String × Json))
deriving Repr, Inhabited

namespace Json

/-- The value under a key, of several the first. -/
def member? (key : String) (members : List (String × Json)) : Option Json := members.lookup key

def string? : Json → Option String
  | .str s => some s
  | _ => none

def bool? : Json → Option Bool
  | .bool b => some b
  | _ => none

def items? : Json → Option (List Json)
  | .arr items => some items
  | _ => none

def members? : Json → Option (List (String × Json))
  | .obj members => some members
  | _ => none

mutual

/-- The members of every object in order of their keys, a repeated key with its last value; a double
that is no number becomes null. -/
def normal : Json → Json
  | .arr items => .arr (normalItems items)
  | .obj members => .obj (Keyed.ofList (normalMembers members))
  | .float x => if x.isFinite then .float x else .null
  | j => j

def normalItems : List Json → List Json
  | [] => []
  | j :: rest => normal j :: normalItems rest

def normalMembers : List (String × Json) → List (String × Json)
  | [] => []
  | (k, v) :: rest => (k, normal v) :: normalMembers rest

end

/-- A value found under a key is smaller than the object. -/
theorem sizeOf_member_lt {key : String} {members : List (String × Json)} {j : Json}
    (h : member? key members = some j) : sizeOf j < sizeOf members := by
  induction members with
  | nil => simp [member?] at h
  | cons m rest ih =>
    obtain ⟨k, v⟩ := m
    simp only [member?, List.lookup_cons] at h
    split at h
    · cases h
      simp
      omega
    · have := ih h
      simp
      omega

end Json
end Listing
