import Listing.Json.Basic
/-!
# Documents

A document is what a text writes, part by part. A part may be well formed and still have no value: a
number beyond the range of doubles, a string with half a surrogate pair, a list or an object below too
many others. Then nothing around it has a value either (`value?`), but every other part keeps its own.
-/
namespace Listing

/-- The languages in which documents are written. -/
inductive Format where
  | json
  | toml
deriving DecidableEq, Repr

inductive Document where
  /-- A scalar, or any part that has no value. -/
  | leaf (value : Option Json)
  | list (items : List Document)
  /-- In the order of the text; a key may have no value too. -/
  | object (members : List (Option String × Document))
deriving Repr, Inhabited

namespace Document

mutual

/-- The value of the whole document. -/
def value? : Document → Option Json
  | .leaf value => value
  | .list items => (itemValues? items).map .arr
  | .object members => (memberValues? members).map .obj

def itemValues? : List Document → Option (List Json)
  | [] => some []
  | d :: rest => do return (← value? d) :: (← itemValues? rest)

def memberValues? : List (Option String × Document) → Option (List (String × Json))
  | [] => some []
  | (key, d) :: rest => do return (← key, ← value? d) :: (← memberValues? rest)

end

mutual

/-- The document of a value. -/
def ofJson : Json → Document
  | .arr items => .list (ofItems items)
  | .obj members => .object (ofMembers members)
  | j => .leaf (some j)

def ofItems : List Json → List Document
  | [] => []
  | j :: rest => ofJson j :: ofItems rest

def ofMembers : List (String × Json) → List (Option String × Document)
  | [] => []
  | (key, j) :: rest => (some key, ofJson j) :: ofMembers rest

end

mutual

/-- A document made of a value has that value. -/
theorem value?_ofJson : (j : Json) → (ofJson j).value? = some j
  | .null | .bool _ | .int _ | .float _ | .str _ => rfl
  | .arr items => by simp [ofJson, value?, itemValues?_ofItems items]
  | .obj members => by simp [ofJson, value?, memberValues?_ofMembers members]

theorem itemValues?_ofItems : (items : List Json) → itemValues? (ofItems items) = some items
  | [] => rfl
  | j :: rest => by simp [ofItems, itemValues?, value?_ofJson j, itemValues?_ofItems rest]

theorem memberValues?_ofMembers :
    (members : List (String × Json)) → memberValues? (ofMembers members) = some members
  | [] => rfl
  | (key, j) :: rest => by
    simp [ofMembers, memberValues?, value?_ofJson j, memberValues?_ofMembers rest]

end

end Document
end Listing
