import Listing.Json.Decode
import Listing.Json.Reader
import Listing.Platform
/-!
# Requests

What a client sends for one page of a list: a filter in any JSON, a list of sorts, and the page. A sort
may be written `"name"`, `["name", "desc"]` or `{"field": …, "direction": …}`; the word for its
direction is judged when the list is sorted.
-/
namespace Listing

structure SortBy where
  field : String
  direction : Option String := none
deriving DecidableEq, Repr, Inhabited

namespace SortBy

def asc (field : String) : SortBy := ⟨field, some "asc"⟩

def desc (field : String) : SortBy := ⟨field, some "desc"⟩

def ofJson? : Json → Option SortBy
  | .str field => some ⟨field, none⟩
  | .arr [.str field] => some ⟨field, none⟩
  | .arr [.str field, .str direction] => some ⟨field, some direction⟩
  | .obj ms => do
    return {
      field := ← Json.required ms "field" Json.string?
      direction := ← Json.nullable ms "direction" Json.string? }
  | _ => none

def toJson (s : SortBy) : Json :=
  .obj (("field", .str s.field) ::
    match s.direction with
    | some d => [("direction", .str d)]
    | none => [])

end SortBy

namespace Direction

/-- The direction that a word names, in any letter case; without a word it is ascending. -/
def parse (field : String) (word : Option String) : Except Error Direction :=
  let word := Text.trim (word.getD "")
  if word = "" ∨ Text.sameAscii word "asc" then .ok .asc
  else if Text.sameAscii word "desc" then .ok .desc
  else .error (.unknownDirection word field)

def name : Direction → String
  | asc => "asc"
  | desc => "desc"

def sql : Direction → String
  | asc => "ASC"
  | desc => "DESC"

end Direction

/-- Which page a client asks for and what it wants to know about the list. -/
structure PageRequest where
  /-- Counted from one. -/
  page : UInt64 := 1
  /-- The list's default without it. -/
  size : Option UInt64 := none
  /-- Whether the answer says where the page stands in the list. -/
  navigation : Bool := true
  /-- Whether all rows are counted. -/
  totalCount : Bool := false
deriving DecidableEq, Repr, Inhabited

namespace PageRequest

def ofMembers? (ms : Json.Members) : Option PageRequest := do
  return {
    page := ← Json.optional ms "page" Json.word? 1
    size := ← Json.nullable ms "items_per_page" Json.word?
    navigation := ← Json.optional ms "navigation" Json.bool? true
    totalCount := ← Json.optional ms "total_count" Json.bool? false }

def toMembers (r : PageRequest) : Json.Members :=
  ("page", Json.ofNat r.page.toNat) ::
    (match r.size with
      | some n => [("items_per_page", Json.ofNat n.toNat)]
      | none => []) ++
    [("navigation", .bool r.navigation), ("total_count", .bool r.totalCount)]

def toJson (r : PageRequest) : Json := .obj r.toMembers

end PageRequest

structure Request where
  filters : Json := .null
  sort : List SortBy := []
  page : PageRequest := {}
deriving Repr, Inhabited

namespace Request

def ofJson? (j : Json) : Option Request := do
  let ms ← j.members?
  return {
    filters := ← Json.optional ms "filters" some .null
    sort := ← Json.optional ms "sort" (Json.listOf SortBy.ofJson?) []
    page := ← PageRequest.ofMembers? ms }

def toJson (r : Request) : Json :=
  .obj ([("filters", r.filters), ("sort", .arr (r.sort.map SortBy.toJson))] ++ r.page.toMembers)

/-- The members of a request's document: the filter is data, every other part stands as it is. -/
def membersOf? (format : Format) : List (Option String × Document) → Option Json.Members
  | [] => some []
  | (key, d) :: rest => do
    let key ← key
    let j ← if key = "filters" then d.data? format else d.value?
    return (key, j) :: (← membersOf? format rest)

/-- The request that a document describes, with its filter as plain data. -/
def ofDocument? (format : Format) : Document → Option Request
  | .object members => do
    let r ← ofJson? (.obj (← membersOf? format members))
    return { r with filters := r.filters.normal }
  | _ => none

end Request
end Listing
