import Listing.Document.Basic
/-!
# Data in documents

Where any data may stand, an object whose first key is `textKey` stands for what the text under that
key writes: in JSON it has no second key, in TOML what follows is passed over. Elsewhere such an object
is one like any other.
-/
namespace Listing.Document

/-- The key of an object that holds the text of a value instead of the value. -/
def textKey : String := "$serde_json::private::RawValue"

/-- The string that a document is. -/
def text? : Document → Option String
  | .leaf (some (.str s)) => some s
  | _ => none

/-- What stands in an object for the text of a value, if its first key says so; `some none` where that is
no text or not alone. -/
def embedded? (format : Format) : List (Option String × Document) → Option (Option String)
  | (key, d) :: rest =>
    if key = some textKey then some (if rest.isEmpty || format == .toml then d.text? else none)
    else none
  | [] => none

mutual

/-- The data of a document; `read` gives the data that a text writes. -/
def dataWith? (format : Format) (read : String → Option Json) : Document → Option Json
  | .leaf value => value
  | .list items => (itemsWith? format read items).map .arr
  | .object members =>
    match embedded? format members with
    | some text => text.bind read
    | none => (membersWith? format read members).map .obj

/-- The data of a list's items, if every one has data. -/
def itemsWith? (format : Format) (read : String → Option Json) : List Document → Option (List Json)
  | [] => some []
  | d :: rest => do return (← dataWith? format read d) :: (← itemsWith? format read rest)

/-- The members of an object with the data that stand under their keys. -/
def membersWith? (format : Format) (read : String → Option Json) :
    List (Option String × Document) → Option (List (String × Json))
  | [] => some []
  | (key, d) :: rest => do
    return (← key, ← dataWith? format read d) :: (← membersWith? format read rest)

end

end Listing.Document
