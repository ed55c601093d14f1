import Listing.Json.Basic
/-!
# Tables of a TOML document

A document fills in nested tables by headers and by keys with dots. Which tables may still be extended
depends on how they came to be: one with a header of its own is closed to dotted keys, one made by a
dotted key gets no header, and a value is closed to both. A header below a list of tables means its
last one. Entries stand in the order in which they begin; a table that was there for another one's sake
begins with its own header.
-/
namespace Listing.Toml

/-- How a table came to be. -/
inductive Origin where
  /-- By a header of its own. -/
  | header
  /-- On the way to another table's header. -/
  | parent
  /-- By a dotted key. -/
  | dotted
deriving DecidableEq, Repr

inductive Item where
  | value (j : Json)
  | table (origin : Origin) (entries : List (String × Item))
  | rows (tables : List (List (String × Item)))
deriving Inhabited

abbrev Entries := List (String × Item)

namespace Item

mutual

/-- The item as plain data. -/
def toJson : Item → Json
  | value j => j
  | table _ entries => .obj (entriesToJson entries)
  | rows tables => .arr (rowsToJson tables)

def entriesToJson : List (String × Item) → List (String × Json)
  | [] => []
  | (k, i) :: rest => (k, toJson i) :: entriesToJson rest

def rowsToJson : List (List (String × Item)) → List Json
  | [] => []
  | t :: rest => .obj (entriesToJson t) :: rowsToJson rest

end

end Item

namespace Entries

/-- The entries with another item under a key. -/
def put (key : String) (item : Item) (es : Entries) : Entries :=
  match es with
  | [] => [(key, item)]
  | (k, i) :: rest => if k = key then (k, item) :: rest else (k, i) :: put key item rest

/-- The entries with an item under a key behind all others. -/
def putLast (key : String) (item : Item) (es : Entries) : Entries :=
  es.filter (fun (k, _) => k != key) ++ [(key, item)]

/-- Changes the table at the end of a path and makes the tables that are missing on the way. The change
is told how its table came to be; for a whole document or a row that is `none`. -/
def change (dotted : Bool) (f : Option Origin → Entries → Option Entries) :
    (origin : Option Origin) → (path : List String) → Entries → Option Entries
  | origin, [], es => f origin es
  | _, k :: ks, es =>
    match es.lookup k with
    | none =>
      let origin := if dotted then .dotted else .parent
      (change dotted f (some origin) ks []).map fun inner => put k (.table origin inner) es
    | some (.value _) => none
    | some (.table origin inner) =>
      if dotted && origin = .header then none
      else (change dotted f (some origin) ks inner).map fun inner => put k (.table origin inner) es
    | some (.rows tables) =>
      match tables.reverse with
      | [] => none
      | last :: before =>
        (change dotted f none ks last).map fun last => put k (.rows (last :: before).reverse) es

/-- Puts a value under a dotted key, all of whose tables come from dotted keys. -/
def assign (path : List String) (key : String) (item : Item) (es : Entries) : Option Entries :=
  change true (fun origin es =>
    if (es.lookup key).isSome || (!path.isEmpty && origin != some .dotted) then none
    else some (put key item es)) none path es

/-- Begins a table with a header, behind the others of its table. -/
def beginTable (path : List String) (key : String) (es : Entries) : Option Entries :=
  change false (fun _ es =>
    match es.lookup key with
    | none => some (putLast key (.table .header []) es)
    | some (.table .parent inner) => some (putLast key (.table .header inner) es)
    | some _ => none) none path es

/-- Begins another table of a list of tables. -/
def beginRow (path : List String) (key : String) (es : Entries) : Option Entries :=
  change false (fun _ es =>
    match es.lookup key with
    | none => some (put key (.rows [[]]) es)
    | some (.rows tables) => some (put key (.rows (tables ++ [[]])) es)
    | some _ => none) none path es

/-- Puts a value under a dotted key of the table at a path. -/
def assignIn (table path : List String) (key : String) (item : Item) (es : Entries) : Option Entries :=
  change false (fun _ es => assign path key item es) none table es

end Entries
end Listing.Toml
