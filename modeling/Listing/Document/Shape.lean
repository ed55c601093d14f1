import Listing.Document.Basic
/-!
# Shapes of documents

A shape says which parts of a document count and which looser spellings they may have. A record may be
the list of its values in the order of its keys, and what stands under a key that it does not know is
passed over, whether it has a value or not. A name may be the only key of an object with nothing under
it. `fit?` gives the plain spelling: records are objects of known keys, names are strings. A part of
another kind than its shape stays as it stands, for the reader of the value to refuse.
-/
namespace Listing

inductive Shape where
  /-- Everything counts, spelled as it is. -/
  | any
  | name
  | list (item : Shape)
  /-- Entries under keys of any name. -/
  | table (entry : Shape)
  /-- The keys in order; a list gives at least the values of the first `least`. -/
  | record (least : Nat) (keys : List (String × Shape))
deriving Repr, Inhabited

namespace Document

/-- Whether nothing is written here: null, or in TOML, which has no null, an empty table or list. -/
def isNothing : Format → Document → Bool
  | .json, .leaf (some .null) => true
  | .toml, .object [] => true
  | .toml, .list [] => true
  | _, _ => false

/-- Whether a list may stand for a record; only TOML lets it have more values than there are keys. -/
def fitsLength (format : Format) (least most length : Nat) : Bool :=
  least ≤ length && (length ≤ most || format == .toml)

mutual

/-- The value of the parts that count, in its plain spelling. -/
def fit? (format : Format) : Shape → Document → Option Json
  | .name, .object [(key, d)] => if d.isNothing format then key.map .str else none
  | .list item, .list items => (fitItems? format item items).map .arr
  | .table entry, .object members => (fitEntries? format entry members).map .obj
  | .record _ keys, .object members => (fitKnown? format keys members).map .obj
  | .record least keys, .list items =>
    if fitsLength format least keys.length items.length then
      (fitInOrder? format keys items).map .obj
    else none
  | _, d => d.value?

def fitItems? (format : Format) (item : Shape) : List Document → Option (List Json)
  | [] => some []
  | d :: rest => do return (← fit? format item d) :: (← fitItems? format item rest)

def fitEntries? (format : Format) (entry : Shape) :
    List (Option String × Document) → Option (List (String × Json))
  | [] => some []
  | (key, d) :: rest => do
    return (← key, ← fit? format entry d) :: (← fitEntries? format entry rest)

/-- The members under known keys; every key needs a value to be known or not. -/
def fitKnown? (format : Format) (keys : List (String × Shape)) :
    List (Option String × Document) → Option (List (String × Json))
  | [] => some []
  | (key, d) :: rest => do
    let key ← key
    match keys.lookup key with
    | none => fitKnown? format keys rest
    | some shape => return (key, ← fit? format shape d) :: (← fitKnown? format keys rest)

/-- The values of a list under the keys of a record. -/
def fitInOrder? (format : Format) :
    List (String × Shape) → List Document → Option (List (String × Json))
  | (key, shape) :: keys, d :: rest => do
    return (key, ← fit? format shape d) :: (← fitInOrder? format keys rest)
  | _, _ => some []

end

/-- Where everything counts, the document has to have a value. -/
@[simp] theorem fit?_any (format : Format) (d : Document) : d.fit? format .any = d.value? := by
  cases d <;> rfl

end Document
end Listing
