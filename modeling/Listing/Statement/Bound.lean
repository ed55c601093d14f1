import Listing.Param.Bag
import Listing.Platform
import Listing.Text.Ascii
/-!
# Binding parameters

A statement names its parameters `:name`; a database takes placeholders by position. The text is cut
into pieces, of which a name outside quotes is one, and each name in the bag is replaced by
placeholders: one for a scalar, one for each item of a list, `NULL` for an empty list. Quoted text and
`::` casts are copied.
-/
namespace Listing

/-- A statement with placeholders by position and their values in order. -/
structure Bound where
  sql : String
  params : List Value
deriving Repr, Inhabited

namespace Bound

/-- A character that is copied, or a parameter's name with its colon. -/
inductive Piece where
  | char (c : Char)
  | name (n : List Char)
deriving DecidableEq, Repr

/-- Where the scanner is: between pieces, in quotes, or behind a colon with the characters of a name
read so far, last first. -/
inductive Mode where
  | plain
  | quoted (q : Char)
  | named (read : List Char)
deriving DecidableEq, Repr

/-- The characters of names. -/
def isNameChar (c : Char) : Bool := c.isAlphanum || c == '_'

/-- Quote characters; each ends at the next of its kind. -/
def isQuote (c : Char) : Bool := c == '\x27' || c == '\x22' || c == '\x60'

/-- What a character between pieces begins. -/
def enter (c : Char) : Mode × List Piece :=
  if c = ':' then (.named [], [])
  else if isQuote c then (.quoted c, [.char c])
  else (.plain, [.char c])

/-- The piece behind a colon; a colon without a name is copied. -/
def leave (read : List Char) : Piece :=
  if read.isEmpty then .char ':' else .name (':' :: read.reverse)

def step (mode : Mode) (c : Char) : Mode × List Piece :=
  match mode with
  | .plain => enter c
  | .quoted q => (if c = q then .plain else .quoted q, [.char c])
  | .named read =>
    if isNameChar c then (.named (c :: read), [])
    else if read.isEmpty && c == ':' then (.plain, [.char ':', .char ':'])
    else ((enter c).1, leave read :: (enter c).2)

/-- The pieces of a text read on from a mode. -/
def pieces : Mode → List Char → List Piece
  | .named read, [] => [leave read]
  | _, [] => []
  | mode, c :: cs => (step mode c).2 ++ pieces (step mode c).1 cs

/-- The values that a parameter binds. -/
def slots : Value → List Value
  | .list items => items
  | v => [v]

/-- Placeholders for a number of values after `before` others. -/
def placeholders (p : Platform) (before count : Nat) : String :=
  if count = 0 then "NULL"
  else String.intercalate ", " ((List.range count).map fun i => p.placeholder (before + i + 1))

/-- The text and the values of pieces after `before` values. -/
def fill (p : Platform) (bag : Bag) (before : Nat) : List Piece → List Char × List Value
  | [] => ([], [])
  | .char c :: rest =>
    let (text, values) := fill p bag before rest
    (c :: text, values)
  | .name n :: rest =>
    match bag.get? (.ofList n) with
    | none =>
      let (text, values) := fill p bag before rest
      (n ++ text, values)
    | some v =>
      let vs := slots v
      let (text, values) := fill p bag (before + vs.length) rest
      ((placeholders p before vs.length).toList ++ text, vs ++ values)

end Bound

/-- The statement with placeholders in place of the names in the bag. -/
def Platform.bind (p : Platform) (sql : String) (bag : Bag) : Bound :=
  let (text, values) := Bound.fill p bag 0 (Bound.pieces .plain sql.toList)
  ⟨.ofList text, values⟩

/-- The names of the types of the values, in order. -/
def Bound.typeNames (b : Bound) (p : Platform) : List String := b.params.map p.typeName

end Listing
