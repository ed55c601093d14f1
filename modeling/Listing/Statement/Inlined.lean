import Listing.Statement.Bound
/-!
# Texts as literals

A database that wants the type of every parameter would take a text next to a date for a text. So
texts are written into the statement as literals, whose type the database infers, and the other
parameters are numbered anew. A literal is `'…'`, or `E'…'` when its escaped text has a backslash.
-/
namespace Listing

namespace Literal

/-- A character between the quotes of a literal. -/
def escape (c : Char) : List Char :=
  if c = '\\' then ['\\', '\\']
  else if c = '\x22' then ['\\', '\x22']
  else if c = '\x27' then ['\\', '\x27']
  else if c = '\x00' then ['\\', '0']
  else if c = '\x08' then ['\\', 'b']
  else if c = '\t' then ['\\', 't']
  else if c = '\x1a' then ['\\', 'z']
  else if c = '\n' then ['\\', 'n']
  else if c = '\r' then ['\\', 'r']
  else [c]

/-- The literal of a text. -/
def write (cs : List Char) : List Char :=
  let escaped := cs.flatMap escape
  let body := '\x27' :: escaped ++ ['\x27']
  if '\\' ∈ escaped then 'E' :: body else body

end Literal

namespace Inlined

/-- A character that is copied, or a placeholder with its digits. -/
inductive Piece where
  | char (c : Char)
  | slot (digits : List Char)
deriving DecidableEq, Repr

/-- Where the scanner is: between pieces, in quotes, or behind `$` with the digits read so far, last
first. -/
inductive Mode where
  | plain
  | quoted (q : Char)
  | slot (read : List Char)
deriving DecidableEq, Repr

def isQuote (c : Char) : Bool := c == '\x27' || c == '\x22'

/-- What a character between pieces begins. -/
def enter (c : Char) : Mode × List Piece :=
  if c = '$' then (.slot [], [])
  else if isQuote c then (.quoted c, [.char c])
  else (.plain, [.char c])

def step (mode : Mode) (c : Char) : Mode × List Piece :=
  match mode with
  | .plain => enter c
  | .quoted q => (if c = q then .plain else .quoted q, [.char c])
  | .slot read =>
    if c.isDigit then (.slot (c :: read), [])
    else ((enter c).1, .slot read.reverse :: (enter c).2)

/-- The pieces of a text read on from a mode. -/
def pieces : Mode → List Char → List Piece
  | .slot read, [] => [.slot read.reverse]
  | _, [] => []
  | mode, c :: cs => (step mode c).2 ++ pieces (step mode c).1 cs

/-- The value that a placeholder stands for; positions are counted from one. -/
def valueAt? (params : List Value) (digits : List Char) : Option Value :=
  match digits, Text.digitsToNat digits with
  | [], _ | _, 0 => none
  | _, n + 1 => params[n]?

/-- The text and the values that are left after `before` others. -/
def fill (params : List Value) (before : Nat) : List Piece → List Char × List Value
  | [] => ([], [])
  | .char c :: rest =>
    let (text, values) := fill params before rest
    (c :: text, values)
  | .slot ds :: rest =>
    match valueAt? params ds with
    | none =>
      let (text, values) := fill params before rest
      ('$' :: ds ++ text, values)
    | some (.str s) =>
      let (text, values) := fill params before rest
      (Literal.write s.toList ++ text, values)
    | some v =>
      let (text, values) := fill params (before + 1) rest
      ('$' :: (toString (before + 1)).toList ++ text, v :: values)

end Inlined

/-- The statement with its texts as literals and the other parameters numbered anew. -/
def Bound.inlineTexts (b : Bound) : Bound :=
  let (text, values) := Inlined.fill b.params 0 (Inlined.pieces .plain b.sql.toList)
  ⟨.ofList text, values⟩

end Listing
